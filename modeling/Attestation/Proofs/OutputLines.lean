import Attestation.Proofs.InputLines
import Attestation.Proofs.Transparency
import Mathlib.Data.List.Flatten

namespace Attestation.Proofs.OutputLines

open Framing InputLines Plugin Text Transparency Utf8Decoding Utf8Encoding
open Text.Utf8 (decode? encode)

/-- A line of text that has room. -/
structure Legible (l : Line) : Prop where
  fits : l.bytes.length ≤ maxLine
  text : ∃ s, encode s = l.bytes

section texts

theorem trim_snoc (s : String) {c : Char} (h : isBlank c = true) :
    trim (String.ofList (s.toList ++ [c])) = trim s := by
  rw [trim, trim, String.toList_ofList, dropBlanks, List.dropWhile_append]
  split
  · rename_i hnone
    have hdrop : dropBlanks s.toList = [] := List.isEmpty_iff.mp hnone
    rw [hdrop, List.dropWhile_cons_of_pos h]
    rfl
  · rw [dropBlanksEnd, List.reverse_append, dropBlanks, List.reverse_singleton,
      List.singleton_append, List.dropWhile_cons_of_pos h]
    rfl

theorem ofLine_text {bytes : List UInt8} {s : String} (h : encode s = bytes) :
    ∃ s', Frame.ofLine bytes = .line s' ∧ trim s' = trim s := by
  unfold Frame.ofLine dropReturn
  split
  · rename_i hr
    split at hr
    · rename_i hreturn
      obtain ⟨init, rfl⟩ := List.getLast?_eq_some_iff.mp hreturn
      rw [List.dropLast_concat] at hr
      rename_i s'
      have hsnoc := encode_snoc s' (b := 0x0D) (by decide)
      rw [decode?_eq_some_iff.mp hr, ← h] at hsnoc
      refine ⟨s', rfl, ?_⟩
      rw [← encode_injective hsnoc]
      exact (trim_snoc s' (by decide)).symm
    · rename_i s' _
      exact ⟨s', rfl, by rw [encode_injective ((decode?_eq_some_iff.mp hr).trans h.symm)]⟩
  · rename_i hnone
    refine absurd hnone ?_
    split
    · rename_i hreturn
      obtain ⟨init, rfl⟩ := List.getLast?_eq_some_iff.mp hreturn
      obtain ⟨s', hs'⟩ := (text_snoc (b := 0x0D) (by decide)).mp ⟨s, h⟩
      rw [List.dropLast_concat, decode?_eq_some_iff.mpr hs']
      exact Option.some_ne_none s'
    · rw [decode?_eq_some_iff.mpr h]
      exact Option.some_ne_none s

theorem Legible.not_fault {l : Line} (h : Legible l) : (Frame.ofLine l.bytes).isFault = false := by
  obtain ⟨s, hs⟩ := h.text
  obtain ⟨s', hframe, -⟩ := ofLine_text hs
  rw [hframe]
  rfl

end texts

section lines

variable {input : List UInt8} {l : Line} {lines : List Line}

theorem lines_nil (h : Lines input []) : input = [] := by
  cases h
  rfl

theorem lines_cons (h : Lines input (l :: lines)) : (0x0A : UInt8) ∉ l.bytes ∧
    ((l.ended = true ∧ ∃ rest, input = l.bytes ++ 0x0A :: rest ∧ Lines rest lines) ∨
      l.ended = false ∧ input = l.bytes ∧ l.bytes ≠ [] ∧ lines = []) := by
  cases h with
  | last h hne => exact ⟨h, .inr ⟨rfl, rfl, hne, rfl⟩⟩
  | ended h hrest => exact ⟨h, .inl ⟨rfl, _, rfl, hrest⟩⟩

theorem length_le_of_lines (h : Lines input lines) : lines.length ≤ input.length := by
  induction h with
  | none => exact Nat.le_refl 0
  | last h hne => exact List.length_pos_iff.mpr hne
  | ended h _ ih =>
    rw [List.length_cons, List.length_append, List.length_cons]
    omega

end lines

section channels

variable {c c' : Channel} {arrivals : List Arrival} {closing : Bool} {l : Line} {lines : List Line}

structure Closed (c : Channel) : Prop where
  discarding : c.discarding = false
  failed : c.failed = false
  ended : c.ended = true

def left (c : Channel) : List UInt8 := if c.ready then c.buffer else []

/-- The lines that come next; no others come if the output is closing. -/
inductive Ahead : Channel → List Arrival → Bool → List Line → Prop
  | going {c : Channel} {arrivals : List Arrival} {written begun : List UInt8} {lines : List Line}
      (h : Aligned c) (ho : Ongoing arrivals) (hb : c.buffer ++ carried arrivals = written ++ begun)
      (hl : Lines written lines) (he : ∀ l ∈ lines, l.ended = true) : Ahead c arrivals false lines
  | closing {c : Channel} {parts later : List Arrival} {time : Nat} {lines : List Line}
      (h : Aligned c) (ho : Ongoing parts) (hl : Lines (c.buffer ++ carried parts) lines) :
      Ahead c (parts ++ (time, none) :: later) true lines
  | closed {c : Channel} {arrivals : List Arrival} {lines : List Line} (h : Closed c)
      (hl : Lines (left c) lines) : Ahead c arrivals true lines

theorem Ahead.ongoing (h : Ahead c arrivals false lines) : Ongoing arrivals := by
  cases h with
  | going _ ho => exact ho

theorem closed_receive (h : Aligned c) : Closed (c.receive none) := ⟨h.discarding, h.failed, rfl⟩

theorem attempt_rest (h : Closed c) (hr : c.ready = true) (hnot : (0x0A : UInt8) ∉ c.buffer)
    (hle : c.buffer.length ≤ maxLine) :
    c.attempt = if c.buffer = [] ∨ c.buffer = [0x0D] then some (none, { c with ready := false })
      else some (some (.ofLine c.buffer),
        { c with buffer := [], failed := (Frame.ofLine c.buffer).isFault }) := by
  have hnone := takeLine_unended h.discarding hnot hle
  have hrest : c.takeRest = if c.buffer = [] ∨ c.buffer = [0x0D] then none
      else some (.ofLine c.buffer, { c with buffer := [] }) := by
    rw [Channel.takeRest, discard_of_not_discarding h.discarding]
  have hor : (c.takeLine <|> c.takeRest) = c.takeRest := by
    rw [hnone]
    rfl
  rw [Channel.attempt, h.failed, hr, h.ended, if_neg Bool.false_ne_true, if_pos rfl, if_pos rfl,
    hor, hrest]
  by_cases hb : c.buffer = [] ∨ c.buffer = [0x0D]
  · rw [if_pos hb, if_pos hb]
    rfl
  · rw [if_neg hb, if_neg hb, hr, h.ended]

/-- What is read of a line. A carriage return alone is not read at the end of the output. -/
inductive ReadAs (l : Line) (lines : List Line) : Option Frame → Prop
  | line : ReadAs l lines (some (.ofLine l.bytes))
  | nothing (hb : l.bytes = [0x0D]) (hn : lines = []) : ReadAs l lines none

theorem attempt_closed_line (h : Closed c) (hl : Lines (left c) (l :: lines)) (hf : Legible l) :
    ∃ f c', c.attempt = some (f, c') ∧ Closed c' ∧ Lines (left c') lines ∧ ReadAs l lines f := by
  have hready : c.ready = true := by
    by_contra hnot
    rw [left, if_neg hnot] at hl
    obtain ⟨-, ⟨-, _, hb, -⟩ | ⟨-, hb, hne, -⟩⟩ := lines_cons hl
    · simp at hb
    · exact hne hb.symm
  obtain ⟨hnot, ⟨-, rest, hb, hrest⟩ | ⟨-, hb, hne, rfl⟩⟩ := lines_cons hl
  all_goals rw [left, if_pos hready] at hb
  · refine ⟨_, _, attempt_line h.discarding h.failed hready hb hnot hf.fits,
      ⟨h.discarding, hf.not_fault, h.ended⟩, ?_, .line⟩
    rwa [left, if_pos hready]
  · have hrest := attempt_rest h hready (hb ▸ hnot) (hb ▸ hf.fits)
    rw [hb] at hrest
    by_cases hreturn : l.bytes = [0x0D]
    · rw [if_pos (Or.inr hreturn)] at hrest
      exact ⟨_, _, hrest, ⟨h.discarding, h.failed, h.ended⟩, .none, .nothing hreturn rfl⟩
    · rw [if_neg (not_or.mpr ⟨hne, hreturn⟩)] at hrest
      refine ⟨_, _, hrest, ⟨h.discarding, hf.not_fault, h.ended⟩, ?_, .line⟩
      rw [left, if_pos hready]
      exact .none

theorem attempt_closed_over (h : Closed c) (hl : Lines (left c) []) :
    ∃ c', c.attempt = some (none, c') ∧ Closed c' ∧ Lines (left c') [] := by
  have hnothing := lines_nil hl
  cases hready : c.ready with
  | false =>
    refine ⟨c, ?_, h, hl⟩
    rw [Channel.attempt, h.failed, hready, h.ended]
    rfl
  | true =>
    rw [left, if_pos hready] at hnothing
    have hrest := attempt_rest h hready (by simp [hnothing]) (by simp [hnothing])
    rw [if_pos (Or.inl hnothing)] at hrest
    exact ⟨_, hrest, ⟨h.discarding, h.failed, h.ended⟩, .none⟩

theorem next_end {parts : List Arrival} (later : List Arrival) (stop : Nat) (h : Aligned c)
    (ho : Ongoing parts) (hnot : (0x0A : UInt8) ∉ c.buffer ++ carried parts)
    (hle : (c.buffer ++ carried parts).length ≤ maxLine) (now : Nat) :
    ∃ time c', c.next now (parts ++ (stop, none) :: later) = c'.next time later ∧ Closed c' ∧
      left c' = c.buffer ++ carried parts := by
  obtain ⟨time, c', hnext, halign, hbuffer⟩ :=
    next_unended parts ((stop, none) :: later) now h ho hnot hle
  refine ⟨max time stop, c'.receive none, ?_, closed_receive halign, hbuffer⟩
  rw [hnext, Channel.next, attempt_none halign (hbuffer ▸ hnot) (hbuffer ▸ hle)]

/-- The next line is read, and no more than that. -/
theorem next_ahead (h : Ahead c arrivals closing (l :: lines)) (hf : Legible l) (now : Nat) :
    ∃ time f c' rest, c.next now arrivals = some (time, f, c', rest) ∧
      Ahead c' rest closing lines ∧ ReadAs l lines f := by
  cases h with
  | going h ho hb hl he =>
    obtain ⟨hended, he⟩ := List.forall_mem_cons.mp he
    obtain ⟨hnot, ⟨-, rest, rfl, hrest⟩ | ⟨hno, -⟩⟩ := lines_cons hl
    · rw [List.append_assoc, List.cons_append] at hb
      obtain ⟨time, c', rest, hnext, halign, hgo, hleft⟩ :=
        next_line hnot hf.fits hf.not_fault arrivals [] now h ho hb
      rw [List.append_nil, List.append_nil] at hnext
      exact ⟨time, _, c', rest, hnext, .going halign hgo hleft hrest he, .line⟩
    · cases hended.symm.trans hno
  | @closing parts later stop _ h ho hl =>
    obtain ⟨hnot, ⟨-, rest, hb, hrest⟩ | ⟨-, hb, -, -⟩⟩ := lines_cons hl
    · obtain ⟨time, c', rest, hnext, halign, hgo, hleft⟩ :=
        next_line hnot hf.fits hf.not_fault parts ((stop, none) :: later) now h ho hb
      exact ⟨time, _, c', _, hnext, .closing halign hgo (hleft ▸ hrest), .line⟩
    · obtain ⟨time, c', hnext, hclosed, hleft⟩ :=
        next_end later stop h ho (hb ▸ hnot) (hb ▸ hf.fits) now
      obtain ⟨f, c'', hattempt, hclosed', hlines, hread⟩ :=
        attempt_closed_line hclosed (hleft ▸ hl) hf
      exact ⟨time, f, c'', later, hnext.trans (next_of_attempt hattempt), .closed hclosed' hlines,
        hread⟩
  | closed h hl =>
    obtain ⟨f, c', hattempt, hclosed, hlines, hread⟩ := attempt_closed_line h hl hf
    exact ⟨now, f, c', arrivals, next_of_attempt hattempt, .closed hclosed hlines, hread⟩

theorem next_over (h : Ahead c arrivals true []) (now : Nat) :
    ∃ time c' rest, c.next now arrivals = some (time, none, c', rest) ∧
      Ahead c' rest true [] := by
  cases h with
  | @closing parts later stop _ h ho hl =>
    have hb := lines_nil hl
    obtain ⟨time, c', hnext, hclosed, hleft⟩ :=
      next_end later stop h ho (by simp [hb]) (by simp [hb]) now
    obtain ⟨c'', hattempt, hclosed', hlines⟩ := attempt_closed_over hclosed (hleft ▸ hl)
    exact ⟨time, c'', later, hnext.trans (next_of_attempt hattempt), .closed hclosed' hlines⟩
  | closed h hl =>
    obtain ⟨c', hattempt, hclosed, hlines⟩ := attempt_closed_over h hl
    exact ⟨now, c', arrivals, next_of_attempt hattempt, .closed hclosed hlines⟩

theorem next_suffix {now time : Nat} {f : Option Frame} {rest : List Arrival}
    (h : c.next now arrivals = some (time, f, c', rest)) : rest <:+ arrivals := by
  induction arrivals generalizing c now with
  | nil =>
    rw [Channel.next] at h
    obtain ⟨_, -, heq⟩ := Option.map_eq_some_iff.mp h
    cases heq
    exact List.suffix_refl []
  | cons x arrivals ih =>
    obtain ⟨when, part⟩ := x
    rw [Channel.next] at h
    split at h
    · cases h
      exact List.suffix_refl _
    · exact (ih h).trans (List.suffix_cons _ _)

theorem length_le_of_ahead (h : Ahead c arrivals closing lines) :
    lines.length ≤ c.buffer.length + (carried arrivals).length := by
  cases h with
  | going h ho hb hl he =>
    have hlen := length_le_of_lines hl
    rw [← List.length_append, hb, List.length_append]
    omega
  | closing h ho hl =>
    have hlen := length_le_of_lines hl
    rw [List.length_append] at hlen
    rw [carried, List.flatMap_append, List.length_append]
    rw [carried] at hlen
    omega
  | closed h hl =>
    have hlen := length_le_of_lines hl
    unfold left at hlen
    split at hlen
    · omega
    · rw [List.length_nil] at hlen
      omega

end channels

section processes

variable {c : Child} {closing : Bool} {l : Line} {lines : List Line}

/-- The lines that are still to be read of a process. -/
def Coming (c : Child) (closing : Bool) (lines : List Line) : Prop :=
  Ahead c.channel c.visible closing lines

theorem visible_of_stopped {time : Nat} (h : c.stopped = some time) :
    (∀ x ∈ c.visible, x.1 ≤ time) ∧ ∃ x ∈ c.visible, x.2 = none := by
  have hbefore : ∀ x ∈ c.arrivals.filter (·.1 ≤ time), x.1 ≤ time := fun x hx =>
    of_decide_eq_true (List.mem_filter.mp hx).2
  simp only [Child.visible, h]
  split
  · rename_i hnone
    obtain ⟨x, hx, hend⟩ := List.any_eq_true.mp hnone
    exact ⟨hbefore, x, hx, Option.isNone_iff_eq_none.mp hend⟩
  · refine ⟨fun x hx => ?_, _, List.mem_append_right _ List.mem_cons_self, rfl⟩
    obtain hx | hx := List.mem_append.mp hx
    · exact hbefore x hx
    · rw [List.mem_singleton.mp hx]

theorem visible_of_arrivals {time : Nat} (h : c.stopped = some time)
    (hall : ∀ x ∈ c.arrivals, x.1 ≤ time) (hend : ∃ x ∈ c.arrivals, x.2 = none) :
    c.visible = c.arrivals := by
  have hbefore : c.arrivals.filter (·.1 ≤ time) = c.arrivals :=
    List.filter_eq_self.mpr fun x hx => decide_eq_true (hall x hx)
  obtain ⟨x, hx, hnone⟩ := hend
  have hany : c.arrivals.any (·.2.isNone) = true :=
    List.any_eq_true.mpr ⟨x, hx, Option.isNone_iff_eq_none.mpr hnone⟩
  simp only [Child.visible, h, hbefore, hany, if_true]

theorem coming_of_ahead {channel : Channel} {rest : List Arrival} {more : List Line}
    (h : Coming c closing more) (hrest : rest <:+ c.visible)
    (ha : Ahead channel rest closing lines) :
    Coming { c with channel := channel, arrivals := rest } closing lines := by
  unfold Coming
  cases hs : c.stopped with
  | none => exact ha
  | some time =>
    obtain ⟨hall, x, hx, hend⟩ := visible_of_stopped hs
    cases ha with
    | going => exact absurd hend (Ahead.ongoing h x hx)
    | @closing parts later stop _ halign ho hl =>
      have hstop : (stop, none) ∈ parts ++ (stop, none) :: later :=
        List.mem_append_right _ List.mem_cons_self
      have hvisible := visible_of_arrivals (c := { c with
        stopped := some time, channel := channel, arrivals := parts ++ (stop, none) :: later }) rfl
        (fun x hx => hall x (hrest.mem hx)) ⟨_, hstop, rfl⟩
      rw [hvisible]
      exact .closing halign ho hl
    | closed hclosed hl => exact .closed hclosed hl

theorem next_of_channel {now time : Nat} {f : Option Frame} {channel : Channel}
    {rest : List Arrival} (h : c.channel.next now c.visible = some (time, f, channel, rest)) :
    c.next now = some (time, f, { c with channel := channel, arrivals := rest }) := by
  rw [Child.next, h]
  rfl

theorem next_coming (h : Coming c closing (l :: lines)) (hf : Legible l) (now : Nat) :
    ∃ time f c', c.next now = some (time, f, c') ∧ c'.path = c.path ∧ Coming c' closing lines ∧
      ReadAs l lines f := by
  obtain ⟨time, f, channel, rest, hnext, ha, hread⟩ := next_ahead h hf now
  exact ⟨time, f, _, next_of_channel hnext, rfl, coming_of_ahead h (next_suffix hnext) ha, hread⟩

theorem next_coming_over (h : Coming c true []) (now : Nat) :
    ∃ time c', c.next now = some (time, none, c') ∧ c'.path = c.path ∧ Coming c' true [] := by
  obtain ⟨time, channel, rest, hnext, ha⟩ := next_over h now
  exact ⟨time, _, next_of_channel hnext, rfl, coming_of_ahead h (next_suffix hnext) ha⟩

theorem length_carried_visible (c : Child) :
    (carried c.visible).length ≤ (carried c.arrivals).length := by
  unfold Child.visible
  cases c.stopped with
  | none => exact Nat.le_refl _
  | some time =>
    have hbefore : (carried (c.arrivals.filter (·.1 ≤ time))).length ≤
        (carried c.arrivals).length := (List.filter_sublist.flatMap _).length_le
    simp only
    split
    · exact hbefore
    · rw [carried, List.flatMap_append, List.length_append]
      exact hbefore

theorem lines_lt_frameBound (h : Coming c closing lines) : lines.length < c.frameBound := by
  have hlines := length_le_of_ahead h
  have hvisible := length_carried_visible c
  have hbound := carried_lt_frameBound c
  omega

end processes

end Attestation.Proofs.OutputLines
