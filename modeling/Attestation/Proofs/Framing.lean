import Mathlib.Data.List.TakeWhile
import Attestation.Plugin.Channel
import Attestation.Proofs.LineText

namespace Attestation.Proofs.Framing

open LineText Plugin
open Plugin.Channel (lineEnd?)

theorem lineEnd?_line (i : Nat) (l rest : List UInt8) (hl : (0x0A : UInt8) ∉ l)
    (hi : i + l.length ≤ maxLine) : lineEnd? i (l ++ 0x0A :: rest) = some (i + l.length) := by
  induction l generalizing i with
  | nil => rw [List.nil_append, lineEnd?, if_pos rfl, List.length_nil, Nat.add_zero]
  | cons b l ih =>
    have hb : ¬ b = 0x0A := fun he => hl (he ▸ List.mem_cons_self)
    rw [List.length_cons] at hi ⊢
    have hlast : ¬ i = maxLine := by omega
    have hnext := ih (i + 1) (fun hm => hl (List.mem_cons_of_mem _ hm)) (by omega)
    rw [List.cons_append, lineEnd?, if_neg hb, if_neg hlast, hnext]
    congr 1
    omega

theorem lineEnd?_eq_some {i n : Nat} {bytes : List UInt8} (h : lineEnd? i bytes = some n)
    (hi : i ≤ maxLine) :
    ∃ l rest, bytes = l ++ 0x0A :: rest ∧ (0x0A : UInt8) ∉ l ∧ n = i + l.length ∧
      n ≤ maxLine := by
  induction bytes generalizing i with
  | nil => cases h
  | cons b bytes ih =>
    rw [lineEnd?] at h
    split at h
    · rename_i hb
      cases h
      exact ⟨[], bytes, by rw [hb, List.nil_append], List.not_mem_nil, rfl, hi⟩
    · rename_i hb
      split at h
      · cases h
      · rename_i hlast
        obtain ⟨l, rest, rfl, hl, rfl, hn⟩ := ih h (by omega)
        refine ⟨b :: l, rest, rfl, ?_, ?_, hn⟩
        · intro hm
          obtain he | hm := List.mem_cons.mp hm
          · exact hb he.symm
          · exact hl hm
        · rw [List.length_cons]
          omega

theorem lineEnd?_eq_none {i : Nat} {l rest : List UInt8} (h : lineEnd? i (l ++ 0x0A :: rest) = none)
    (hl : (0x0A : UInt8) ∉ l) : maxLine < i + l.length := by
  apply Nat.lt_of_not_le
  intro hle
  rw [lineEnd?_line i l rest hl hle] at h
  cases h

theorem append_line_cases {buffer more l rest : List UInt8} (hl : (0x0A : UInt8) ∉ l)
    (h : buffer ++ more = l ++ 0x0A :: rest) :
    (∃ left, buffer = l ++ 0x0A :: left ∧ left ++ more = rest) ∨
      (0x0A : UInt8) ∉ buffer ∧ buffer.length ≤ l.length ∧
        ∃ tail, l = buffer ++ tail ∧ more = tail ++ 0x0A :: rest := by
  obtain ⟨tail, hlt, hmore⟩ | ⟨left, hb, hrest⟩ := List.append_eq_append_iff.mp h
  · refine Or.inr ⟨?_, ?_, tail, hlt, hmore⟩
    · intro hm
      exact hl (hlt ▸ List.mem_append_left _ hm)
    · rw [hlt, List.length_append]
      omega
  · cases left with
    | nil =>
      rw [List.append_nil] at hb
      rw [List.nil_append] at hrest
      subst hb
      exact Or.inr ⟨hl, Nat.le_refl _, [], (List.append_nil _).symm, hrest.symm⟩
    | cons b left =>
      obtain ⟨rfl, hleft⟩ := List.cons.inj hrest
      exact Or.inl ⟨left, hb, hleft.symm⟩

/-- What a channel holds and what is under way to it are these lines, behind the rest of a line
that is set aside. -/
def Holds (c : Channel) (more : List UInt8) (lines : List (List UInt8)) : Prop :=
  if c.discarding then
    ∃ tail, (0x0A : UInt8) ∉ tail ∧ c.buffer ++ more = tail ++ 0x0A :: joined lines
  else c.buffer ++ more = joined lines

variable {c c' : Channel} {more : List UInt8} {lines : List (List UInt8)}

theorem holds_congr (h : Holds c more lines) (hb : c'.buffer = c.buffer)
    (hd : c'.discarding = c.discarding) : Holds c' more lines := by
  unfold Holds at h ⊢
  rwa [hb, hd]

theorem holds_receive {part : List UInt8} (h : Holds c (part ++ more) lines) :
    Holds (c.receive (some part)) more lines := by
  unfold Holds at h ⊢
  simp only [Channel.receive, List.append_assoc]
  exact h

theorem holds_write {bytes : List (List UInt8)} (h : Holds c more lines) :
    Holds c (more ++ joined bytes) (lines ++ bytes) := by
  unfold Holds at h ⊢
  split
  · rename_i hd
    rw [if_pos hd] at h
    obtain ⟨tail, ht, h⟩ := h
    refine ⟨tail, ht, ?_⟩
    rw [← List.append_assoc, h, joined_append, List.append_assoc, List.cons_append]
  · rename_i hd
    rw [if_neg hd] at h
    rw [← List.append_assoc, h, joined_append]

theorem discard_of_not_discarding (h : c.discarding = false) : c.discard = c := by
  rw [Channel.discard, h]
  rfl

theorem holds_discard (h : Holds c more lines) :
    Holds c.discard more lines ∧ (c.discard.discarding = true → c.discard.buffer = []) := by
  cases hd : c.discarding with
  | false =>
    rw [discard_of_not_discarding hd]
    exact ⟨h, fun ht => absurd (hd ▸ ht) nofun⟩
  | true =>
    rw [Holds, if_pos hd] at h
    obtain ⟨tail, ht, h⟩ := h
    have hkeep : ∀ b ∈ tail, decide (b ≠ 0x0A) = true := by
      intro b hb
      exact decide_eq_true fun he => ht (he ▸ hb)
    rw [Channel.discard, if_pos hd]
    obtain ⟨left, hbuffer, hleft⟩ | ⟨hnot, _, rest, rfl, hmore⟩ := append_line_cases ht h
    · have hdrop : c.buffer.dropWhile (· ≠ 0x0A) = 0x0A :: left := by
        rw [hbuffer, List.dropWhile_append_of_pos hkeep]
        exact List.dropWhile_cons_of_neg (by decide)
      rw [hdrop]
      exact ⟨hleft, nofun⟩
    · have hdrop : c.buffer.dropWhile (· ≠ 0x0A) = [] :=
        List.dropWhile_eq_nil_iff.mpr fun b hb => decide_eq_true fun he => hnot (he ▸ hb)
      rw [hdrop]
      refine ⟨?_, fun _ => rfl⟩
      rw [Holds, if_pos hd]
      exact ⟨rest, fun hm => ht (List.mem_append_right _ hm), hmore⟩

def Whole (lines : List (List UInt8)) : Prop := ∀ l ∈ lines, (0x0A : UInt8) ∉ l

theorem whole_cons {l : List UInt8} :
    Whole (l :: lines) ↔ (0x0A : UInt8) ∉ l ∧ Whole lines := List.forall_mem_cons

/-- What is taken in the place of a line. -/
inductive Cut (l : List UInt8) : Frame → Prop
  | line (h : l.length ≤ maxLine) : Cut l (.ofLine l)
  | tooLong (h : maxLine < l.length) : Cut l .tooLong

theorem takeLine_of_end {n : Nat} (h : lineEnd? 0 c.discard.buffer = some n) :
    c.takeLine = some (.ofLine (c.discard.buffer.take n),
      { c.discard with buffer := c.discard.buffer.drop (n + 1) }) := by
  simp only [Channel.takeLine, h]

theorem takeLine_of_none (h : lineEnd? 0 c.discard.buffer = none) :
    c.takeLine = if maxLine < c.discard.buffer.length then
      some (.tooLong, { c.discard with discarding := true }) else none := by
  simp only [Channel.takeLine, h]

theorem cut_line (l left : List UInt8) :
    (l ++ 0x0A :: left).take l.length = l ∧ (l ++ 0x0A :: left).drop (l.length + 1) = left := by
  constructor
  · exact List.take_left
  · rw [List.drop_append]
    simp

theorem takeLine_holds {f : Frame} (hw : Whole lines) (h : Holds c more lines)
    (ht : c.takeLine = some (f, c')) :
    ∃ l rest, lines = l :: rest ∧ Holds c' more rest ∧ Cut l f := by
  obtain ⟨hdiscard, hempty⟩ := holds_discard h
  cases hd : c.discard.discarding with
  | true =>
    have hnone : lineEnd? 0 c.discard.buffer = none := by rw [hempty hd]; rfl
    rw [takeLine_of_none hnone, hempty hd, if_neg (by simp)] at ht
    cases ht
  | false =>
    rw [Holds, hd, if_neg Bool.false_ne_true] at hdiscard
    cases hn : lineEnd? 0 c.discard.buffer with
    | some n =>
      rw [takeLine_of_end hn] at ht
      obtain ⟨l, left, hb, hl, rfl, hle⟩ := lineEnd?_eq_some hn (Nat.zero_le _)
      cases lines with
      | nil => rw [hb] at hdiscard; simp at hdiscard
      | cons m rest =>
        rw [hb, List.append_assoc, List.cons_append, joined_cons] at hdiscard
        obtain ⟨rfl, hrest⟩ := line_unique hl (whole_cons.mp hw).1 hdiscard
        rw [Nat.zero_add] at ht hle
        obtain ⟨htake, hdrop⟩ := cut_line l left
        rw [← hb] at htake hdrop
        rw [htake, hdrop] at ht
        cases ht
        refine ⟨l, rest, rfl, ?_, Cut.line hle⟩
        rw [Holds, hd, if_neg Bool.false_ne_true]
        exact hrest
    | none =>
      rw [takeLine_of_none hn] at ht
      split at ht
      · rename_i hlong
        cases ht
        cases lines with
        | nil =>
          rw [joined_nil, List.append_eq_nil_iff] at hdiscard
          rw [hdiscard.1] at hlong
          cases hlong
        | cons l rest =>
          rw [joined_cons] at hdiscard
          have hl := (whole_cons.mp hw).1
          refine ⟨l, rest, rfl, ?_, Cut.tooLong ?_⟩
          · rw [Holds, if_pos rfl]
            exact ⟨l, hl, hdiscard⟩
          · obtain ⟨left, hb, _⟩ | ⟨_, hle, _⟩ := append_line_cases hl hdiscard
            · rw [hb] at hn
              have hfar := lineEnd?_eq_none hn hl
              omega
            · omega
      · cases ht

theorem discard_ended (c : Channel) : c.discard.ended = c.ended := by
  unfold Channel.discard
  split
  · split <;> rfl
  · rfl

theorem takeLine_ended {f : Frame} (h : c.takeLine = some (f, c')) : c'.ended = c.ended := by
  unfold Channel.takeLine at h
  simp only at h
  split at h
  · cases h
    exact discard_ended c
  · split at h
    · cases h
      exact discard_ended c
    · cases h

/-- While the output goes on, a frame stands for the first line, but for the end that seems to
follow a fault. -/
theorem attempt_holds {f : Option Frame} (hw : Whole lines) (h : Holds c more lines)
    (he : c.ended = false) (ha : c.attempt = some (f, c')) :
    c'.ended = false ∧
      ((f = none ∧ c.failed = true ∧ c'.failed = false ∧ Holds c' more lines) ∨
        ∃ l rest frame, lines = l :: rest ∧ f = some frame ∧ Cut l frame ∧
          c'.failed = frame.isFault ∧ Holds c' more rest) := by
  rw [Channel.attempt] at ha
  split at ha
  · rename_i hf
    cases ha
    exact ⟨he, Or.inl ⟨rfl, hf, rfl, holds_congr h rfl rfl⟩⟩
  · simp only [he, Bool.false_eq_true, if_false] at ha
    split at ha
    · cases ht : c.takeLine with
      | none =>
        rw [ht] at ha
        cases ha
      | some x =>
        obtain ⟨frame, after⟩ := x
        rw [ht] at ha
        cases ha
        obtain ⟨l, rest, hlines, hafter, hcut⟩ := takeLine_holds hw h ht
        have hend : after.ended = false := (takeLine_ended ht).trans he
        exact ⟨hend, Or.inr ⟨l, rest, frame, hlines, rfl, hcut, rfl,
          holds_congr hafter rfl rfl⟩⟩
    · cases ha

/-- A channel at the beginning of a line, with no fault behind it, whose output goes on. -/
structure Aligned (c : Channel) : Prop where
  discarding : c.discarding = false
  failed : c.failed = false
  ended : c.ended = false
  ready : c.ready = true ∨ c.buffer = []

theorem aligned_start : Aligned .start := ⟨rfl, rfl, rfl, Or.inr rfl⟩

theorem aligned_receive (h : Aligned c) (part : List UInt8) : Aligned (c.receive (some part)) :=
  ⟨h.discarding, h.failed, h.ended, Or.inl rfl⟩

theorem attempt_line {l left : List UInt8} (hd : c.discarding = false) (hf : c.failed = false)
    (hr : c.ready = true) (hb : c.buffer = l ++ 0x0A :: left) (hl : (0x0A : UInt8) ∉ l)
    (hle : l.length ≤ maxLine) :
    c.attempt = some (some (.ofLine l),
      { c with buffer := left, failed := (Frame.ofLine l).isFault }) := by
  have hend : lineEnd? 0 c.discard.buffer = some l.length := by
    rw [discard_of_not_discarding hd, hb, lineEnd?_line 0 l left hl (by omega), Nat.zero_add]
  obtain ⟨htake, hdrop⟩ := cut_line l left
  rw [← hb] at htake hdrop
  rw [Channel.attempt, hf, hr, takeLine_of_end hend, discard_of_not_discarding hd, htake, hdrop]
  cases he : c.ended <;> simp [he, hr]

theorem Aligned.attempt_line {l left : List UInt8} (h : Aligned c)
    (hb : c.buffer = l ++ 0x0A :: left) (hl : (0x0A : UInt8) ∉ l) (hle : l.length ≤ maxLine)
    (hf : (Frame.ofLine l).isFault = false) :
    ∃ c', c.attempt = some (some (.ofLine l), c') ∧ Aligned c' ∧ c'.buffer = left := by
  have hready : c.ready = true := h.ready.resolve_right (by simp [hb])
  exact ⟨_, Framing.attempt_line h.discarding h.failed hready hb hl hle,
    ⟨h.discarding, hf, h.ended, Or.inl hready⟩, rfl⟩

theorem takeLine_unended (hd : c.discarding = false) (hb : (0x0A : UInt8) ∉ c.buffer)
    (hle : c.buffer.length ≤ maxLine) : c.takeLine = none := by
  have hend : lineEnd? 0 c.discard.buffer = none := by
    rw [discard_of_not_discarding hd]
    cases hn : lineEnd? 0 c.buffer with
    | none => rfl
    | some n =>
      obtain ⟨l, rest, hsplit, _⟩ := lineEnd?_eq_some hn (Nat.zero_le _)
      exact absurd (hsplit ▸ List.mem_append_right l List.mem_cons_self) hb
  rw [takeLine_of_none hend, discard_of_not_discarding hd, if_neg (by omega)]

theorem attempt_none (h : Aligned c) (hb : (0x0A : UInt8) ∉ c.buffer)
    (hle : c.buffer.length ≤ maxLine) : c.attempt = none := by
  simp [Channel.attempt, h.failed, h.ended, takeLine_unended h.discarding hb hle]

def carried (arrivals : List Arrival) : List UInt8 := arrivals.flatMap fun x => x.2.getD []

def Ongoing (arrivals : List Arrival) : Prop := ∀ x ∈ arrivals, x.2 ≠ none

theorem next_of_attempt {now : Nat} {arrivals : List Arrival} {f : Option Frame}
    (h : c.attempt = some (f, c')) : c.next now arrivals = some (now, f, c', arrivals) := by
  cases arrivals with
  | nil => rw [Channel.next, h]; rfl
  | cons x arrivals => rw [Channel.next, h]

/-- A line that fits is read when its end has arrived, whatever arrives later. -/
theorem next_line {l rest : List UInt8} (hl : (0x0A : UInt8) ∉ l) (hle : l.length ≤ maxLine)
    (hf : (Frame.ofLine l).isFault = false) (arrivals later : List Arrival) (now : Nat)
    (h : Aligned c) (hgo : Ongoing arrivals)
    (hb : c.buffer ++ carried arrivals = l ++ 0x0A :: rest) :
    ∃ time c' left,
      c.next now (arrivals ++ later) = some (time, some (.ofLine l), c', left ++ later) ∧
      Aligned c' ∧ Ongoing left ∧ c'.buffer ++ carried left = rest := by
  induction arrivals generalizing c now with
  | nil =>
    have hbuffer : c.buffer = l ++ 0x0A :: rest := by
      rw [← hb, carried, List.flatMap_nil, List.append_nil]
    obtain ⟨c', ha, halign, hleft⟩ := h.attempt_line hbuffer hl hle hf
    exact ⟨now, c', [], next_of_attempt ha, halign, hgo, by rw [hleft]; exact List.append_nil _⟩
  | cons x arrivals ih =>
    obtain ⟨left, hbuffer, hleft⟩ | ⟨hnot, hshort, _⟩ := append_line_cases hl hb
    · obtain ⟨c', ha, halign, hrest⟩ := h.attempt_line hbuffer hl hle hf
      exact ⟨now, c', x :: arrivals, next_of_attempt ha, halign, hgo, hrest ▸ hleft⟩
    · obtain ⟨time, part⟩ := x
      obtain ⟨hpart, hparts⟩ := List.forall_mem_cons.mp hgo
      cases part with
      | none => exact absurd rfl hpart
      | some bytes =>
        rw [List.cons_append, Channel.next, attempt_none h hnot (by omega)]
        refine ih (max now time) (aligned_receive h bytes) hparts ?_
        rw [← hb]
        exact List.append_assoc _ _ _

theorem next_unended (arrivals later : List Arrival) (now : Nat) (h : Aligned c)
    (hgo : Ongoing arrivals) (hnot : (0x0A : UInt8) ∉ c.buffer ++ carried arrivals)
    (hle : (c.buffer ++ carried arrivals).length ≤ maxLine) :
    ∃ time c', c.next now (arrivals ++ later) = c'.next time later ∧ Aligned c' ∧
      c'.buffer = c.buffer ++ carried arrivals := by
  induction arrivals generalizing c now with
  | nil => exact ⟨now, c, rfl, h, (List.append_nil _).symm⟩
  | cons x arrivals ih =>
    obtain ⟨time, part⟩ := x
    obtain ⟨hpart, hrest⟩ := List.forall_mem_cons.mp hgo
    cases part with
    | none => exact absurd rfl hpart
    | some bytes =>
      have hbuffer : (0x0A : UInt8) ∉ c.buffer := fun hm => hnot (List.mem_append_left _ hm)
      have hbytes : c.buffer ++ carried ((time, some bytes) :: arrivals) =
          (c.receive (some bytes)).buffer ++ carried arrivals := (List.append_assoc _ _ _).symm
      rw [hbytes] at hnot hle ⊢
      rw [List.cons_append, Channel.next, attempt_none h hbuffer]
      · exact ih (max now time) (aligned_receive h bytes) hrest hnot hle
      · simp only [Channel.receive, List.length_append] at hle
        omega

theorem next_nothing (arrivals : List Arrival) (now : Nat) (h : Aligned c)
    (hgo : Ongoing arrivals) (hb : c.buffer ++ carried arrivals = []) :
    c.next now arrivals = none := by
  obtain ⟨time, c', hnext, halign, hbuffer⟩ :=
    next_unended arrivals [] now h hgo (by simp [hb]) (by simp [hb])
  rw [List.append_nil] at hnext
  rw [hnext, Channel.next, attempt_none halign (by simp [hbuffer, hb]) (by simp [hbuffer, hb])]
  rfl

end Attestation.Proofs.Framing
