import Attestation.Proofs.OutputLines
import Attestation.Proofs.ResponseLines

namespace Attestation.Proofs.CallOutcomes

open Framing InputLines Json JsonDocuments JsonReading LineText Messages OutputLines Plugin
  ResponseLines Rpc Text Utf8Encoding
open Text.Utf8 (encode)

section verdicts

/-- A line that settles nothing for the call with the number. -/
inductive Passes (id : UInt64) (l : Line) : Prop
  | blank {s : String} (h : encode s = l.bytes) (ht : trim s = "")
  | stale {s : String} {r : Response} {other : UInt64} (h : encode s = l.bytes)
      (hr : ResponseText (encode (trim s)) r) (ho : r.id = some other) (hne : other ≠ id)

/-- A line that settles the call with the number. An error counts, even beside a result. -/
inductive Settles (id : UInt64) (l : Line) : Except Plugin.Error Value → Prop
  | invalid {s : String} {e : Fault} (h : encode s = l.bytes) (ht : trim s ≠ "")
      (hr : ∀ r, ¬ ResponseText (encode (trim s)) r)
      (he : Decoder.run Response.record.decode (encode (trim s)) = .error e) :
      Settles id l (.error (.rpc s!"invalid response from plugin: {e.message}"))
  | failed {s : String} {r : Response} {e : Rpc.Error} (h : encode s = l.bytes)
      (hr : ResponseText (encode (trim s)) r) (hi : ∀ other, r.id = some other → other = id)
      (he : r.error = some e) : Settles id l (.error (.rpc e.text))
  | answered {s : String} {r : Response} (h : encode s = l.bytes)
      (hr : ResponseText (encode (trim s)) r) (hi : ∀ other, r.id = some other → other = id)
      (he : r.error = none) : Settles id l (.ok (r.result.getD .null))

/-- The outcome of a call over lines, and the lines left over. -/
inductive Decides (path : String) (id : UInt64) (closing : Bool) :
    List Line → Except Plugin.Error Value → List Line → Prop
  | finished (h : closing = true) : Decides path id closing [] (.error (closedOutput path)) []
  | passed {l : Line} {lines rest : List Line} {outcome : Except Plugin.Error Value}
      (hl : Passes id l) (h : Decides path id closing lines outcome rest) :
      Decides path id closing (l :: lines) outcome rest
  | settled {l : Line} {lines : List Line} {outcome : Except Plugin.Error Value}
      (hl : Settles id l outcome) : Decides path id closing (l :: lines) outcome lines

variable {id : UInt64} {l : Line} {s : String} {path : String} {outcome : Except Plugin.Error Value}
  {closing : Bool} {lines rest : List Line}

theorem ne_empty_of_response {r : Response} (h : ResponseText (encode s) r) : s ≠ "" := by
  rintro rfl
  obtain ⟨d, hd, -⟩ := h
  exact absurd (length_spells hd) (Nat.lt_irrefl 0)

theorem passes_or_settles (id : UInt64) (h : Legible l) :
    Passes id l ∨ ∃ outcome, Settles id l outcome := by
  obtain ⟨s, hs⟩ := h.text
  by_cases ht : trim s = ""
  · exact .inl (.blank hs ht)
  cases hread : Decoder.run Response.record.decode (encode (trim s)) with
  | error e =>
    refine .inr ⟨_, .invalid hs ht (fun r hr => ?_) hread⟩
    cases hread.symm.trans (run_response_iff.mpr hr)
  | ok r =>
    have hr := run_response_iff.mp hread
    by_cases hi : ∀ other, r.id = some other → other = id
    · cases he : r.error with
      | some e => exact .inr ⟨_, .failed hs hr hi he⟩
      | none => exact .inr ⟨_, .answered hs hr hi he⟩
    · obtain ⟨other, hother⟩ := not_forall.mp hi
      obtain ⟨ho, hne⟩ := Classical.not_imp.mp hother
      exact .inl (.stale hs hr ho hne)

theorem exists_decides (hl : ∀ l ∈ lines, Legible l) :
    ∃ outcome rest, Decides path id true lines outcome rest := by
  induction lines with
  | nil => exact ⟨_, _, .finished rfl⟩
  | cons l lines ih =>
    obtain ⟨hl, hlines⟩ := List.forall_mem_cons.mp hl
    obtain hpasses | ⟨outcome, hsettles⟩ := passes_or_settles id hl
    · obtain ⟨outcome, rest, h⟩ := ih hlines
      exact ⟨outcome, rest, .passed hpasses h⟩
    · exact ⟨outcome, lines, .settled hsettles⟩

end verdicts

section judging

variable {id : UInt64} {l : Line} {s t : String} {path : String}
  {outcome : Except Plugin.Error Value} {closing : Bool} {lines rest : List Line} {f : Option Frame}

theorem judgeLine_blank (h : trim t = "") : judgeLine id t = .skip := by
  simp only [judgeLine, h, if_true]

theorem judgeLine_invalid {e : Fault} (ht : trim t ≠ "")
    (h : Decoder.run Response.record.decode (encode (trim t)) = .error e) :
    judgeLine id t =
      .settled (.error (.rpc s!"invalid response from plugin: {e.message}")) := by
  simp only [judgeLine, if_neg ht, h]

theorem judgeLine_response {r : Response} (h : ResponseText (encode (trim t)) r) :
    judgeLine id t = if r.id.any (· ≠ id) then .skip else .settled (outcomeOf r) := by
  simp only [judgeLine, if_neg (ne_empty_of_response h), run_response_iff.mpr h]

theorem any_ne_iff {o : Option UInt64} :
    o.any (· ≠ id) = true ↔ ∃ other, o = some other ∧ other ≠ id := by
  cases o <;> simp

theorem judgeLine_passes (h : Passes id l) (hs : encode s = l.bytes) (ht : trim t = trim s) :
    judgeLine id t = .skip := by
  cases h with
  | blank h hb =>
    rw [encode_injective (h.trans hs.symm)] at hb
    exact judgeLine_blank (ht.trans hb)
  | stale h hr ho hne =>
    rw [encode_injective (h.trans hs.symm), ← ht] at hr
    rw [judgeLine_response hr, if_pos (any_ne_iff.mpr ⟨_, ho, hne⟩)]

theorem judgeLine_settles (h : Settles id l outcome) (hs : encode s = l.bytes)
    (ht : trim t = trim s) : judgeLine id t = .settled outcome := by
  have hsettled : ∀ {r : Response}, ResponseText (encode (trim t)) r →
      (∀ other, r.id = some other → other = id) → judgeLine id t = .settled (outcomeOf r) := by
    intro r hr hi
    rw [judgeLine_response hr, if_neg fun hany => ?_]
    obtain ⟨other, ho, hne⟩ := any_ne_iff.mp hany
    exact hne (hi other ho)
  cases h with
  | invalid h hb hr he =>
    rw [encode_injective (h.trans hs.symm), ← ht] at hb he
    exact judgeLine_invalid hb he
  | failed h hr hi he =>
    rw [encode_injective (h.trans hs.symm), ← ht] at hr
    rw [hsettled hr hi, outcomeOf, he]
  | answered h hr hi he =>
    rw [encode_injective (h.trans hs.symm), ← ht] at hr
    rw [hsettled hr hi, outcomeOf, he]

theorem judge_passes (h : Passes id l) (hl : Legible l) :
    judge path id (some (.ofLine l.bytes)) = .skip := by
  obtain ⟨s, hs⟩ := hl.text
  obtain ⟨t, hframe, ht⟩ := ofLine_text hs
  rw [hframe, judge]
  exact judgeLine_passes h hs ht

theorem judge_settles (h : Settles id l outcome) (hl : Legible l) :
    judge path id (some (.ofLine l.bytes)) = .settled outcome := by
  obtain ⟨s, hs⟩ := hl.text
  obtain ⟨t, hframe, ht⟩ := ofLine_text hs
  rw [hframe, judge]
  exact judgeLine_settles h hs ht

theorem not_settles_return (hb : l.bytes = [0x0D]) : ¬ Settles id l outcome := by
  intro h
  have hreturn : encode "\r" = l.bytes := by
    rw [hb]
    decide
  have hblank : trim "\r" = "" := by decide
  cases h with
  | invalid h ht => exact ht ((encode_injective (h.trans hreturn.symm)) ▸ hblank)
  | failed h hr | answered h hr =>
    exact ne_empty_of_response hr ((encode_injective (h.trans hreturn.symm)) ▸ hblank)

/-- A call reads past the lines that settle nothing, up to the first one that does. -/
theorem settle_decides {c : Child} (ha : Coming c closing lines) (hl : ∀ l ∈ lines, Legible l)
    (h : Decides c.path id closing lines outcome rest) {fuel : Nat} (hfuel : lines.length < fuel)
    (now : Nat) :
    ∃ time after, c.settle id fuel now = some (time, outcome, after) ∧
      Coming after closing rest := by
  generalize hp : c.path = path at h
  induction h generalizing c fuel now with
  | finished hclosing =>
    subst hp hclosing
    obtain ⟨fuel, rfl⟩ : ∃ k, fuel = k + 1 := ⟨fuel - 1, by omega⟩
    obtain ⟨time, after, hnext, hpath, hafter⟩ := next_coming_over ha now
    refine ⟨time, after, ?_, hafter⟩
    rw [Child.settle, hnext]
    simp only [judge, hpath]
  | @passed l lines rest outcome hpasses h ih =>
    obtain ⟨fuel, rfl⟩ : ∃ k, fuel = k + 1 := ⟨fuel - 1, by omega⟩
    obtain ⟨hl, hlines⟩ := List.forall_mem_cons.mp hl
    obtain ⟨time, f, c', hnext, hpath, hcoming, hread⟩ := next_coming ha hl now
    cases hread with
    | line =>
      have hless : lines.length < fuel := Nat.lt_of_succ_lt_succ hfuel
      obtain ⟨last, after, hsettle, hafter⟩ := ih hcoming hlines hless time (hpath.trans hp)
      refine ⟨last, after, ?_, hafter⟩
      rw [Child.settle, hnext]
      simp only [judge_passes hpasses hl, hsettle]
    | nothing _ hnone =>
      -- The end of the output is read in the place of this line.
      subst hnone hp
      cases h with
      | finished hclosing =>
        refine ⟨time, c', ?_, hclosing ▸ hcoming⟩
        rw [Child.settle, hnext]
        simp only [judge, hpath]
  | @settled l lines outcome hsettles =>
    obtain ⟨fuel, rfl⟩ : ∃ k, fuel = k + 1 := ⟨fuel - 1, by omega⟩
    obtain ⟨hl, -⟩ := List.forall_mem_cons.mp hl
    obtain ⟨time, f, c', hnext, -, hcoming, hread⟩ := next_coming ha hl now
    cases hread with
    | line =>
      refine ⟨time, c', ?_, hcoming⟩
      rw [Child.settle, hnext]
      simp only [judge_settles hsettles hl]
    | nothing hb => exact absurd hsettles (not_settles_return hb)

end judging

section answers

variable {q : Query}

def Failed (message : String) : (q : Query) → q.Answer → Prop
  | .identity, a => a.status.result = false ∧ a.status.error = message ∧ a.identity = none
  | .formats, a => a.status.result = false ∧ a.status.error = message ∧ a.formats = []
  | .options, a => a.status.result = false ∧ a.status.error = message ∧ a.options = []
  | .evidence _, a => a.status.result = false ∧ a.status.error = message ∧ a.evidence = []

/-- The answer to a question, from the outcome of its call: what the result is read as, and a
failure otherwise. -/
inductive Answers (q : Query) : Except Plugin.Error Value → q.Answer → Prop
  | result {v : Value} {answer : q.Answer} (h : Decoder.ofValue q.decodeAnswer v = .ok answer) :
      Answers q (.ok v) answer
  | unreadable {v : Value} {answer : q.Answer} {message : String}
      (h : ∀ a, Decoder.ofValue q.decodeAnswer v ≠ .ok a) (hm : message ≠ "")
      (hf : Failed message q answer) : Answers q (.ok v) answer
  | failure {e : Plugin.Error} {answer : q.Answer} (hm : e.message ≠ "")
      (hf : Failed e.message q answer) : Answers q (.error e) answer

theorem failed_failure (message : String) (q : Query) : Failed message q (q.failure message) := by
  cases q <;> exact ⟨rfl, rfl, rfl⟩

theorem append_ne_empty {s t : String} (h : s ≠ "") : s ++ t ≠ "" :=
  fun he => h (String.append_eq_empty_iff.mp he).1

theorem message_ne_empty (e : Plugin.Error) : e.message ≠ "" := by
  cases e <;> unfold Plugin.Error.message
  case notLaunchedByHost | notInitialized => decide
  all_goals
    repeat refine append_ne_empty ?_
    decide

theorem answers_answerOf (q : Query) (outcome : Except Plugin.Error Value) :
    Answers q outcome (answerOf q outcome) := by
  cases outcome with
  | error e => exact .failure (message_ne_empty e) (failed_failure e.message q)
  | ok v =>
    cases h : Decoder.ofValue q.decodeAnswer v with
    | ok answer =>
      have hanswer : answerOf q (.ok v) = answer := by rw [answerOf, h]
      rw [hanswer]
      exact .result h
    | error e =>
      have hanswer : answerOf q (.ok v) = q.failure (Plugin.Error.rpc e.message).message := by
        rw [answerOf, h]
      rw [hanswer]
      refine .unreadable (fun a ha => ?_) (message_ne_empty _) (failed_failure _ q)
      cases h.symm.trans ha

end answers

section responses

variable (a : SubAttester) (x : Question)

theorem responseText_line : ∃ s, encode s = responseLine a x ∧
    ResponseText (encode (trim s)) (.ofResult x.id (resultOf a x.query)) := by
  have htext : encode (Response.ofResult x.id (resultOf a x.query)).toValue.text =
      bytesOf (Response.ofResult x.id (resultOf a x.query)).toValue.render := encode_ofList _
  have hrun := run_text (reads_response a x) (by decide) (shallow_response a x).exact
  rw [← htext] at hrun
  refine ⟨_, htext.trans (responseLine_eq a x).symm, ?_⟩
  rw [Response.toValue, trim_object]
  exact run_response_iff.mp hrun

theorem passes_responseLine {id : UInt64} (h : x.id ≠ id) (ended : Bool) :
    Passes id ⟨responseLine a x, ended⟩ := by
  obtain ⟨s, hs, hr⟩ := responseText_line a x
  exact .stale hs hr rfl h

theorem settles_responseLine (ended : Bool) :
    Settles x.id ⟨responseLine a x, ended⟩ (.ok (resultOf a x.query)) := by
  obtain ⟨s, hs, hr⟩ := responseText_line a x
  exact .answered hs hr (fun _ ho => (Option.some.inj ho).symm) rfl

theorem legible_responseLine (h : (responseLine a x).length ≤ maxLine) (ended : Bool) :
    Legible ⟨responseLine a x, ended⟩ := by
  obtain ⟨s, hs, -⟩ := responseText_line a x
  exact ⟨h, s, hs⟩

end responses

/-- A call over lines of text ends when the output does, if not before. Its outcome is that of the
first line that settles it, no later line is read, and the answer is what the result is read as or
a failure. -/
theorem call_outcome {h : Host} {path : String} {c : Child} {closing : Bool} {lines : List Line}
    (hc : h.child? path = some c) (ha : Coming c closing lines) (hl : ∀ l ∈ lines, Legible l)
    (id : UInt64) (q : Query) (now : Nat) :
    (closing = true → ∃ outcome rest, Decides c.path id closing lines outcome rest) ∧
      (∀ outcome rest, Decides c.path id closing lines outcome rest →
        ∃ time answer after, c.settle id c.frameBound now = some (time, outcome, after) ∧
          Coming after closing rest ∧ Answers q outcome answer ∧
          Host.receive path q ⟨id, now, none⟩ h = some (time, answer, h.setChild path after)) ∧
      ∀ e, ∃ answer, Answers q (.error e) answer ∧
        Host.receive path q ⟨id, now, some e⟩ h = some (now, answer, h) := by
  refine ⟨?_, fun outcome rest hd => ?_, fun e => ⟨_, answers_answerOf q (.error e), rfl⟩⟩
  · rintro rfl
    exact exists_decides hl
  · obtain ⟨time, after, hsettle, hafter⟩ :=
      settle_decides ha hl hd (lines_lt_frameBound ha) now
    refine ⟨time, _, after, hsettle, hafter, answers_answerOf q outcome, ?_⟩
    rw [Host.receive]
    simp only [hc, hsettle, Option.map_some]

/-- Behind a blank line and the answer to a call that was given up stands the one to this call. -/
theorem call_outcome_stale :
    let a := Mock.subAttester "a" ⟨"x", [1, 2]⟩
    let stale : Question := ⟨1, .identity⟩
    let x : Question := ⟨2, .formats⟩
    let output := 0x20 :: 0x0A :: joined [responseLine a stale, responseLine a x]
    let c : Child := ⟨"p", .script (.start "p" [] [] 0), [(1, some output), (2, none)], [], false,
      none, none, 3, .start⟩
    let h : Host := ⟨[], [("p", c)]⟩
    ∃ lines, h.child? "p" = some c ∧ Coming c true lines ∧ (∀ l ∈ lines, Legible l) ∧
      Decides c.path x.id true lines (.ok (resultOf a x.query)) [] ∧
      ∃ time answer after, Coming after true [] ∧
        Answers x.query (.ok (resultOf a x.query)) answer ∧
        Host.receive "p" x.query ⟨x.id, 0, none⟩ h = some (time, answer, h.setChild "p" after) := by
  intro a stale x output c h
  have hblank : encode " " = [0x20] ∧ trim " " = "" := by decide
  have hstale : (responseLine a stale).length ≤ maxLine := by
    rw [responseLine_eq]
    decide +kernel
  have hx : (responseLine a x).length ≤ maxLine := by
    rw [responseLine_eq]
    decide +kernel
  let lines : List Line :=
    [⟨[0x20], true⟩, ⟨responseLine a stale, true⟩, ⟨responseLine a x, true⟩]
  have hlines : Lines output lines := by
    have hline := not_mem_responseLine a
    have hrest : Lines (joined [responseLine a stale, responseLine a x]) lines.tail := by
      rw [joined_cons, joined_cons, joined_nil]
      exact .ended (hline stale (by decide)) (.ended (hline x (by decide)) .none)
    exact .ended (l := [0x20]) (by decide) hrest
  have hcoming : Coming c true lines := by
    have hgo : Ongoing [(1, some output)] := by simp [Ongoing]
    have hbytes : Channel.start.buffer ++ carried [(1, some output)] = output :=
      List.append_nil output
    rw [← hbytes] at hlines
    change Ahead .start ([(1, some output)] ++ (2, none) :: []) true lines
    exact .closing aligned_start hgo hlines
  have hlegible : ∀ l ∈ lines, Legible l := by
    intro l hl
    simp only [lines, List.mem_cons, List.not_mem_nil, or_false] at hl
    obtain rfl | rfl | rfl := hl
    · exact ⟨by decide, " ", hblank.1⟩
    · exact legible_responseLine a stale hstale true
    · exact legible_responseLine a x hx true
  have hdecides : Decides c.path x.id true lines (.ok (resultOf a x.query)) [] :=
    .passed (.blank hblank.1 hblank.2) (.passed (passes_responseLine a stale (by decide) true)
      (.settled (settles_responseLine a x true)))
  have hchild : h.child? "p" = some c := rfl
  obtain ⟨-, hreceive, -⟩ := call_outcome hchild hcoming hlegible x.id x.query 0
  obtain ⟨time, answer, after, -, hafter, hanswers, hreceive⟩ := hreceive _ _ hdecides
  exact ⟨lines, rfl, hcoming, hlegible, hdecides, time, answer, after, hafter, hanswers, hreceive⟩

end Attestation.Proofs.CallOutcomes
