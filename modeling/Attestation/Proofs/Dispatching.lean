import Attestation.Proofs.RequestLines
import Attestation.Proofs.Service
import Attestation.Proofs.Worlds

namespace Attestation.Proofs.Dispatching

open AnswerText Json JsonGrammar JsonMeaning JsonReading Messages RequestLines Rpc Worlds

def methods : List String :=
  ["GetSubAttesterID", "GetSupportedFormats", "GetOptions", "GetEvidence"]

/-- The question that a request puts. -/
inductive Asks (r : Request) : Option Phrase → Query → Prop
  | identity {params : Option Phrase} (h : r.method = "GetSubAttesterID") : Asks r params .identity
  | formats {params : Option Phrase} (h : r.method = "GetSupportedFormats") :
      Asks r params .formats
  | options {params : Option Phrase} (h : r.method = "GetOptions") : Asks r params .options
  | evidence {d : Phrase} {e : EvidenceRequest} (h : r.method = "GetEvidence")
      (he : SaysEvidence d e) : Asks r (some d) (.evidence e)

/-- What comes of a request: the response, and the calls of the sub-attester. -/
structure Taken (a : SubAttester) (r : Request) (params : Option Phrase) (response : Response)
    (calls : List (Event Query.Answer)) : Prop where
  unknown : (∃ message, response = .ofError (some r.id) (-32601) message) ↔ r.method ∉ methods
  unfit : (∃ message, response = .ofError (some r.id) (-32602) message) ↔
    r.method = "GetEvidence" ∧ ∀ d e, params = some d → ¬ SaysEvidence d e
  answered : (∃ value, response = .ofResult r.id value) ↔ ∃ q, Asks r params q
  /-- The one call is that of the question, and the result is read as what it returned. -/
  called : ∀ q, Asks r params q → calls = [⟨q, a.answer q⟩] ∧
    ∃ value, response = .ofResult r.id value ∧ value = resultOf a q ∧
      Decoder.ofValue q.decodeAnswer value = .ok (a.answer q)

/-- What comes of a line. -/
structure Dispatched (a : SubAttester) (line : List UInt8) (response : Response)
    (calls : List (Event Query.Answer)) : Prop where
  unread : (∃ message, response = .ofError none (-32700) message) ↔
    ∀ params r, ¬ RequestLine line params r
  taken : ∀ params r, RequestLine line params r → Taken a r params response calls
  /-- There are no other errors, and no call where there is one. -/
  refused : ∀ e, response.error = some e → calls = [] ∧ e.code ∈ [-32700, -32601, -32602]

section questions

variable {r : Request} {params : Option Phrase} {q : Query}

theorem evidenceRequest_iff {id : UInt64} {v : Option Value} (hp : MemberMeans params v)
    {e : EvidenceRequest} :
    evidenceRequest id v = .ok e ↔ ∃ d, params = some d ∧ SaysEvidence d e := by
  cases hp with
  | missing =>
    refine iff_of_false nofun ?_
    rintro ⟨_, ⟨⟩, -⟩
  | null =>
    refine iff_of_false nofun ?_
    rintro ⟨_, ⟨⟩, ⟨⟨⟩⟩⟩
  | @given d v hm hn =>
    rw [evidenceRequest]
    constructor
    · intro h
      split at h
      · rename_i read hread
        cases h
        exact ⟨d, rfl, (ofValue_evidence_iff hm).mp hread⟩
      · cases h
    · rintro ⟨_, ⟨⟩, he⟩
      simp only [(ofValue_evidence_iff hm).mpr he]

theorem evidenceRequest_error {id : UInt64} {v : Option Value} {refusal : Response}
    (h : evidenceRequest id v = .error refusal) :
    ∃ message, refusal = .ofError (some id) invalidParams message := by
  unfold evidenceRequest at h
  split at h
  · cases h
    exact ⟨_, rfl⟩
  · split at h
    · cases h
    · cases h
      exact ⟨_, rfl⟩

theorem queryOf_of_asks (hp : MemberMeans params r.params) (h : Asks r params q) :
    queryOf r = .ok q := by
  cases h with
  | identity h | formats h | options h => simp [queryOf, h]
  | evidence h he =>
    have hread : evidenceRequest r.id r.params = .ok _ :=
      (evidenceRequest_iff hp).mpr ⟨_, rfl, he⟩
    simp [queryOf, h, hread, Except.map]

theorem queryOf_cases (hp : MemberMeans params r.params) :
    (r.method ∉ methods ∧
        queryOf r = .error (.ofError (some r.id) methodNotFound ("unknown method " ++ r.method))) ∨
      ((r.method = "GetEvidence" ∧ ∀ d e, params = some d → ¬ SaysEvidence d e) ∧
        ∃ message, queryOf r = .error (.ofError (some r.id) invalidParams message)) ∨
      ∃ q, Asks r params q := by
  by_cases hid : r.method = "GetSubAttesterID"
  · exact .inr (.inr ⟨_, .identity hid⟩)
  by_cases hformats : r.method = "GetSupportedFormats"
  · exact .inr (.inr ⟨_, .formats hformats⟩)
  by_cases hoptions : r.method = "GetOptions"
  · exact .inr (.inr ⟨_, .options hoptions⟩)
  by_cases hevidence : r.method = "GetEvidence"
  · cases hread : evidenceRequest r.id r.params with
    | ok e =>
      obtain ⟨d, rfl, he⟩ := (evidenceRequest_iff hp).mp hread
      exact .inr (.inr ⟨_, .evidence hevidence he⟩)
    | error refusal =>
      obtain ⟨message, rfl⟩ := evidenceRequest_error hread
      refine .inr (.inl ⟨⟨hevidence, fun d e hd he => ?_⟩, message, ?_⟩)
      · cases hread.symm.trans ((evidenceRequest_iff hp).mpr ⟨d, hd, he⟩)
      · simp [queryOf, hevidence, hread, Except.map]
  · refine .inl ⟨?_, ?_⟩
    · simp [methods, hid, hformats, hoptions, hevidence]
    · simp [queryOf, hid, hformats, hoptions, hevidence]

theorem mem_methods (h : Asks r params q) : r.method ∈ methods := by
  cases h with
  | identity h | formats h | options h | evidence h _ => simp [methods, h]

end questions

section lines

variable {a : SubAttester} {line : List UInt8} {r : Request} {params : Option Phrase} {q : Query}

theorem dispatch_refused {refusal : Response} (h : Question.ofLine line = .error refusal) :
    dispatch a line = refusal ∧ (play a.answer (dispatching line)).2 = [] := by
  rw [dispatch, dispatching, h]
  exact ⟨rfl, rfl⟩

theorem dispatch_asked {x : Question} (h : Question.ofLine line = .ok x) :
    dispatch a line = .ofResult x.id (resultOf a x.query) ∧
      (play a.answer (dispatching line)).2 = [⟨x.query, a.answer x.query⟩] := by
  rw [dispatch, dispatching, h]
  exact ⟨rfl, rfl⟩

theorem ofLine_unread (h : ∀ params r, ¬ RequestLine line params r) :
    ∃ message, Question.ofLine line = .error (.ofError none parseError message) := by
  unfold Question.ofLine
  cases hread : Decoder.run Request.record.decode line with
  | error e => exact ⟨_, rfl⟩
  | ok r =>
    obtain ⟨params, hr⟩ := run_request_iff.mp hread
    exact absurd hr (h params r)

theorem ofLine_request (h : RequestLine line params r) :
    Question.ofLine line = (queryOf r).map (⟨r.id, ·⟩) := by
  have hread : Decoder.run Request.record.decode line = .ok r := run_request_iff.mpr ⟨params, h⟩
  rw [Question.ofLine, hread]

theorem memberMeans_of_line (h : RequestLine line params r) : MemberMeans params r.params := by
  obtain ⟨d, -, hd⟩ := h
  cases hd with
  | parts _ _ _ _ hp _ => exact hp

theorem not_asks_of_unfit (hm : r.method = "GetEvidence")
    (h : ∀ d e, params = some d → ¬ SaysEvidence d e) : ¬ Asks r params q := by
  intro hq
  cases hq with
  | identity h' | formats h' | options h' => exact absurd (hm.symm.trans h') (by decide)
  | evidence _ he => exact h _ _ rfl he

theorem taken_unknown (hm : r.method ∉ methods) (message : String) :
    Taken a r params (.ofError (some r.id) methodNotFound message) [] where
  unknown := iff_of_true ⟨message, rfl⟩ hm
  unfit := by
    refine iff_of_false ?_ fun h => hm (by simp [methods, h.1])
    rintro ⟨_, h⟩
    simp [Response.ofError, methodNotFound] at h
  answered := by
    refine iff_of_false ?_ (not_exists.mpr fun q hq => hm (mem_methods hq))
    rintro ⟨_, ⟨⟩⟩
  called q hq := absurd (mem_methods hq) hm

theorem taken_unfit (hm : r.method = "GetEvidence")
    (h : ∀ d e, params = some d → ¬ SaysEvidence d e) (message : String) :
    Taken a r params (.ofError (some r.id) invalidParams message) [] where
  unknown := by
    refine iff_of_false ?_ fun hnot => hnot (by simp [methods, hm])
    rintro ⟨_, h⟩
    simp [Response.ofError, invalidParams] at h
  unfit := iff_of_true ⟨message, rfl⟩ ⟨hm, h⟩
  answered := by
    refine iff_of_false ?_ (not_exists.mpr fun q hq => not_asks_of_unfit hm h hq)
    rintro ⟨_, ⟨⟩⟩
  called q hq := absurd hq (not_asks_of_unfit hm h)

theorem taken_asked (hp : MemberMeans params r.params) (hq : Asks r params q) :
    Taken a r params (.ofResult r.id (resultOf a q)) [⟨q, a.answer q⟩] where
  unknown := by
    refine iff_of_false ?_ (not_not_intro (mem_methods hq))
    rintro ⟨_, ⟨⟩⟩
  unfit := by
    refine iff_of_false ?_ fun h => not_asks_of_unfit h.1 h.2 hq
    rintro ⟨_, ⟨⟩⟩
  answered := iff_of_true ⟨_, rfl⟩ ⟨q, hq⟩
  called q' hq' := by
    cases (queryOf_of_asks hp hq).symm.trans (queryOf_of_asks hp hq')
    exact ⟨rfl, _, rfl, rfl, ofValue_reads (reads_answer q (a.answer q))⟩

theorem request_cases (a : SubAttester) (h : RequestLine line params r) :
    (r.method ∉ methods ∧ ∃ message,
        dispatch a line = .ofError (some r.id) methodNotFound message ∧
          (play a.answer (dispatching line)).2 = []) ∨
      ((r.method = "GetEvidence" ∧ ∀ d e, params = some d → ¬ SaysEvidence d e) ∧ ∃ message,
        dispatch a line = .ofError (some r.id) invalidParams message ∧
          (play a.answer (dispatching line)).2 = []) ∨
      ∃ q, Asks r params q ∧ dispatch a line = .ofResult r.id (resultOf a q) ∧
        (play a.answer (dispatching line)).2 = [⟨q, a.answer q⟩] := by
  have hp := memberMeans_of_line h
  have hline := ofLine_request h
  obtain ⟨hm, hquery⟩ | ⟨hunfit, message, hquery⟩ | ⟨q, hq⟩ := queryOf_cases hp
  · rw [hquery] at hline
    exact .inl ⟨hm, _, dispatch_refused hline⟩
  · rw [hquery] at hline
    exact .inr (.inl ⟨hunfit, message, dispatch_refused hline⟩)
  · rw [queryOf_of_asks hp hq] at hline
    exact .inr (.inr ⟨q, hq, dispatch_asked hline⟩)

theorem taken_of_line (h : RequestLine line params r) :
    Taken a r params (dispatch a line) (play a.answer (dispatching line)).2 := by
  obtain ⟨hm, message, hresponse, hcalls⟩ | ⟨⟨hm, hunfit⟩, message, hresponse, hcalls⟩ |
    ⟨q, hq, hresponse, hcalls⟩ := request_cases a h <;> rw [hresponse, hcalls]
  · exact taken_unknown hm message
  · exact taken_unfit hm hunfit message
  · exact taken_asked (memberMeans_of_line h) hq

theorem dispatched_of_line (h : RequestLine line params r) :
    Dispatched a line (dispatch a line) (play a.answer (dispatching line)).2 where
  unread := by
    refine iff_of_false ?_ fun hnone => hnone params r h
    rintro ⟨_, hunread⟩
    obtain ⟨-, _, hresponse, -⟩ | ⟨-, _, hresponse, -⟩ | ⟨_, -, hresponse, -⟩ :=
      request_cases a h <;> cases hresponse.symm.trans hunread
  taken _ _ h' := taken_of_line h'
  refused e he := by
    obtain ⟨-, _, hresponse, hcalls⟩ | ⟨-, _, hresponse, hcalls⟩ | ⟨_, -, hresponse, -⟩ :=
      request_cases a h <;> rw [hresponse] at he <;> cases he
    · have hcode : methodNotFound ∈ [-32700, -32601, -32602] := by decide
      exact ⟨hcalls, hcode⟩
    · have hcode : invalidParams ∈ [-32700, -32601, -32602] := by decide
      exact ⟨hcalls, hcode⟩

theorem dispatched_unread (h : ∀ params r, ¬ RequestLine line params r) :
    Dispatched a line (dispatch a line) (play a.answer (dispatching line)).2 := by
  obtain ⟨message, hline⟩ := ofLine_unread h
  obtain ⟨hresponse, hcalls⟩ := dispatch_refused (a := a) hline
  rw [hresponse, hcalls]
  refine ⟨iff_of_true ⟨message, rfl⟩ h, fun params r hr => absurd hr (h params r), ?_⟩
  rintro e ⟨⟩
  exact ⟨rfl, List.mem_cons_self⟩

/-- Every line is answered in one of four ways, and the sub-attester is called in one of them, once
and with what the line asks for. -/
theorem line_is_dispatched (a : SubAttester) (line : List UInt8) :
    (play a.answer (dispatching line)).1 = dispatch a line ∧
      Dispatched a line (dispatch a line) (play a.answer (dispatching line)).2 := by
  refine ⟨(run_eq_play a.answer (dispatching line)).symm, ?_⟩
  by_cases h : ∃ params r, RequestLine line params r
  · obtain ⟨params, r, h⟩ := h
    exact dispatched_of_line h
  · exact dispatched_unread fun params r hr => h ⟨params, r, hr⟩

end lines

end Attestation.Proofs.Dispatching
