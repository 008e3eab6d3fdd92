import Attestation.Proofs.ReportCbor
import Attestation.Proofs.ReportJson
import Attestation.Proofs.Worlds
import Attestation.Tsm.Attester

namespace Attestation.Proofs.ReportEvidence

open JsonRecords ReportCbor ReportJson Tsm Worlds

inductive Inquiry where
  | available
  | report (q : ReportRequest)
  deriving Repr, DecidableEq

@[reducible] def Inquiry.Reply : Inquiry → Type
  | .available => Except Tsm.Error Unit
  | .report _ => Except Tsm.Error Report

/-- The backend that passes every question on. -/
def asking : Backend (Dialogue Inquiry.Reply) :=
  ⟨.question Inquiry.available, fun q => .question (Inquiry.report q)⟩

section backends

variable {m : Type → Type} [Monad m]

def replyOf (b : Backend m) : (i : Inquiry) → m i.Reply
  | .available => b.available
  | .report q => b.report q

theorem answer_eq_run [LawfulMonad m] (p : Profile) (b : Backend m) (q : Query) :
    p.answer b q = (p.answer asking q).run (replyOf b) := by
  cases q with
  | identity | options => rfl
  | formats =>
    change p.formatsOf <$> b.available = b.available >>= fun x => pure (p.formatsOf x)
    rw [bind_pure_comp]
  | evidence r =>
    simp only [Profile.answer]
    cases p.reportRequest r with
    | error e => rfl
    | ok q =>
      change _ = b.report q >>= fun x => pure (evidenceOf r.contentType x)
      rw [bind_pure_comp]

end backends

/-- The text of the first check that fails; each check is what is wrong, if anything is. -/
def firstFault (checks : List (Option String)) : Option String := checks.findSome? id

section checks

variable (p : Profile) (r : EvidenceRequest)

def sizeCheck : Option String :=
  if r.nonce.length = p.nonceSize then none
  else some (s!"nonce size of the TSM attester should be {p.nonceSize}, " ++
    s!"got {r.nonce.length}")

def typeCheck : Option String :=
  if r.contentType ∈ p.mediaTypes then none
  else some s!"no supported format in {p.label} matches the requested format"

def levelCheck : Option String :=
  match privilegeLevel r.options with
  | .ok _ => none
  | .error e => some e

def requestChecks : List (Option String) := [sizeCheck p r, typeCheck p r, levelCheck r]

def backendCheck : Except Tsm.Error Report → Option String
  | .ok _ => none
  | .error e => some s!"failed to get TSM report: {e.message}"

def validCheck : Except Tsm.Error Report → Option String
  | .ok report =>
    match report.valid with
    | .ok () => none
    | .error e => some s!"failed to encode TSM report: {e.message}"
  | .error _ => none

def reportChecks (answer : Except Tsm.Error Report) : List (Option String) :=
  [backendCheck answer, validCheck answer]

end checks

/-- The evidence is the report, in the encoding of its media type. The length of a byte string is a
machine word. -/
def Carries (contentType : String) (evidence : List UInt8) (report : Report) : Prop :=
  if contentType = cborMediaType then Storable report → Report.ofCbor evidence = .ok report
  else Report.ofJson evidence = .ok report

/-- What a request for evidence comes to, with the questions that are put to the backend. -/
inductive Served (p : Profile) (r : EvidenceRequest) :
    List (Event Inquiry.Reply) → EvidenceAnswer → Prop
  | refused {e : String} (h : firstFault (requestChecks p r) = some e) :
      Served p r [] (.failure e)
  | failed {level : UInt32} {answer : Except Tsm.Error Report} {e : String}
      (h : firstFault (requestChecks p r) = none) (hl : privilegeLevel r.options = .ok level)
      (hr : firstFault (reportChecks answer) = some e) :
      Served p r [⟨.report ⟨r.nonce, level, true⟩, answer⟩] (.failure e)
  | given {level : UInt32} {report : Report} {evidence : List UInt8}
      (h : firstFault (requestChecks p r) = none) (hl : privilegeLevel r.options = .ok level)
      (hr : firstFault (reportChecks (.ok report)) = none)
      (he : Carries r.contentType evidence report) :
      Served p r [⟨.report ⟨r.nonce, level, true⟩, .ok report⟩] (.success evidence)

theorem encodeReport_of_invalid {report : Report} {e : Token.Error} (h : report.valid = .error e)
    (type : String) : encodeReport type report = .error e := by
  unfold encodeReport
  split
  · exact toCbor_of_invalid h
  · rw [toJson_of_invalid h]
    rfl

theorem encodeReport_of_valid {report : Report} (h : report.valid = .ok ()) (type : String) :
    ∃ evidence, encodeReport type report = .ok evidence ∧ Carries type evidence report := by
  unfold encodeReport Carries
  split
  · have hcbor := toCbor_of_valid h
    refine ⟨_, hcbor, fun hs => ?_⟩
    have hread := ofCbor_toCbor hs hcbor []
    rwa [List.append_nil] at hread
  · have hjson := toJson_of_valid h
    have hread := ReportText.ofJson_toJson hjson
    rw [← Utf8Encoding.encode_ofList] at hread
    exact ⟨_, by rw [hjson]; rfl, hread⟩

theorem firstFault_eq_none_iff {checks : List (Option String)} :
    firstFault checks = none ↔ ∀ c ∈ checks, c = none :=
  List.findSome?_eq_none_iff

section faults

variable {p : Profile} {r : EvidenceRequest} {answer : Except Tsm.Error Report}

theorem sizeCheck_eq_none_iff : sizeCheck p r = none ↔ r.nonce.length = p.nonceSize := by
  simp [sizeCheck]

theorem typeCheck_eq_none_iff : typeCheck p r = none ↔ r.contentType ∈ p.mediaTypes := by
  simp [typeCheck]

theorem levelCheck_eq_none_iff :
    levelCheck r = none ↔ ∃ level, privilegeLevel r.options = .ok level := by
  unfold levelCheck
  cases privilegeLevel r.options <;> simp

theorem requestChecks_eq_none_iff : firstFault (requestChecks p r) = none ↔
    r.nonce.length = p.nonceSize ∧ r.contentType ∈ p.mediaTypes ∧
      ∃ level, privilegeLevel r.options = .ok level := by
  rw [firstFault_eq_none_iff, requestChecks, List.forall_mem_cons, List.forall_mem_cons,
    List.forall_mem_singleton, sizeCheck_eq_none_iff, typeCheck_eq_none_iff,
    levelCheck_eq_none_iff]

/-- What the backend is asked, unless a check fails; the first one that does counts. -/
theorem reportRequest_eq : p.reportRequest r =
    match firstFault (requestChecks p r) with
    | some e => .error e
    | none => (privilegeLevel r.options).map fun level => ⟨r.nonce, level, true⟩ := by
  by_cases hs : r.nonce.length = p.nonceSize
  · rw [Profile.reportRequest, if_neg (not_not_intro hs), requestChecks,
      sizeCheck_eq_none_iff.mpr hs]
    by_cases ht : r.contentType ∈ p.mediaTypes
    · rw [if_neg (not_not_intro ht), typeCheck_eq_none_iff.mpr ht, levelCheck]
      cases privilegeLevel r.options <;> rfl
    · rw [if_pos ht, typeCheck, if_neg ht]
      rfl
  · rw [Profile.reportRequest, if_pos hs, requestChecks, sizeCheck, if_neg hs]
    rfl

theorem validCheck_ok_eq_none_iff {report : Report} :
    validCheck (.ok report) = none ↔ report.valid = .ok () := by
  simp only [validCheck]
  cases report.valid <;> simp

theorem reportChecks_eq_none_iff : firstFault (reportChecks answer) = none ↔
    ∃ report, answer = .ok report ∧ report.valid = .ok () := by
  rw [firstFault_eq_none_iff, reportChecks]
  cases answer with
  | error e => simp [backendCheck]
  | ok report => simp [backendCheck, validCheck_ok_eq_none_iff]

theorem evidenceOf_fault {e : String} (h : firstFault (reportChecks answer) = some e)
    (type : String) : evidenceOf type answer = .failure e := by
  cases answer with
  | error fault =>
    cases h
    rfl
  | ok report =>
    cases hv : report.valid with
    | ok =>
      have hnone : firstFault (reportChecks (.ok report)) = none :=
        reportChecks_eq_none_iff.mpr ⟨report, rfl, hv⟩
      cases hnone.symm.trans h
    | error fault =>
      have hfault : firstFault (reportChecks (.ok report)) =
          some s!"failed to encode TSM report: {fault.message}" := by
        simp only [reportChecks, backendCheck, validCheck, hv]
        rfl
      rw [hfault] at h
      cases h
      simp only [evidenceOf, encodeReport_of_invalid hv]

end faults

section runs

variable {p : Profile} {r : EvidenceRequest} {log : List (Event Inquiry.Reply)}

theorem runs_evidence {a : EvidenceAnswer} (h : Runs (p.answer asking (.evidence r)) log a) :
    Served p r log a := by
  simp only [Profile.answer, reportRequest_eq] at h
  cases hc : firstFault (requestChecks p r) with
  | some e =>
    rw [hc] at h
    obtain ⟨rfl, rfl⟩ := runs_done_iff.mp h
    exact .refused hc
  | none =>
    obtain ⟨_, _, level, hl⟩ := requestChecks_eq_none_iff.mp hc
    rw [hc, hl] at h
    obtain ⟨answer, rest, rfl, hdone⟩ := runs_ask_iff.mp h
    obtain ⟨rfl, rfl⟩ := runs_done_iff.mp hdone
    cases hr : firstFault (reportChecks answer) with
    | some e =>
      rw [evidenceOf_fault hr]
      exact .failed hc hl hr
    | none =>
      obtain ⟨report, rfl, hv⟩ := reportChecks_eq_none_iff.mp hr
      obtain ⟨evidence, hencode, he⟩ := encodeReport_of_valid hv r.contentType
      simp only [evidenceOf, hencode]
      exact .given hc hl hr he

theorem runs_formats {a : FormatsAnswer} (h : Runs (p.answer asking .formats) log a) :
    ∃ answer, log = [⟨.available, answer⟩] ∧ a = p.formatsOf answer := by
  obtain ⟨answer, rest, rfl, hdone⟩ := runs_ask_iff.mp h
  obtain ⟨rfl, rfl⟩ := runs_done_iff.mp hdone
  exact ⟨answer, rfl, rfl⟩

end runs

theorem served_success_iff {p : Profile} {r : EvidenceRequest} {log : List (Event Inquiry.Reply)}
    {a : EvidenceAnswer} (h : Served p r log a) :
    a.status.result = true ↔ r.nonce.length = p.nonceSize ∧ r.contentType ∈ p.mediaTypes ∧
      ∃ level report, privilegeLevel r.options = .ok level ∧
        log = [⟨.report ⟨r.nonce, level, true⟩, .ok report⟩] ∧ report.valid = .ok () := by
  cases h with
  | refused h =>
    refine iff_of_false nofun ?_
    rintro ⟨_, _, _, _, _, hlog, _⟩
    cases hlog
  | failed h hl hr =>
    refine iff_of_false nofun ?_
    rintro ⟨_, _, level, report, _, hlog, hv⟩
    cases hlog
    cases (reportChecks_eq_none_iff.mpr ⟨report, rfl, hv⟩).symm.trans hr
  | @given level report _ h hl hr he =>
    obtain ⟨hs, ht, _⟩ := requestChecks_eq_none_iff.mp h
    obtain ⟨_, hreport, hv⟩ := reportChecks_eq_none_iff.mp hr
    cases hreport
    exact iff_of_true rfl ⟨hs, ht, level, report, hl, rfl, hv⟩

theorem served_failure {p : Profile} {r : EvidenceRequest} {log : List (Event Inquiry.Reply)}
    {a : EvidenceAnswer} (h : Served p r log a) (ha : a.status.result = false) :
    a.evidence = [] := by
  cases h with
  | refused | failed => rfl
  | given => cases ha

theorem carries_of_served {p : Profile} {r : EvidenceRequest} {q : ReportRequest} {report : Report}
    {a : EvidenceAnswer} (h : Served p r [⟨.report q, .ok report⟩] a)
    (ha : a.status.result = true) : Carries r.contentType a.evidence report := by
  cases h with
  | failed => cases ha
  | given _ _ _ he => exact he

theorem mem_formats_iff {p : Profile} (hp : p.nonceSize < UInt32.size) (r : EvidenceRequest) :
    (∃ f ∈ p.formats, f.contentType = r.contentType ∧ f.nonceSize.toNat = r.nonce.length) ↔
      sizeCheck p r = none ∧ typeCheck p r = none := by
  have hsize : (UInt32.ofNat p.nonceSize).toNat = p.nonceSize := UInt32.toNat_ofNat_of_lt' hp
  rw [sizeCheck_eq_none_iff, typeCheck_eq_none_iff]
  constructor
  · rintro ⟨f, hf, htype, hn⟩
    obtain ⟨t, ht, rfl⟩ := List.mem_map.mp hf
    exact ⟨hn.symm.trans hsize, htype ▸ ht⟩
  · rintro ⟨hn, ht⟩
    exact ⟨_, List.mem_map_of_mem ht, rfl, hsize.trans hn.symm⟩

/-- An attester of a platform, whatever its backend: it gives evidence iff no check fails, the
evidence is the report of the backend, and a failure names the first check that fails. What it
offers is what passes the first two checks. -/
theorem evidence_as_checked (p : Profile) (hp : p.nonceSize < UInt32.size) :
    (∀ (m : Type → Type) [Monad m] [LawfulMonad m] (b : Backend m) (q : Query),
      p.answer b q = (p.answer asking q).run (replyOf b)) ∧
    (∀ r log a, Runs (p.answer asking (.evidence r)) log a →
      Served p r log a ∧ (a.status.result = false → a.evidence = []) ∧
      (a.status.result = true ↔ r.nonce.length = p.nonceSize ∧ r.contentType ∈ p.mediaTypes ∧
        ∃ level report, privilegeLevel r.options = .ok level ∧
          log = [⟨.report ⟨r.nonce, level, true⟩, .ok report⟩] ∧ report.valid = .ok ())) ∧
    ∀ log a, Runs (p.answer asking .formats) log a →
      ∃ answer, log = [⟨.available, answer⟩] ∧ (answer = .ok () → a.status.result = true ∧
        ∀ r : EvidenceRequest,
          (∃ f ∈ a.formats, f.contentType = r.contentType ∧ f.nonceSize.toNat = r.nonce.length) ↔
            sizeCheck p r = none ∧ typeCheck p r = none) := by
  refine ⟨fun m _ _ b q => answer_eq_run p b q, fun r log a h => ?_, fun log a h => ?_⟩
  · have hserved := runs_evidence h
    exact ⟨hserved, served_failure hserved, served_success_iff hserved⟩
  · obtain ⟨answer, rfl, rfl⟩ := runs_formats h
    refine ⟨answer, rfl, ?_⟩
    rintro rfl
    exact ⟨rfl, mem_formats_iff hp⟩

/-- A backend that answers with what it was asked for, and the mock attester. -/
theorem evidence_as_checked_echo :
    let r : EvidenceRequest := ⟨mockMediaType, List.replicate 32 7, []⟩
    let report := Backend.echoReport ⟨r.nonce, 0, true⟩
    let a := Profile.mock.answer (m := Id) Backend.echo (.evidence r)
    a.status.result = true ∧ Report.ofJson a.evidence = .ok report := by
  intro r report a
  have hmock := evidence_as_checked Profile.mock (by decide)
  have hv : report.valid = .ok () := by decide
  have hrun : Runs (Profile.mock.answer asking (.evidence r))
      [⟨.report ⟨r.nonce, 0, true⟩, .ok report⟩] a := .ask (.done _)
  obtain ⟨hserved, _, hsuccess⟩ := hmock.2.1 r _ a hrun
  have hresult := hsuccess.mpr ⟨rfl, by decide, 0, report, rfl, rfl, hv⟩
  have hcarries := carries_of_served hserved hresult
  rw [Carries, if_neg (by decide)] at hcarries
  exact ⟨hresult, hcarries⟩

end Attestation.Proofs.ReportEvidence
