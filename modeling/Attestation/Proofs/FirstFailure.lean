import Attestation.Http.App
import Attestation.Mock
import Attestation.Proofs.CheckOrder
import Attestation.Proofs.JsonReading
import Attestation.Proofs.ModeAgreement

namespace Attestation.Proofs.FirstFailure

open Compositor Course Scheduling Targets CheckOrder JsonReading JsonText JsonValues Utf8Encoding
open Json (Value)
open SelectionOrder (sortNames_sorted)

variable {H : Type}

theorem reads_problem (p : Problem) : Reads Problem.record.decode 1 p.toValue p := by
  have hsize : p.status.toUInt64.toNat = p.status.toNat := UInt16.toNat_toUInt64 _
  have hread := reads_nat 16 p.status.toUInt64 (hsize ▸ p.status.toNat_lt)
  rw [hsize] at hread
  have h : Reads Problem.record.decode 1 p.toValue
      ⟨p.type, p.title, p.detail, UInt16.ofNat p.status.toNat⟩ :=
    reads_record (.cons rfl (by decide) (reads_string p.type)
      (.cons rfl (by decide) (reads_string p.title)
        (.cons rfl (by decide) (reads_string p.detail)
          (.cons rfl (by decide) hread (.nil _ _))))) rfl
  rwa [UInt16.ofNat_toNat] at h

theorem shallow_problem (p : Problem) : Shallow 1 p.toValue := by
  refine shallow_object ?_
  have hstatus := shallow_ofNat 0 p.status.toUInt64
  simp [shallow_string, hstatus]

theorem read_problem (p : Problem) :
    Json.Decoder.run Problem.record.decode (Text.Utf8.encode (Http.App.ofProblem p).body) =
      .ok p := by
  have htext : Text.Utf8.encode p.toValue.text = bytesOf p.toValue.render := encode_ofList _
  rw [Http.App.ofProblem, htext]
  exact run_text (reads_problem p) (by decide) (shallow_problem p).exact

theorem status_of_check {checks : List Check} {p : Problem} (h : firstProblem checks = some p) :
    p.status = 400 ∨ p.status = 500 := by
  obtain ⟨c, _, hc⟩ := List.exists_of_findSome?_eq_some h
  cases c with
  | client fault =>
    obtain ⟨s, _, rfl⟩ := Option.map_eq_some_iff.mp hc
    exact Or.inl rfl
  | server fault =>
    obtain ⟨s, _, rfl⟩ := Option.map_eq_some_iff.mp hc
    exact Or.inr rfl

theorem challenge_problem {env : Environment H} {app : Http.App H} {r : Http.Request} {p : Problem}
    (hsize : r.body.length ≤ Http.maxBody)
    (htypes : checkMediaTypes (Http.headerText? r.headers "content-type")
      (Http.headerText? r.headers "accept") = .ok ())
    (h : (composed env app.settings app.registry r.body).1 = .error p) :
    ((Http.App.challenge env.runner app r).run []).1 = Http.App.ofProblem p := by
  rw [Http.App.challenge, if_neg (Nat.not_lt.mpr hsize), htypes]
  cases hrun : (compose env.runner app.settings app.registry r.body).run [] with
  | mk result log =>
    rw [composed, hrun] at h
    obtain rfl : result = .error p := h
    simp only [StateT.run_bind, hrun]
    rfl

/-- When composing in turn fails, the first check that fails decides how, whatever else is wrong.
The targets are checked in ascending order, and the status of the response is the one that its
body states. -/
theorem first_failure_decides {schedule : Schedule} (hs : schedule.deadline = none)
    (answers : Nat → H → SubAttester) (mode : ListMode) (timeout : Nat) (registry : Registry H)
    (body : List UInt8) :
    let response := (composed (environment schedule answers) ⟨mode, .sequential, timeout⟩
      registry body).1
    let selection := (Challenge.ofBody body).selection
    (∀ p, response = .error p ↔ firstProblem (checklist mode registry answers body) = some p) ∧
      (targetsOf mode registry selection).Pairwise (· ≤ ·) ∧
      (∀ name, name ∈ targetsOf mode registry selection ↔
        IsTarget mode registry selection name) ∧
      ∀ (app : Http.App H) (r : Http.Request) (p : Problem),
        app.settings = ⟨mode, .sequential, timeout⟩ → app.registry = registry → r.body = body →
        r.body.length ≤ Http.maxBody →
        checkMediaTypes (Http.headerText? r.headers "content-type")
          (Http.headerText? r.headers "accept") = .ok () →
        response = .error p →
        let answer := ((Http.App.challenge (environment schedule answers).runner app r).run []).1
        answer.status = p.status ∧
          Json.Decoder.run Problem.record.decode (Text.Utf8.encode answer.body) = .ok p := by
  have hdecides : Decides (checklist mode registry answers body) _ :=
    decides_composed hs mode timeout body
  have hiff : ∀ p, (composed (environment schedule answers) ⟨mode, .sequential, timeout⟩
      registry body).1 = .error p ↔
      firstProblem (checklist mode registry answers body) = some p := by
    intro p
    rw [hdecides]
    cases (composed (environment schedule answers) ⟨mode, .sequential, timeout⟩ registry
      body).1 with
    | error q => simp [problemOf]
    | ok e => simp [problemOf]
  refine ⟨hiff, ?_, ?_, ?_⟩
  · cases mode with
    | all => exact sortNames_sorted registry.names
    | selected =>
      exact (ascending_entries body).imp fun h =>
        String.not_lt.mp fun h' => String.lt_irrefl _ (String.lt_trans h h')
  · intro name
    cases mode with
    | all => exact (SelectionOrder.sortNames_perm registry.names).mem_iff
    | selected => exact Iff.rfl
  · rintro app r p hsettings rfl rfl hsize htypes hp
    have hstatus := status_of_check ((hiff p).mp hp)
    rw [← hsettings] at hp
    simp only [challenge_problem hsize htypes hp]
    refine ⟨?_, read_problem p⟩
    obtain h | h := hstatus <;>
      simp [Http.App.ofProblem, Problem.statusCode, Http.Status.valid, h]

/-- The first target does not offer what is asked of it, and the second one is not there. -/
theorem first_failure_decides_pair :
    let registry := Mock.registry [("a", ⟨"z", [1]⟩)]
    lastFirst.deadline = none ∧
      firstProblem (checklist .selected registry (fun _ => id) pairRequest) =
        some (.invalidRequest "a does not support content type x") := by
  intro registry
  have hs : lastFirst.deadline = none := rfl
  have hrefused : (composed (environment lastFirst fun _ => id) ⟨.selected, .sequential, 0⟩
      registry pairRequest).1 =
      .error (.invalidRequest "a does not support content type x") := by
    rw [composed_prepared (s := ⟨.selected, .sequential, 0⟩)
      (prepare_pairRequest (List.cons_ne_nil _ _))]
    rfl
  exact ⟨hs, ((first_failure_decides hs (fun _ => id) .selected 0 registry pairRequest).1 _).mp
    hrefused⟩

end Attestation.Proofs.FirstFailure
