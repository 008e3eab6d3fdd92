import Attestation.Compositor
import Attestation.Proofs.JsonRecords

namespace Attestation.Proofs.EvidenceRequests

open Compositor JsonRecords
open Json (Value)

def Understood (formats : List Format) : Option Value → Prop
  | none | some .null => True
  | some (.object options) =>
    ∀ v, Value.get? options contentTypeOption = some v → ∃ f ∈ formats, v = .string f.contentType
  | some _ => False

def defaultType (formats : List Format) : String := (formats.headD default).contentType

def chosenType (formats : List Format) : Option Value → String
  | some (.object options) =>
    match Value.get? options contentTypeOption with
    | some (.string type) => type
    | _ => defaultType formats
  | _ => defaultType formats

def optionsText : Option Value → List UInt8
  | some (.object options) => Text.Utf8.encode (Value.object options).text
  | _ => []

def chosenRequest (nonce : List UInt8) (formats : List Format) (entry : Option Value) :
    EvidenceRequest :=
  ⟨chosenType formats entry, nonce, optionsText entry⟩

theorem any_contentType {formats : List Format} {type : String} :
    formats.any (fun f => decide (f.contentType = type)) = true ↔
      ∃ f ∈ formats, f.contentType = type := by
  rw [List.any_eq_true]
  exact exists_congr fun f => and_congr_right fun _ => decide_eq_true_iff

theorem contentType_eq_ok_iff {name : String} {first : Format} {rest : List Format}
    {options : List (String × Value)} {type : String} :
    contentType name (first :: rest) first options = .ok type ↔
      Understood (first :: rest) (some (.object options)) ∧
        type = chosenType (first :: rest) (some (.object options)) := by
  simp only [contentType, Understood, chosenType]
  cases hg : Value.get? options contentTypeOption with
  | none =>
    constructor
    · intro h
      cases h
      exact ⟨nofun, rfl⟩
    · rintro ⟨_, rfl⟩
      rfl
  | some v =>
    cases v with
    | string desired =>
      simp only
      constructor
      · intro h
        split at h
        · rename_i hany
          cases h
          obtain ⟨f, hf, rfl⟩ := any_contentType.mp hany
          refine ⟨?_, rfl⟩
          rintro v ⟨⟩
          exact ⟨f, hf, rfl⟩
        · cases h
      · rintro ⟨hu, rfl⟩
        obtain ⟨f, hf, he⟩ := hu _ rfl
        cases he
        exact if_pos (any_contentType.mpr ⟨f, hf, rfl⟩)
    | null | bool _ | number _ | array _ | object _ =>
      refine ⟨nofun, ?_⟩
      rintro ⟨hu, _⟩
      obtain ⟨_, _, he⟩ := hu _ rfl
      cases he

/-- A request can be settled with an attester that offers a format and understands the options. -/
theorem request_eq_ok_iff {name : String} {nonce : List UInt8} {answer : FormatsAnswer}
    {entry : Option Value} {r : EvidenceRequest} :
    request name nonce answer entry = .ok r ↔
      answer.status.result = true ∧ answer.formats ≠ [] ∧ Understood answer.formats entry ∧
        r = chosenRequest nonce answer.formats entry := by
  obtain ⟨⟨result, error⟩, formats⟩ := answer
  cases result with
  | false => exact ⟨nofun, nofun⟩
  | true =>
    cases formats with
    | nil => exact ⟨nofun, fun h => absurd rfl h.2.1⟩
    | cons first rest =>
      have hok : ∀ {x : EvidenceRequest} {P : Prop}, P →
          ((Except.ok x : Except Problem _) = .ok r ↔
            true = true ∧ first :: rest ≠ [] ∧ P ∧ r = x) := fun hp =>
        ⟨fun h => ⟨rfl, nofun, hp, (Except.ok.inj h).symm⟩,
          fun h => congrArg Except.ok h.2.2.2.symm⟩
      match entry with
      | none | some .null => exact hok trivial
      | some (.bool _) | some (.number _) | some (.string _) | some (.array _) =>
        exact ⟨nofun, fun h => h.2.2.1.elim⟩
      | some (.object options) =>
        simp only [request]
        constructor
        · intro h
          obtain ⟨type, ht, h⟩ := (bind_ok_iff _ _ _).mp h
          obtain ⟨hu, rfl⟩ := contentType_eq_ok_iff.mp ht
          cases h
          exact ⟨trivial, nofun, hu, rfl⟩
        · rintro ⟨_, _, hu, rfl⟩
          exact (bind_ok_iff _ _ _).mpr ⟨_, contentType_eq_ok_iff.mpr ⟨hu, rfl⟩, rfl⟩

end Attestation.Proofs.EvidenceRequests
