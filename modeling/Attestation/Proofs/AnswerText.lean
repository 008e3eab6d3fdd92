import Attestation.Attester.Json
import Attestation.Proofs.JsonReading

namespace Attestation.Proofs.AnswerText

open Json JsonReading JsonValues
open SelectionOrder (Ascending)

theorem sorted_pair {k l : String} (h : k < l) (v w : Value) :
    (Value.object [(k, v), (l, w)]).sorted = .object [(k, v.sorted), (l, w.sorted)] := by
  have hlast := insert_last l w.sorted [(k, v.sorted)] (List.forall_mem_singleton.mpr h)
  exact congrArg Value.object hlast

theorem sorted_swapped {k l : String} (h : k < l) (v w : Value) :
    (Value.object [(l, w), (k, v)]).sorted = .object [(k, v.sorted), (l, w.sorted)] :=
  congrArg Value.object (if_pos h)

theorem reads_status (s : Status) : Reads Status.record.decode 1 s.toValue.sorted s := by
  obtain ⟨result, error⟩ := s
  by_cases he : error = ""
  · subst he
    change Reads _ 1 (.object [("result", .bool result)]) _
    exact reads_record (.cons rfl (by decide) (reads_bool result) (.nil _ _)) rfl
  · have hsorted : (Status.toValue ⟨result, error⟩).sorted =
        .object [("error", .string error), ("result", .bool result)] := by
      rw [Status.toValue, if_neg he]
      exact sorted_swapped (by decide) _ _
    rw [hsorted]
    exact reads_record (.cons rfl (by decide) (reads_string error)
      (.cons rfl (by decide) (reads_bool result) (.nil _ _))) rfl

theorem shallow_status (s : Status) : Shallow 1 s.toValue := by
  refine shallow_object fun m hm => ?_
  obtain rfl | hm := List.mem_cons.mp hm
  · exact shallow_bool 0 _
  · split at hm
    · cases hm
    · cases List.mem_singleton.mp hm
      exact shallow_string 0 _

theorem reads_identity (i : Identity) : Reads Identity.record.decode 1 i.toValue.sorted i := by
  have hsorted : i.toValue.sorted =
      .object [("name", .string i.name), ("version", .string i.version)] :=
    sorted_pair (by decide) _ _
  rw [hsorted]
  exact reads_record (.cons rfl (by decide) (reads_string i.name)
    (.cons rfl (by decide) (reads_string i.version) (.nil _ _))) rfl

theorem reads_format (f : Format) : Reads Format.record.decode 1 f.toValue.sorted f := by
  have hsorted : f.toValue.sorted = .object [("content_type", .string f.contentType),
      ("nonce_size", .ofNat f.nonceSize.toUInt64)] := sorted_pair (by decide) _ _
  have hsize : f.nonceSize.toUInt64.toNat = f.nonceSize.toNat := UInt32.toNat_toUInt64 _
  have hread := reads_nat 32 f.nonceSize.toUInt64 (hsize ▸ f.nonceSize.toNat_lt)
  rw [hsize] at hread
  have h : Reads Format.record.decode 1 f.toValue.sorted
      ⟨f.contentType, UInt32.ofNat f.nonceSize.toNat⟩ := by
    rw [hsorted]
    exact reads_record (.cons rfl (by decide) (reads_string f.contentType)
      (.cons rfl (by decide) hread (.nil _ _))) rfl
  rwa [UInt32.ofNat_toNat] at h

theorem reads_dataType (t : DataType) : Reads DataType.decode 0 t.toValue.sorted t := by
  intro p _
  cases t <;> rfl

theorem reads_option (o : OptionDescriptor) :
    Reads OptionDescriptor.record.decode 1 o.toValue.sorted o := by
  have hsorted : o.toValue.sorted =
      .object [("data-type", o.dataType.toValue), ("name", .string o.name)] :=
    sorted_swapped (by decide) _ _
  rw [hsorted]
  exact reads_record (.cons rfl (by decide) (reads_dataType o.dataType)
    (.cons rfl (by decide) (reads_string o.name) (.nil _ _))) rfl

theorem reads_identityAnswer (a : IdentityAnswer) :
    Reads IdentityAnswer.record.decode 2 a.toValue.sorted a := by
  obtain ⟨status, identity⟩ := a
  have hs := reads_status status
  cases identity with
  | none =>
    change Reads _ 2 (.object [("status", status.toValue.sorted)]) _
    exact reads_record (.cons rfl (by decide) hs (.nil _ _)) rfl
  | some i =>
    have hsorted : (IdentityAnswer.toValue ⟨status, some i⟩).sorted =
        .object [("status", status.toValue.sorted), ("sub_attester_id", i.toValue.sorted)] :=
      sorted_pair (by decide) _ _
    have hi := reads_some (reads_identity i) (by simp [Identity.toValue, Value.sorted])
    rw [hsorted]
    exact reads_record (.cons rfl (by decide) hs (.cons rfl (by decide) hi (.nil _ _))) rfl

theorem sortedItems_map {α : Type} (f : α → Value) (xs : List α) :
    Value.sortedItems (xs.map f) = xs.map fun x => (f x).sorted := by
  induction xs with
  | nil => rfl
  | cons x xs ih => rw [List.map_cons, Value.sortedItems, ih, List.map_cons]

theorem reads_items {α : Type} {d : Decoder α} {n : Nat} {f : α → Value} (xs : List α)
    (h : ∀ x, Reads d n (f x).sorted x) :
    Reads (.list d) (n + 1) (.array (Value.sortedItems (xs.map f))) xs := by
  have hread := reads_list (fun x => (f x).sorted) id xs fun x _ => h x
  rwa [List.map_id, ← sortedItems_map] at hread

theorem reads_formatsAnswer (a : FormatsAnswer) :
    Reads FormatsAnswer.record.decode 3 a.toValue.sorted a := by
  have hsorted : a.toValue.sorted =
      .object [("formats", .array (Value.sortedItems (a.formats.map Format.toValue))),
        ("status", a.status.toValue.sorted)] := sorted_swapped (by decide) _ _
  have hs := reads_mono (reads_status a.status) (by decide : 1 ≤ 2)
  rw [hsorted]
  exact reads_record (.cons rfl (by decide) (reads_items a.formats reads_format)
    (.cons rfl (by decide) hs (.nil _ _))) rfl

theorem reads_optionsAnswer (a : OptionsAnswer) :
    Reads OptionsAnswer.record.decode 3 a.toValue.sorted a := by
  have hsorted : a.toValue.sorted =
      .object [("options", .array (Value.sortedItems (a.options.map OptionDescriptor.toValue))),
        ("status", a.status.toValue.sorted)] := sorted_swapped (by decide) _ _
  have hs := reads_mono (reads_status a.status) (by decide : 1 ≤ 2)
  rw [hsorted]
  exact reads_record (.cons rfl (by decide) (reads_items a.options reads_option)
    (.cons rfl (by decide) hs (.nil _ _))) rfl

theorem reads_evidenceAnswer (a : EvidenceAnswer) :
    Reads EvidenceAnswer.record.decode 2 a.toValue.sorted a := by
  have hsorted : a.toValue.sorted = .object [("evidence", Blob.toJson a.evidence),
      ("status", a.status.toValue.sorted)] := sorted_swapped (by decide) _ _
  have hb := reads_mono (reads_blob a.evidence) (Nat.zero_le 1)
  rw [hsorted]
  exact reads_record (.cons rfl (by decide) hb
    (.cons rfl (by decide) (reads_status a.status) (.nil _ _))) rfl

theorem reads_evidenceRequest (r : EvidenceRequest) :
    Reads EvidenceRequest.record.decode 1 r.toValue.sorted r := by
  have hsorted : r.toValue.sorted = .object [("content_type", .string r.contentType),
      ("nonce", Blob.toJson r.nonce), ("options", Blob.toJson r.options)] := by
    have horder : Ascending [("content_type", Value.string r.contentType),
        ("nonce", Blob.toJson r.nonce), ("options", Blob.toJson r.options)] := by
      change ["content_type", "nonce", "options"].Pairwise (· < ·)
      decide
    exact congrArg Value.object (ofList_ascending horder)
  rw [hsorted]
  exact reads_record (.cons rfl (by decide) (reads_string r.contentType)
    (.cons rfl (by decide) (reads_blob r.nonce)
      (.cons rfl (by decide) (reads_blob r.options) (.nil _ _)))) rfl

/-- An answer of any kind is read back from its JSON form. -/
theorem reads_answer : ∀ (q : Query) (a : q.Answer),
    Reads q.decodeAnswer 3 (q.answerValue a).sorted a
  | .identity, a => reads_mono (reads_identityAnswer a) (by decide)
  | .formats, a => reads_formatsAnswer a
  | .options, a => reads_optionsAnswer a
  | .evidence _, a => reads_mono (reads_evidenceAnswer a) (by decide)

theorem shallow_blob (n : Nat) (bytes : List UInt8) : Shallow n (Blob.toJson bytes) :=
  shallow_string n _

theorem shallow_identity (i : Identity) : Shallow 1 i.toValue :=
  shallow_object (by simp [shallow_string])

theorem shallow_format (f : Format) : Shallow 1 f.toValue :=
  shallow_object (by simp [shallow_string, shallow_ofNat])

theorem shallow_option (o : OptionDescriptor) : Shallow 1 o.toValue :=
  shallow_object (by simp [DataType.toValue, shallow_string])

theorem shallow_evidenceRequest (r : EvidenceRequest) : Shallow 1 r.toValue :=
  shallow_object (by simp [shallow_string, shallow_blob])

theorem shallow_answer : ∀ (q : Query) (a : q.Answer), Shallow 3 (q.answerValue a)
  | .identity, ⟨status, identity⟩ => by
    refine shallow_object fun m hm => ?_
    obtain rfl | hm := List.mem_cons.mp hm
    · exact shallow_mono (shallow_status status) (by decide)
    · obtain ⟨i, _, rfl⟩ := Option.map_eq_some_iff.mp (Option.mem_toList.mp hm)
      exact shallow_mono (shallow_identity i) (by decide)
  | .formats, a => by
    have hs := shallow_mono (shallow_status a.status) (by decide : 1 ≤ 2)
    have hfs := shallow_array (List.forall_mem_map.mpr fun f (_ : f ∈ a.formats) =>
      shallow_format f)
    exact shallow_object (by simp [hs, hfs])
  | .options, a => by
    have hs := shallow_mono (shallow_status a.status) (by decide : 1 ≤ 2)
    have hos := shallow_array (List.forall_mem_map.mpr fun o (_ : o ∈ a.options) =>
      shallow_option o)
    exact shallow_object (by simp [hs, hos])
  | .evidence _, a => by
    have hs := shallow_mono (shallow_status a.status) (by decide : 1 ≤ 2)
    exact shallow_object (by simp [hs, shallow_blob])

end Attestation.Proofs.AnswerText
