import Attestation.Proofs.JsonDocuments
import Attestation.Proofs.JsonText
import Attestation.Proofs.ReportText
import Mathlib.Data.List.Forall2

namespace Attestation.Proofs.ReportJson

open Json JsonGrammar JsonDocuments JsonText Utf8Encoding ReportText

section writing

/-- The fields that are there, in order, as texts. -/
def fields (r : Report) : List (String × String) :=
  [("provider", r.provider)] ++
  (r.serviceProvider.map fun s => ("service_provider", s)).toList ++
  [("outblob", Base64.encode Base64.standard r.outBlob),
    ("auxblob", Base64.encode Base64.standard r.auxBlob)] ++
  (r.manifestBlob.map fun b => ("manifestblob", Base64.encode Base64.standard b)).toList

/-- A member whose name and value are the texts of a pair. -/
inductive SaysField : List Piece × Phrase → String × String → Prop
  | of {k ps : List Piece} {name s : String} (hk : text k = some name) (hs : text ps = some s) :
      SaysField (k, .string ps) (name, s)

/-- An object of these fields, in their order. -/
inductive SaysFields : Phrase → List (String × String) → Prop
  | of {ms : List (List Piece × Phrase)} {fs : List (String × String)}
      (h : List.Forall₂ SaysField ms fs) : SaysFields (.object ms) fs

theorem toValue_eq (r : Report) :
    r.toValue = .object ((fields r).map fun f => (f.1, .string f.2)) := by
  simp only [Report.toValue, fields, Blob.toJson, List.map_append, List.map_cons, List.map_nil]
  cases r.serviceProvider <;> cases r.manifestBlob <;> rfl

theorem exact_toValue (r : Report) : Exact r.toValue := (shallow_report r).exact

theorem string_of_tree {d : Phrase} {s : String} (h : d.tree = .string (some s)) :
    ∃ ps, d = .string ps ∧ text ps = some s := by
  cases d with
  | string ps => exact ⟨ps, rfl, Tree.string.inj h⟩
  | _ => cases h

theorem saysFields_of_members {ms : List (List Piece × Phrase)} {fs : List (String × String)}
    (h : Phrase.memberTrees ms =
      Value.memberTreesOf (fs.map fun f => (f.1, Value.string f.2))) :
    List.Forall₂ SaysField ms fs := by
  induction fs generalizing ms with
  | nil =>
    cases ms with
    | nil => exact .nil
    | cons m ms => cases h
  | cons f fs ih =>
    cases ms with
    | nil => cases h
    | cons m ms =>
      obtain ⟨hm, hms⟩ := List.cons.inj h
      obtain ⟨hk, hd⟩ := Prod.mk.inj hm
      obtain ⟨ps, hps, hs⟩ := string_of_tree hd
      obtain ⟨k, d⟩ := m
      cases hps
      exact .cons (.of hk hs) (ih hms)

theorem saysFields_of_tree {d : Phrase} {fs : List (String × String)}
    (h : d.tree = (Value.object (fs.map fun f => (f.1, .string f.2))).toTree) :
    SaysFields d fs := by
  cases d with
  | object ms => exact .of (saysFields_of_members (Tree.object.inj h).1)
  | _ => cases h

theorem toJson_of_valid {r : Report} (hv : r.valid = .ok ()) :
    r.toJson = .ok r.toValue.render := by
  rw [Report.toJson, hv]
  rfl

theorem toJson_of_invalid {r : Report} {e : Token.Error} (hv : r.valid = .error e) :
    r.toJson = .error e := by
  rw [Report.toJson, hv]
  rfl

theorem valid_of_toJson {r : Report} {cs : List Char} (h : r.toJson = .ok cs) :
    r.valid = .ok () := by
  cases hv : r.valid with
  | error e => cases (toJson_of_invalid hv).symm.trans h
  | ok u => rfl

theorem spells_toJson {r : Report} {cs : List Char} (h : r.toJson = .ok cs) :
    ∃ d, Spells d (bytesOf cs) ∧ SaysFields d (fields r) := by
  cases (toJson_of_valid (valid_of_toJson h)).symm.trans h
  obtain ⟨d, hd, htree⟩ := (read_iff _ _).mp (read_render r.toValue (exact_toValue r))
  rw [toValue_eq] at htree
  exact ⟨d, hd, saysFields_of_tree htree⟩

end writing

theorem valid_of_ofJson {data : List UInt8} {r : Report} (h : Report.ofJson data = .ok r) :
    r.valid = .ok () := by
  unfold Report.ofJson at h
  split at h
  · cases h
  · rename_i r' _
    cases hv : r'.valid with
    | error e =>
      rw [hv] at h
      cases h
    | ok u =>
      rw [hv] at h
      cases h
      exact hv

/-- A report is written iff it is valid, as one object of its fields, which is read as the report.
A report that is read from any document is valid, and is read again from what is written for
it. -/
theorem documents_survive (r : Report) :
    (∀ e, r.toJson = .error e ↔ r.valid = .error e) ∧
    ((∃ cs, r.toJson = .ok cs) ↔ r.valid = .ok ()) ∧
    (∀ cs, r.toJson = .ok cs →
      (∃ d, Spells d (bytesOf cs) ∧ SaysFields d (fields r)) ∧
      Report.ofJson (bytesOf cs) = .ok r) ∧
    ∀ data, Report.ofJson data = .ok r →
      r.valid = .ok () ∧ ∃ cs, r.toJson = .ok cs ∧ Report.ofJson (bytesOf cs) = .ok r := by
  refine ⟨fun e => ⟨fun h => ?_, toJson_of_invalid⟩,
    ⟨fun ⟨_, h⟩ => valid_of_toJson h, fun h => ⟨_, toJson_of_valid h⟩⟩,
    fun cs h => ⟨spells_toJson h, ofJson_toJson h⟩, fun data h => ?_⟩
  · cases hv : r.valid with
    | error e' =>
      cases (toJson_of_invalid hv).symm.trans h
      rfl
    | ok u => cases (toJson_of_valid hv).symm.trans h
  · have hwritten := toJson_of_valid (valid_of_ofJson h)
    exact ⟨valid_of_ofJson h, _, hwritten, ofJson_toJson hwritten⟩

/-- A document with its fields in another order, blanks, escapes and a member that is not known, and
one that is an array. -/
theorem documents_survive_reordered :
    let r : Report := ⟨"a\"\n", some "", [7], [1], none⟩
    let reordered := bytesOf "\x7b \"auxblob\":\"A\\u0051==\",\"x\":[1e999,\x7b\x7d],
      \"outblob\":\"Bw==\",\"service_provider\":\"\" ,\"provider\":\"a\\\"\\n\"\x7d".toList
    let array := bytesOf "[\"a\\u0022\\u000a\",\"\",\"Bw==\",\"AQ==\"]".toList
    let written := "\x7b\"provider\":\"a\\\"\\n\",\"service_provider\":\"\",".toList ++
      "\"outblob\":\"Bw==\",\"auxblob\":\"AQ==\"\x7d".toList
    (Report.ofJson reordered = .ok r ∧ Report.ofJson array = .ok r ∧ r.toJson = .ok written) ∧
      ((∃ d, Spells d (bytesOf written) ∧ SaysFields d (fields r)) ∧
        Report.ofJson (bytesOf written) = .ok r) ∧
      r.valid = .ok () := by
  intro r reordered array written
  have hreordered : Report.ofJson reordered = .ok r := by decide +kernel
  have harray : Report.ofJson array = .ok r := by decide +kernel
  have hwritten : r.toJson = .ok written := by decide +kernel
  obtain ⟨-, -, hwrite, hagain⟩ := documents_survive r
  exact ⟨⟨hreordered, harray, hwritten⟩, hwrite written hwritten, (hagain reordered hreordered).1⟩

end Attestation.Proofs.ReportJson
