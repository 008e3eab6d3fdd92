import Attestation.Proofs.CborPrefixes
import Attestation.Proofs.CmwText
import Attestation.Proofs.ReportCbor
import Attestation.Proofs.ReportJson

namespace Attestation.Proofs.Truncation

open Cbor CborPrefixes Json JsonGrammar JsonDocuments JsonText ReportCbor Utf8Encoding

/-- The beginning of some bytes, but not all of them. -/
def Cut (p bytes : List UInt8) : Prop := p <+: bytes ∧ p ≠ bytes

theorem exists_of_cut {p bytes : List UInt8} (h : Cut p bytes) :
    ∃ t, bytes = p ++ t ∧ t ≠ [] := by
  obtain ⟨⟨t, rfl⟩, hne⟩ := h
  refine ⟨t, rfl, ?_⟩
  rintro rfl
  exact hne (List.append_nil p).symm

section cbor

theorem prompt_report : Prompt (record Report.empty Report.cborSlots) := by
  refine prompt_record ?_ Report.empty
  simp only [PromptSlots, Report.cborSlots, List.forall_mem_cons, List.not_mem_nil,
    false_implies, implies_true, and_true]
  exact ⟨fun _ _ => extends_slot prompt_text _,
    fun _ _ => extends_slot (prompt_optional prompt_text) _,
    fun _ _ => extends_slot prompt_blob _, fun _ _ => extends_slot prompt_blob _,
    fun _ _ => extends_slot (prompt_optional prompt_blob) _⟩

theorem ofCbor_cut {r : Report} (hr : Storable r) {bytes p : List UInt8}
    (hw : r.toCbor = .ok bytes) (hp : Cut p bytes) :
    ∃ e, Report.ofCbor p = .error (.cborDecode e) := by
  obtain ⟨t, rfl, ht⟩ := exists_of_cut hp
  cases hread : record Report.empty Report.cborSlots Cbor.maxDepth p with
  | error e =>
    refine ⟨e, ?_⟩
    rw [Report.ofCbor, run, hread]
    rfl
  | ok found =>
    obtain ⟨r', rest⟩ := found
    have hmore := prompt_report Cbor.maxDepth t p r' rest hread
    have hwhole := reads_report 255 r (p ++ t) [] (encodes_toCbor hr hw)
    rw [List.append_nil] at hwhole
    have hrest := congrArg Prod.snd (Except.ok.inj (hmore.symm.trans hwhole))
    exact absurd (List.append_eq_nil_iff.mp hrest).2 ht

end cbor

section json

theorem value_object_spelled {d : Phrase} {bs : List UInt8} (h : SpellsBare d (0x7B :: bs))
    {fuel : Nat} (hf : bs.length < fuel) (rest : List UInt8) :
    Reader.value fuel (0x7B :: bs ++ rest) = (d.tree, some rest) := by
  rw [List.cons_append]
  obtain ⟨fuel, rfl⟩ : ∃ n, fuel = n + 1 := ⟨fuel - 1, by omega⟩
  cases h with
  | number h =>
    have hread := number_spelled h 0 ends_nil
    rw [List.append_nil, value_object, Reader.members] at hread
    cases congrArg Prod.snd hread
  | string h => cases h
  | @emptyObject g hg =>
    rw [List.length_append, List.length_singleton] at hf
    obtain ⟨fuel, rfl⟩ : ∃ n, fuel = n + 1 := ⟨fuel - 1, by omega⟩
    rw [value_object, List.append_assoc, members_gap hg]
    exact members_close fuel [] rest
  | @object ms bs h =>
    rw [List.length_append, List.length_singleton] at hf
    rw [value_object, List.append_assoc]
    exact members_spelled h fuel [] rest (by omega)

/-- The text of an object, cut short, is no document: its closing brace would come early. -/
theorem not_spells_cut {ms : List (String × Value)} (hv : Exact (.object ms)) {p : List UInt8}
    (hp : Cut p (bytesOf (Value.object ms).render)) (d : Phrase) : ¬Spells d p := by
  obtain ⟨t, ht, hne⟩ := exists_of_cut hp
  have hwhole := value_render (.object ms) hv _ [] (Nat.le_refl _) nofun
  rw [List.append_nil, ht] at hwhole
  rw [bytesOf_object] at ht
  rintro ⟨hg, h, hg'⟩
  rename_i g bs g'
  have hfirst : g = [] := by
    cases g with
    | nil => rfl
    | cons b g =>
      cases (List.cons.inj ht).1
      cases hg _ (List.mem_cons_self ..)
  subst hfirst
  cases bs with
  | nil => cases length_bare h
  | cons b bs =>
    obtain ⟨rfl, -⟩ := List.cons.inj ht
    rw [List.nil_append, List.append_assoc] at hwhole
    have hf : bs.length < (0x7B :: bs ++ (g' ++ t)).length := by
      rw [List.length_append, List.length_cons]
      omega
    have hread := value_object_spelled h hf (g' ++ t)
    have hrest := Option.some.inj (congrArg Prod.snd (hread.symm.trans hwhole))
    exact hne (List.append_eq_nil_iff.mp hrest).2

theorem run_cut {α : Type} (dec : Json.Decoder α) {ms : List (String × Value)}
    (hv : Exact (.object ms)) {p : List UInt8} (hp : Cut p (bytesOf (Value.object ms).render)) :
    ∃ f, Decoder.run dec p = .error f := by
  cases hrun : Decoder.run dec p with
  | error f => exact ⟨f, rfl⟩
  | ok a =>
    obtain ⟨d, hd⟩ := exists_spelled hrun
    exact absurd hd (not_spells_cut hv hp d)

end json

theorem reports_ofJson_cut {r : Report} {cs : List Char} (hw : r.toJson = .ok cs)
    {p : List UInt8} (hp : Cut p (bytesOf cs)) : ∃ f, Report.ofJson p = .error (.json f) := by
  cases (ReportJson.toJson_of_valid (ReportJson.valid_of_toJson hw)).symm.trans hw
  obtain ⟨f, hf⟩ := run_cut Report.record.decode (ReportJson.exact_toValue r) hp
  refine ⟨f, ?_⟩
  rw [Report.ofJson, hf]

theorem collections_ofJson_cut (c : Cmw.Collection) {p : List UInt8}
    (hp : Cut p (bytesOf c.toJson)) : ∃ f, Cmw.Collection.ofJson p = .error (.json f) := by
  obtain ⟨f, hf⟩ := run_cut Cmw.collectionOfTree (CmwText.exact_toValue c.toCmw) hp
  refine ⟨f, ?_⟩
  rw [Cmw.Collection.ofJson, hf]

/-- Nothing is read from an encoding that was cut short, wherever the cut is: that the end is
missing is found before the fields are looked at. -/
theorem truncation_detected :
    (∀ r : Report, r.valid = .ok () → Storable r → ∃ bytes, r.toCbor = .ok bytes ∧
      ∀ p, Cut p bytes → ∃ e, Report.ofCbor p = .error (.cborDecode e)) ∧
    (∀ r : Report, r.valid = .ok () → ∃ cs, r.toJson = .ok cs ∧
      ∀ p, Cut p (bytesOf cs) → ∃ f, Report.ofJson p = .error (.json f)) ∧
    ∀ (c : Cmw.Collection) (p : List UInt8), Cut p (bytesOf c.toJson) →
      ∃ f, Cmw.Collection.ofJson p = .error (.json f) := by
  refine ⟨fun r hv hr => ?_, fun r hv => ?_, fun c p => collections_ofJson_cut c⟩
  · exact ⟨_, ReportCbor.toCbor_of_valid hv, fun p => ofCbor_cut hr (ReportCbor.toCbor_of_valid hv)⟩
  · exact ⟨_, ReportJson.toJson_of_valid hv,
      fun p => reports_ofJson_cut (ReportJson.toJson_of_valid hv)⟩

/-- The optional members are cut off, between two members or just before the closing byte. -/
theorem truncation_detected_between_members :
    let r : Report := ⟨"tdx_guest", none, [7], [1], none⟩
    let bytes := [0xA3, 0x68] ++ Text.Utf8.encode "provider" ++ [0x69] ++
      Text.Utf8.encode "tdx_guest" ++ [0x67] ++ Text.Utf8.encode "outblob" ++ [0x41, 7, 0x67] ++
      Text.Utf8.encode "auxblob" ++ [0x41, 1]
    let written := "\x7b\"provider\":\"tdx_guest\",".toList ++
      "\"outblob\":\"Bw==\",\"auxblob\":\"AQ==\"\x7d".toList
    let c : Cmw.Collection := .empty "tag:example.com,2024:c"
    (r.valid = .ok () ∧ Storable r ∧ r.toCbor = .ok bytes ∧ r.toJson = .ok written) ∧
      (∃ e, Report.ofCbor (bytes.take 30) = .error (.cborDecode e)) ∧
      (∃ f, Report.ofJson (bytesOf written).dropLast = .error (.json f)) ∧
      ∃ f, Cmw.Collection.ofJson (bytesOf c.toJson).dropLast = .error (.json f) := by
  intro r bytes written c
  have hv : r.valid = .ok () := by decide
  have hr : Storable r := ⟨by decide, nofun, by decide, by decide, nofun⟩
  have hcbor : r.toCbor = .ok bytes := by decide +kernel
  have hjson : r.toJson = .ok written := by decide +kernel
  obtain ⟨hreports, hdocuments, hcollections⟩ := truncation_detected
  obtain ⟨bytes', hbytes, hcut⟩ := hreports r hv hr
  cases hcbor.symm.trans hbytes
  obtain ⟨written', hwritten, hcut'⟩ := hdocuments r hv
  cases hjson.symm.trans hwritten
  exact ⟨⟨hv, hr, hcbor, hjson⟩, hcut _ ⟨List.take_prefix _ _, by decide⟩,
    hcut' _ ⟨List.dropLast_prefix _, by decide +kernel⟩,
    hcollections c _ ⟨List.dropLast_prefix _, by decide +kernel⟩⟩

end Attestation.Proofs.Truncation
