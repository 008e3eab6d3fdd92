import Attestation.Proofs.CborItems
import Attestation.Proofs.CborSizes
import Attestation.Report
import Mathlib.Data.List.Forall2

namespace Attestation.Proofs.ReportCbor

open Cbor CborHeads CborItems CborSizes JsonRecords

/-- The length of every field fits a machine word. -/
structure Storable (r : Report) : Prop where
  provider : (Text.Utf8.encode r.provider).length < UInt64.size
  serviceProvider : ∀ s ∈ r.serviceProvider, (Text.Utf8.encode s).length < UInt64.size
  outBlob : r.outBlob.length < UInt64.size
  auxBlob : r.auxBlob.length < UInt64.size
  manifestBlob : ∀ b ∈ r.manifestBlob, b.length < UInt64.size

/-- The fields that are there under their names, the blobs as byte strings. -/
def fields (r : Report) : List (Item × Item) :=
  [(.text "provider", .text r.provider)] ++
  (r.serviceProvider.map fun s => (Item.text "service_provider", Item.text s)).toList ++
  [(.text "outblob", .bytes r.outBlob), (.text "auxblob", .bytes r.auxBlob)] ++
  (r.manifestBlob.map fun b => (Item.text "manifestblob", Item.bytes b)).toList

section encoding

theorem encodes_text {s : String} (h : (Text.Utf8.encode s).length < UInt64.size) :
    Encodes (.text s) (Report.encodeText s) :=
  .text (spells_encodeHead (by decide) h)

theorem encodes_blob {bytes : List UInt8} (h : bytes.length < UInt64.size) :
    Encodes (.bytes bytes) (Blob.toCbor bytes) :=
  .bytes (spells_encodeHead (by decide) h)

inductive Writes : String × List UInt8 → Item × Item → Prop
  | of {name : String} {bytes : List UInt8} {v : Item}
      (hn : (Text.Utf8.encode name).length < UInt64.size) (hv : Encodes v bytes) :
      Writes (name, bytes) (.text name, v)

theorem encodes_members {ms : List (String × List UInt8)} {ps : List (Item × Item)}
    (h : List.Forall₂ Writes ms ps) :
    EncodesMembers ps (ms.flatMap fun m => Report.encodeText m.1 ++ m.2) := by
  induction h with
  | nil => exact .nil
  | cons hm _ ih =>
    obtain ⟨hn, hv⟩ := hm
    rw [List.flatMap_cons, List.append_assoc]
    exact .cons (encodes_text hn) hv ih

theorem writes_optional {α : Type} {o : Option α} {f : α → String × List UInt8}
    {g : α → Item × Item} (h : ∀ a ∈ o, Writes (f a) (g a)) :
    List.Forall₂ Writes (o.map f).toList (o.map g).toList := by
  cases o with
  | none => exact .nil
  | some a => exact .cons (h a rfl) .nil

theorem writes_fields {r : Report} (hr : Storable r) :
    List.Forall₂ Writes r.cborMembers (fields r) := by
  have hservice := writes_optional (f := fun s => ("service_provider", Report.encodeText s))
    (g := fun s => (Item.text "service_provider", Item.text s)) fun s hs =>
      .of (by decide) (encodes_text (hr.serviceProvider s hs))
  have hmanifest := writes_optional (f := fun b => ("manifestblob", Blob.toCbor b))
    (g := fun b => (Item.text "manifestblob", Item.bytes b)) fun b hb =>
      .of (by decide) (encodes_blob (hr.manifestBlob b hb))
  have hprovider : List.Forall₂ Writes [("provider", Report.encodeText r.provider)]
      [(.text "provider", .text r.provider)] :=
    .cons (.of (by decide) (encodes_text hr.provider)) .nil
  have hblobs : List.Forall₂ Writes
      [("outblob", Blob.toCbor r.outBlob), ("auxblob", Blob.toCbor r.auxBlob)]
      [(.text "outblob", .bytes r.outBlob), (.text "auxblob", .bytes r.auxBlob)] :=
    .cons (.of (by decide) (encodes_blob hr.outBlob))
      (.cons (.of (by decide) (encodes_blob hr.auxBlob)) .nil)
  exact List.rel_append (List.rel_append (List.rel_append hprovider hservice) hblobs) hmanifest

theorem length_cborMembers_le (r : Report) : r.cborMembers.length ≤ 5 := by
  unfold Report.cborMembers
  cases r.serviceProvider <;> cases r.manifestBlob <;> simp

theorem toCbor_of_valid {r : Report} (hv : r.valid = .ok ()) :
    r.toCbor = .ok (encodeHead 5 r.cborMembers.length ++
      r.cborMembers.flatMap fun m => Report.encodeText m.1 ++ m.2) := by
  rw [Report.toCbor, hv]
  rfl

theorem toCbor_of_invalid {r : Report} {e : Token.Error} (hv : r.valid = .error e) :
    r.toCbor = .error e := by
  rw [Report.toCbor, hv]
  rfl

theorem valid_of_toCbor {r : Report} {bytes : List UInt8} (h : r.toCbor = .ok bytes) :
    r.valid = .ok () := by
  cases hv : r.valid with
  | error e => cases (toCbor_of_invalid hv).symm.trans h
  | ok u => rfl

/-- What is written is one map, of the fields that are there. -/
theorem encodes_toCbor {r : Report} (hr : Storable r) {bytes : List UInt8}
    (h : r.toCbor = .ok bytes) : Encodes (.map (fields r)) bytes := by
  have hwrites := writes_fields hr
  have hlength := length_cborMembers_le r
  have hhead : SpellsHead 5 r.cborMembers.length (encodeHead 5 r.cborMembers.length) :=
    spells_encodeHead (by decide) (Nat.lt_of_le_of_lt hlength (by decide))
  rw [toCbor_of_valid (valid_of_toCbor h)] at h
  cases h
  rw [hwrites.length_eq] at hhead ⊢
  exact .map hhead (encodes_members hwrites)

end encoding

section decoding

theorem fills_blobs (depth : Nat) {seen : List String}
    (hseen : "outblob" ∉ seen ∧ "auxblob" ∉ seen ∧ "manifestblob" ∉ seen) (provider : String)
    (serviceProvider : Option String) (outBlob auxBlob : List UInt8)
    (manifestBlob : Option (List UInt8)) :
    Fills Report.cborSlots depth seen ⟨provider, serviceProvider, [], [], none⟩
      ([(.text "outblob", .bytes outBlob), (.text "auxblob", .bytes auxBlob)] ++
        (manifestBlob.map fun b => (Item.text "manifestblob", Item.bytes b)).toList)
      ⟨provider, serviceProvider, outBlob, auxBlob, manifestBlob⟩ := by
  obtain ⟨hout, haux, hmanifest⟩ := hseen
  have haux' : "auxblob" ∉ "outblob" :: seen := List.not_mem_cons_of_ne_of_not_mem (by decide) haux
  cases manifestBlob with
  | none =>
    exact .cons rfl (by decide) hout (reads_blob depth outBlob)
      (.cons rfl (by decide) haux' (reads_blob depth auxBlob) (.nil _ _))
  | some b =>
    have hmanifest' : "manifestblob" ∉ "auxblob" :: "outblob" :: seen :=
      List.not_mem_cons_of_ne_of_not_mem (by decide)
        (List.not_mem_cons_of_ne_of_not_mem (by decide) hmanifest)
    exact .cons rfl (by decide) hout (reads_blob depth outBlob)
      (.cons rfl (by decide) haux' (reads_blob depth auxBlob)
        (.cons rfl (by decide) hmanifest' (reads_optional (reads_blob depth b)) (.nil _ _)))

theorem reads_report (depth : Nat) (r : Report) :
    Reads (record Report.empty Report.cborSlots) (depth + 1) (.map (fields r)) r := by
  obtain ⟨provider, serviceProvider, outBlob, auxBlob, manifestBlob⟩ := r
  refine reads_record ?_
  cases serviceProvider with
  | none =>
    exact .cons rfl (by decide) (by decide) (reads_text depth provider)
      (fills_blobs depth (by decide) provider none outBlob auxBlob manifestBlob)
  | some s =>
    exact .cons rfl (by decide) (by decide) (reads_text depth provider)
      (.cons rfl (by decide) (by decide) (reads_optional (reads_text depth s))
        (fills_blobs depth (by decide) provider (some s) outBlob auxBlob manifestBlob))

theorem ofCbor_toCbor {r : Report} (hr : Storable r) {bytes : List UInt8}
    (h : r.toCbor = .ok bytes) (t : List UInt8) : Report.ofCbor (bytes ++ t) = .ok r := by
  rw [Report.ofCbor, run_item (reads_report 255 r) (encodes_toCbor hr h) t]
  simp only [valid_of_toCbor h]
  rfl

theorem ofCbor_eq_ok {data : List UInt8} {r : Report} (h : Report.ofCbor data = .ok r) :
    run (record Report.empty Report.cborSlots) data = .ok r ∧ r.valid = .ok () := by
  unfold Report.ofCbor at h
  split at h
  · cases h
  · rename_i r' hrun
    cases hv : r'.valid with
    | error e =>
      rw [hv] at h
      cases h
    | ok u =>
      rw [hv] at h
      cases h
      exact ⟨hrun, hv⟩

theorem storable_of_run {data : List UInt8} (hdata : data.length < UInt64.size) {r : Report}
    (h : run (record Report.empty Report.cborSlots) data = .ok r) : Storable r := by
  have hempty : Storable Report.empty := ⟨by decide, nofun, by decide, by decide, nofun⟩
  have hlt : ∀ k ≤ data.length, k < UInt64.size := fun _ hk => Nat.lt_of_le_of_lt hk hdata
  have hslots : ∀ s ∈ Report.cborSlots, Keeps data.length Storable s := by
    simp only [Report.cborSlots, List.forall_mem_cons, List.not_mem_nil, false_implies,
      implies_true, and_true]
    refine ⟨keeps_of within_text ?_, keeps_of (within_optional within_text) ?_,
      keeps_of within_blob ?_, keeps_of within_blob ?_, keeps_of (within_optional within_blob) ?_⟩
    · exact fun s r hs hr => { hr with provider := hlt _ hs }
    · rintro o r ho hr
      refine { hr with serviceProvider := ?_ }
      rintro s ⟨⟩
      exact hlt _ ho
    · exact fun b r hb hr => { hr with outBlob := hlt _ hb }
    · exact fun b r hb hr => { hr with auxBlob := hlt _ hb }
    · rintro o r ho hr
      refine { hr with manifestBlob := ?_ }
      rintro b ⟨⟩
      exact hlt _ ho
  cases hread : record Report.empty Report.cborSlots maxDepth data with
  | error e =>
    rw [run, hread] at h
    cases h
  | ok found =>
    rw [run, hread] at h
    cases h
    exact record_keeps hslots (Nat.le_refl _) hempty hread

end decoding

/-- A report is written iff it is valid, as one map of its fields, which is read as the report
whatever follows it. A report that is read is valid, and is read again from what is written
for it. -/
theorem reports_survive (r : Report) :
    (∀ e, r.toCbor = .error e ↔ r.valid = .error e) ∧
    ((∃ bytes, r.toCbor = .ok bytes) ↔ r.valid = .ok ()) ∧
    (∀ bytes, Storable r → r.toCbor = .ok bytes →
      Encodes (.map (fields r)) bytes ∧ ∀ t, Report.ofCbor (bytes ++ t) = .ok r) ∧
    ∀ data : List UInt8, data.length < UInt64.size → Report.ofCbor data = .ok r →
      r.valid = .ok () ∧ ∃ bytes, r.toCbor = .ok bytes ∧ Report.ofCbor bytes = .ok r := by
  refine ⟨fun e => ⟨fun h => ?_, toCbor_of_invalid⟩,
    ⟨fun ⟨_, h⟩ => valid_of_toCbor h, fun h => ⟨_, toCbor_of_valid h⟩⟩,
    fun bytes hr h => ⟨encodes_toCbor hr h, ofCbor_toCbor hr h⟩, fun data hdata h => ?_⟩
  · cases hv : r.valid with
    | error e' =>
      cases (toCbor_of_invalid hv).symm.trans h
      rfl
    | ok u => cases (toCbor_of_valid hv).symm.trans h
  · obtain ⟨hrun, hv⟩ := ofCbor_eq_ok h
    have hagain := ofCbor_toCbor (storable_of_run hdata hrun) (toCbor_of_valid hv) []
    rw [List.append_nil] at hagain
    exact ⟨hv, _, toCbor_of_valid hv, hagain⟩

/-- A blob of a length that no first byte holds, and a manifest that is there but empty. -/
theorem reports_survive_empty_manifest :
    let r : Report := ⟨"tdx_guest", none, List.replicate 24 7, [1], some []⟩
    let bytes := [0xA4, 0x68] ++ Text.Utf8.encode "provider" ++ [0x69] ++
      Text.Utf8.encode "tdx_guest" ++ [0x67] ++ Text.Utf8.encode "outblob" ++ [0x58, 24] ++
      List.replicate 24 7 ++ [0x67] ++ Text.Utf8.encode "auxblob" ++ [0x41, 1] ++ [0x6C] ++
      Text.Utf8.encode "manifestblob" ++ [0x40]
    Encodes (.map (fields r)) bytes ∧ Report.ofCbor (bytes ++ [0xFF]) = .ok r ∧
      Report.ofCbor bytes = .ok r := by
  intro r bytes
  have hr : Storable r := ⟨by decide, nofun, by decide, by decide, by rintro _ ⟨⟩; decide⟩
  have hwritten : r.toCbor = .ok bytes := by decide +kernel
  have hread : Report.ofCbor bytes = .ok r := by decide +kernel
  obtain ⟨-, -, hwrite, hagain⟩ := reports_survive r
  obtain ⟨hitem, hany⟩ := hwrite bytes hr hwritten
  obtain ⟨-, bytes', hbytes', hread'⟩ := hagain bytes (by decide) hread
  cases hwritten.symm.trans hbytes'
  exact ⟨hitem, hany [0xFF], hread'⟩

end Attestation.Proofs.ReportCbor
