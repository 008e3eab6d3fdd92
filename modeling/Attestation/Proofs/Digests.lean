import Mathlib.Data.List.Forall2
import Attestation.Plugin.Checksums
import Attestation.Proofs.JsonRecords
import Attestation.Proofs.Tables
import Attestation.Proofs.Utf8Encoding

namespace Attestation.Proofs.Digests

open Plugin JsonRecords Tables Utf8Encoding

section digits

def lower (b : UInt8) : Char := (Char.ofNat b.toNat).toLower

def pair (b : UInt8) : List Char := [Hex.digit (b >>> 4), Hex.digit (b &&& 0x0F)]

theorem encode_eq (bytes : List UInt8) :
    Hex.encode bytes = String.ofList (bytes.flatMap pair) := rfl

theorem value?_some {b v : UInt8} (h : Hex.value? b = some v) :
    b < 0x80 ∧ v < 16 ∧ lower b = Hex.digit v := by
  have hall : ∀ b : UInt8, (Hex.value? b).all
      (fun v => decide (b < 0x80 ∧ v < 16 ∧ lower b = Hex.digit v)) = true :=
    forall_byte (by decide)
  simpa [h] using hall b

theorem value?_of_digit : ∀ n < 0x80, ∀ v < 16,
    (Char.ofNat n).toLower = Hex.digit (UInt8.ofNat v) →
    Hex.value? (UInt8.ofNat n) = some (UInt8.ofNat v) := by
  decide

theorem pair_join {h l : UInt8} (hh : h < 16) (hl : l < 16) :
    pair (h * 16 + l) = [Hex.digit h, Hex.digit l] := by
  have hall : ∀ m < 16, ∀ n < 16, pair (UInt8.ofNat m * 16 + UInt8.ofNat n) =
      [Hex.digit (UInt8.ofNat m), Hex.digit (UInt8.ofNat n)] := by decide
  have hjoin := hall h.toNat hh l.toNat hl
  rwa [UInt8.ofNat_toNat, UInt8.ofNat_toNat] at hjoin

theorem split_byte : ∀ b : UInt8, (b >>> 4) < 16 ∧ (b &&& 0x0F) < 16 ∧
    (b >>> 4) * 16 + (b &&& 0x0F) = b :=
  forall_byte (by decide)

theorem pairs_sound {digits : List UInt8} (heven : digits.length % 2 = 0) {offset : Nat}
    {read bytes : List UInt8} (h : Hex.pairs offset read digits = .ok bytes) :
    ∃ rest, bytes = read.reverse ++ rest ∧ digits.map lower = rest.flatMap pair ∧
      ∀ b ∈ digits, b < 0x80 := by
  fun_induction Hex.pairs offset read digits with
  | case1 offset read hi lo digits v w hw hv ih =>
    obtain ⟨rest, rfl, hrest, hascii⟩ := ih (by simp only [List.length_cons] at heven; omega) h
    obtain ⟨hhi, hv16, hvd⟩ := value?_some hv
    obtain ⟨hlo, hw16, hwd⟩ := value?_some hw
    refine ⟨(v * 16 + w) :: rest, by simp, ?_, ?_⟩
    · rw [List.map_cons, List.map_cons, hvd, hwd, hrest, List.flatMap_cons, pair_join hv16 hw16]
      rfl
    · exact List.forall_mem_cons.mpr ⟨hhi, List.forall_mem_cons.mpr ⟨hlo, hascii⟩⟩
  | case2 => cases h
  | case3 => cases h
  | case4 digits offset read hshort =>
    cases h
    -- A single digit at the end would be left out, but the number of digits is even.
    match digits with
    | [] => exact ⟨[], (List.append_nil _).symm, rfl, nofun⟩
    | [b] => cases heven
    | hi :: lo :: rest => exact (hshort hi lo rest rfl).elim

theorem value?_of_lower {c : Char} (hc : c.toNat < 0x80) {v : UInt8} (hv : v < 16)
    (h : c.toLower = Hex.digit v) : Hex.value? (UInt8.ofNat c.toNat) = some v := by
  have hdigit := value?_of_digit c.toNat hc v.toNat hv
  rw [UInt8.ofNat_toNat, Char.ofNat_toNat] at hdigit
  exact hdigit h

theorem toLower_ascii {c : Char} (h : c.toLower.toNat < 0x80) : c.toNat < 0x80 := by
  unfold Char.toLower at h
  split at h
  · rename_i hupper
    have hle : c.toNat ≤ 90 := hupper.2
    omega
  · exact h

theorem pair_ascii (b : UInt8) : ∀ c ∈ pair b, c.toNat < 0x80 := by
  have hall : ∀ b : UInt8, (pair b).all (fun c => decide (c.toNat < 0x80)) = true :=
    forall_byte (by decide)
  simpa using hall b

theorem pairs_complete {cs : List Char} {bytes : List UInt8}
    (h : cs.map Char.toLower = bytes.flatMap pair) (hascii : ∀ c ∈ cs, c.toNat < 0x80)
    (offset : Nat) (read : List UInt8) :
    Hex.pairs offset read (cs.map fun c => UInt8.ofNat c.toNat) = .ok (read.reverse ++ bytes) := by
  induction bytes generalizing cs offset read with
  | nil =>
    obtain rfl := List.map_eq_nil_iff.mp h
    rw [List.append_nil]
    rfl
  | cons b bytes ih =>
    match cs with
    | [] => cases h
    | [c] => simp [pair] at h
    | hi :: lo :: cs =>
      obtain ⟨hv16, hw16, hjoin⟩ := split_byte b
      simp only [List.map_cons, List.flatMap_cons, pair, List.cons_append, List.nil_append,
        List.cons.injEq] at h
      obtain ⟨hhi, hlo, hrest⟩ := h
      simp only [List.forall_mem_cons] at hascii
      rw [List.map_cons, List.map_cons, Hex.pairs, value?_of_lower hascii.1 hv16 hhi,
        value?_of_lower hascii.2.1 hw16 hlo]
      simp only [hjoin]
      rw [ih hrest hascii.2.2]
      simp

theorem length_pairs (bytes : List UInt8) : (bytes.flatMap pair).length = 2 * bytes.length := by
  induction bytes with
  | nil => rfl
  | cons b bytes ih =>
    rw [List.flatMap_cons, List.length_append, ih, List.length_cons]
    simp only [pair, List.length_cons, List.length_nil]
    omega

theorem bytesOf_eq_map {cs : List Char} (h : ∀ c ∈ cs, c.toNat < 0x80) :
    bytesOf cs = cs.map fun c => UInt8.ofNat c.toNat := by
  rw [bytesOf, List.flatMap_congr fun c hc => encodeChar_ascii (h c hc), List.map_eq_flatMap]

theorem decode_eq_ok_iff {text : String} {bytes : List UInt8} :
    Hex.decode (Text.Utf8.encode text) = .ok bytes ↔ text.toLower = Hex.encode bytes := by
  have hlower : text.toLower = String.ofList (text.toList.map Char.toLower) := by
    rw [← String.toList_inj, String.toList_ofList]
    exact String.toList_map
  rw [hlower, encode_eq, String.ofList_inj]
  constructor
  · intro h
    unfold Hex.decode at h
    split at h
    · cases h
    rename_i heven
    obtain ⟨rest, rfl, hrest, hascii⟩ := pairs_sound (by omega) h
    -- The digits are ASCII, so the text has one character for each of its bytes.
    have htext : text = String.ofList ((Text.Utf8.encode text).map fun b => Char.ofNat b.toNat) :=
      encode_injective ((encode_ofList _).trans (bytesOf_ascii _ hascii)).symm
    rw [htext, String.toList_ofList, List.map_map]
    exact hrest
  · intro h
    have hascii : ∀ c ∈ text.toList, c.toNat < 0x80 := by
      intro c hc
      have hmem : c.toLower ∈ bytes.flatMap pair := h ▸ List.mem_map_of_mem hc
      obtain ⟨b, -, hb⟩ := List.mem_flatMap.mp hmem
      exact toLower_ascii (pair_ascii b _ hb)
    have hencode : Text.Utf8.encode text = text.toList.map fun c => UInt8.ofNat c.toNat :=
      bytesOf_eq_map hascii
    have hlength : text.toList.length = 2 * bytes.length := by
      rw [← length_pairs, ← h, List.length_map]
    have heven : ¬ (text.toList.map fun c => UInt8.ofNat c.toNat).length % 2 = 1 := by
      rw [List.length_map, hlength]
      omega
    rw [hencode, Hex.decode, if_neg heven, pairs_complete h hascii]
    rfl

end digits

/-- A text for a digest: the hexadecimal digits of so many bytes, with blanks around them. -/
structure Spells (text : String) (digest : List UInt8) : Prop where
  digits : (Text.trim text).toLower = Hex.encode digest
  size : digest.length = 32

theorem digest_eq_ok_iff {name text : String} {digest : List UInt8} :
    Checksums.digest name text = .ok digest ↔ Spells text digest := by
  unfold Checksums.digest
  constructor
  · intro h
    split at h
    · cases h
    · rename_i bytes hbytes
      split at h
      · rename_i hsize
        cases h
        exact ⟨decode_eq_ok_iff.mp hbytes, hsize⟩
      · cases h
  · intro h
    rw [decode_eq_ok_iff.mpr h.digits]
    exact if_pos h.size

theorem spells_unique {text : String} {d d' : List UInt8} (h : Spells text d)
    (h' : Spells text d') : d = d' := by
  have hd : Checksums.digest "" text = .ok d := digest_eq_ok_iff.mpr h
  cases hd.symm.trans (digest_eq_ok_iff.mpr h')
  rfl

section tables

variable {pairs : List (String × String)} {table : Checksums} {stem : String}

/-- The digest that the last text for a stem spells. -/
def Registered (pairs : List (String × String)) (stem : String) (digest : List UInt8) : Prop :=
  ∃ before text after, pairs = before ++ (stem, text) :: after ∧
    (∀ m ∈ after, m.1 ≠ stem) ∧ Spells text digest

def Reads (m : String × String) (d : String × List UInt8) : Prop :=
  d.1 = m.1 ∧ Spells m.2 d.2

theorem ofPairs_reads (h : Checksums.ofPairs pairs = .ok table) :
    ∃ digests, table = Table.ofList digests ∧ List.Forall₂ Reads pairs digests := by
  obtain ⟨digests, hdigests, htable⟩ := (bind_ok_iff _ _ _).mp h
  cases htable
  refine ⟨digests, rfl, ?_⟩
  clear h
  induction pairs generalizing digests with
  | nil =>
    cases hdigests
    exact .nil
  | cons m pairs ih =>
    rw [List.mapM_cons] at hdigests
    obtain ⟨d, hd, hrest⟩ := (bind_ok_iff _ _ _).mp hdigests
    obtain ⟨digest, hdigest, hpair⟩ := (bind_ok_iff _ _ _).mp hd
    obtain ⟨digests, htail, hall⟩ := (bind_ok_iff _ _ _).mp hrest
    cases hpair
    cases hall
    exact .cons ⟨rfl, digest_eq_ok_iff.mp hdigest⟩ (ih digests htail)

theorem find?_reads {digests : Checksums} (h : List.Forall₂ Reads pairs digests) (stem : String) :
    (Table.find? digests stem = none ↔ Table.find? pairs stem = none) ∧
    ∀ digest, Table.find? digests stem = some digest ↔
      ∃ text, Table.find? pairs stem = some text ∧ Spells text digest := by
  induction h with
  | nil => simp [Table.find?]
  | @cons m d pairs digests hm _ ih =>
    obtain ⟨name, text⟩ := m
    obtain ⟨name', digest⟩ := d
    obtain ⟨rfl, hspells⟩ := hm
    rw [find?_cons, find?_cons]
    by_cases hname : name' = stem
    · rw [if_pos hname, if_pos hname]
      refine ⟨by simp, fun d => ⟨?_, ?_⟩⟩
      · intro hd
        cases hd
        exact ⟨text, rfl, hspells⟩
      · rintro ⟨text', htext, hd⟩
        cases htext
        exact congrArg some (spells_unique hspells hd)
    · rw [if_neg hname, if_neg hname]
      exact ih

theorem find?_ofPairs (h : Checksums.ofPairs pairs = .ok table) (stem : String) :
    (Table.find? table stem = none ↔ stem ∉ pairs.map (·.1)) ∧
    ∀ digest, Table.find? table stem = some digest ↔ Registered pairs stem digest := by
  obtain ⟨digests, rfl, hreads⟩ := ofPairs_reads h
  obtain ⟨hnone, hsome⟩ := find?_reads (List.rel_reverse hreads) stem
  rw [find?_ofList]
  constructor
  · rw [hnone, find?_eq_none_iff]
    simp only [List.mem_reverse, List.mem_map, not_exists, not_and, ne_eq]
  · intro digest
    rw [hsome]
    constructor
    · rintro ⟨text, htext, hspells⟩
      obtain ⟨after, before, hpairs, hafter⟩ := find?_eq_some_iff.mp htext
      refine ⟨before.reverse, text, after.reverse, ?_, ?_, hspells⟩
      · rw [← List.reverse_reverse pairs, hpairs]
        simp
      · exact fun m hm => hafter m (List.mem_reverse.mp hm)
    · rintro ⟨before, text, after, rfl, hafter, hspells⟩
      refine ⟨text, find?_eq_some_iff.mpr ⟨after.reverse, before.reverse, by simp, ?_⟩, hspells⟩
      exact fun m hm => hafter m (List.mem_reverse.mp hm)

end tables

end Attestation.Proofs.Digests
