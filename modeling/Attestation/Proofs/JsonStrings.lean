import Attestation.Json.Reader
import Attestation.Json.Value
import Attestation.Proofs.Utf8Encoding

namespace Attestation.Proofs.JsonStrings

open Json Json.Reader Utf8Encoding
open Json.Value (escapedChar unicodeEscape)

def draft (bytes : List UInt8) : Draft := ⟨bytes, none, true⟩

/-- A byte that stands for itself in a string. -/
def Plain (b : UInt8) : Prop := b ≠ 0x22 ∧ b ≠ 0x5C ∧ ¬ b < 0x20

instance (b : UInt8) : Decidable (Plain b) := inferInstanceAs (Decidable (_ ∧ _))

theorem plain_of_all {bs : List UInt8} (h : bs.all fun b => decide (Plain b)) :
    ∀ b ∈ bs, Plain b :=
  fun b hb => of_decide_eq_true (List.all_eq_true.mp h b hb)

theorem string_plain (done : List UInt8) (bs rest : List UInt8) (h : ∀ b ∈ bs, Plain b) :
    string (draft done) .plain (bs ++ rest) = string (draft (bs.reverse ++ done)) .plain rest := by
  induction bs generalizing done with
  | nil => rfl
  | cons b bs ih =>
    obtain ⟨hq, hs, hc⟩ := h b (by simp)
    have hpush : (draft done).push b = draft (b :: done) := rfl
    rw [List.cons_append, string, if_neg hq, if_neg hs, if_neg hc, hpush,
      ih _ fun x hx => h x (by simp [hx])]
    simp

theorem plain_char {c : Char} (hc : 0x20 ≤ c.toNat) (hq : c ≠ '"') (hs : c ≠ '\\') :
    ∀ b ∈ String.utf8EncodeChar c, Plain b := by
  by_cases ha : c.toNat < 0x80
  · have hb : (UInt8.ofNat c.toNat).toNat = c.toNat := by
      rw [UInt8.toNat_ofNat']
      omega
    have hne : ∀ d : Char, c ≠ d → c.toNat ≠ d.toNat := fun d hd he => hd (Char.toNat_inj.mp he)
    intro b hmem
    rw [encodeChar_ascii ha, List.mem_singleton] at hmem
    subst b
    rw [Plain, ne_eq, ne_eq, ← UInt8.toNat_inj, ← UInt8.toNat_inj, UInt8.lt_iff_toNat_lt, hb]
    exact ⟨hne _ hq, hne _ hs, Nat.not_lt.mpr hc⟩
  · intro b hb
    have hhigh := UInt8.le_iff_toNat_le.mp (encodeChar_high (by omega) b hb)
    have h80 : (0x80 : UInt8).toNat = 0x80 := rfl
    refine ⟨?_, ?_, ?_⟩
    · rintro rfl
      revert hhigh
      decide
    · rintro rfl
      revert hhigh
      decide
    · rw [UInt8.lt_iff_toNat_lt]
      have h20 : (0x20 : UInt8).toNat = 0x20 := rfl
      omega

theorem string_escape (done : List UInt8) (b e : UInt8) (rest : List UInt8) (hu : e ≠ 0x75)
    (he : escape? e = some b) :
    string (draft done) .plain (0x5C :: e :: rest) = string (draft (b :: done)) .plain rest := by
  rw [string, if_neg (by decide), if_pos rfl, string, if_neg hu, he]
  rfl

theorem hexValue_digit : ∀ k < 16, hexValue? (UInt8.ofNat (Nat.digitChar k).toNat) = some k := by
  decide

theorem digitChar_ascii : ∀ k < 16, (Nat.digitChar k).toNat < 0x80 := by
  decide

theorem string_number (d : Draft) (left value : Nat) (b : UInt8) (rest : List UInt8) (v : Nat)
    (hv : hexValue? b = some v) :
    string d (.number (left + 2) value) (b :: rest) =
      string d (.number (left + 1) (value * 16 + v)) rest := by
  have hl : ¬ left + 2 = 1 := by omega
  rw [string, hv]
  simp only [if_neg hl]
  rfl

theorem string_lastNumber (d : Draft) (value : Nat) (b : UInt8) (rest : List UInt8) (v : Nat)
    (hv : hexValue? b = some v) :
    string d (.number 1 value) (b :: rest) =
      string (d.pushUnit (value * 16 + v)) .plain rest := by
  rw [string, hv]
  simp only [if_true]

theorem pushUnit_draft (done : List UInt8) (c : Char) (hc : c.toNat < 0xD800) :
    (draft done).pushUnit c.toNat = draft ((String.utf8EncodeChar c).reverse ++ done) := by
  have h1 : ¬ (0xD800 ≤ c.toNat ∧ c.toNat ≤ 0xDBFF) := by omega
  have h2 : ¬ (0xDC00 ≤ c.toNat ∧ c.toNat ≤ 0xDFFF) := by omega
  simp only [draft, Draft.pushUnit, if_neg h1, if_neg h2, Draft.pushChar, Char.ofNat_toNat]

theorem string_unicodeEscape (done : List UInt8) (c : Char) (hc : c.toNat < 0x20)
    (rest : List UInt8) :
    string (draft done) .plain (bytesOf (unicodeEscape c) ++ rest) =
      string (draft ((String.utf8EncodeChar c).reverse ++ done)) .plain rest := by
  have hbytes : bytesOf (unicodeEscape c) = [0x5C, 0x75, 0x30, 0x30,
      UInt8.ofNat (Nat.digitChar (c.toNat / 16)).toNat,
      UInt8.ofNat (Nat.digitChar (c.toNat % 16)).toNat] := by
    simp only [unicodeEscape, bytesOf_cons, bytesOf_nil,
      encodeChar_ascii (digitChar_ascii (c.toNat / 16) (by omega)),
      encodeChar_ascii (digitChar_ascii (c.toNat % 16) (by omega))]
    rfl
  have hunit : (((0 * 16 + 0) * 16 + 0) * 16 + c.toNat / 16) * 16 + c.toNat % 16 = c.toNat := by
    omega
  rw [hbytes]
  simp only [List.cons_append, List.nil_append]
  rw [string, if_neg (by decide), if_pos rfl, string, if_pos rfl, string_number _ _ _ _ _ 0 rfl,
    string_number _ _ _ _ _ 0 rfl, string_number _ _ _ _ _ _ (hexValue_digit _ (by omega)),
    string_lastNumber _ _ _ _ _ (hexValue_digit _ (by omega)), hunit,
    pushUnit_draft _ _ (by omega)]

theorem string_escapedChar (done : List UInt8) (c : Char) (rest : List UInt8) :
    string (draft done) .plain (bytesOf (escapedChar c) ++ rest) =
      string (draft ((String.utf8EncodeChar c).reverse ++ done)) .plain rest := by
  unfold escapedChar
  split
  · exact string_escape done 0x22 0x22 rest (by decide) rfl
  · exact string_escape done 0x5C 0x5C rest (by decide) rfl
  · exact string_escape done 0x08 0x62 rest (by decide) rfl
  · exact string_escape done 0x0C 0x66 rest (by decide) rfl
  · exact string_escape done 0x0A 0x6E rest (by decide) rfl
  · exact string_escape done 0x0D 0x72 rest (by decide) rfl
  · exact string_escape done 0x09 0x74 rest (by decide) rfl
  · rename_i hq hs _ _ _ _ _
    split
    · rename_i hc
      exact string_unicodeEscape done c hc rest
    · rename_i hc
      rw [bytesOf_cons, bytesOf_nil, List.append_nil]
      exact string_plain done _ rest (plain_char (by omega) hq hs)

theorem string_escapedChars (done : List UInt8) (cs : List Char) (rest : List UInt8) :
    string (draft done) .plain (bytesOf (cs.flatMap escapedChar) ++ rest) =
      string (draft ((bytesOf cs).reverse ++ done)) .plain rest := by
  induction cs generalizing done with
  | nil => rfl
  | cons c cs ih =>
    rw [List.flatMap_cons, bytesOf_append, List.append_assoc, string_escapedChar, ih, bytesOf_cons,
      List.reverse_append, List.append_assoc]

/-- From behind its opening quote a written string is read to its closing quote. -/
theorem string_text (s : String) (rest : List UInt8) :
    string .start .plain (bytesOf (s.toList.flatMap escapedChar ++ ['"']) ++ rest) =
      some (some s, rest) := by
  have h := string_escapedChars [] s.toList (0x22 :: rest)
  have hfinish : (draft (bytesOf s.toList).reverse).finish? = some s := by
    simp [draft, Draft.finish?, decode?_bytesOf]
  rw [bytesOf_append, List.append_assoc]
  change string (draft []) .plain (_ ++ 0x22 :: rest) = _
  rw [h, List.append_nil, string, if_pos rfl, hfinish]

end Attestation.Proofs.JsonStrings
