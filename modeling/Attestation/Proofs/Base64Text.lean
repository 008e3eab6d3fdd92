import Attestation.Proofs.Base64Padding
import Attestation.Proofs.CmwText
import Attestation.Proofs.NonceText

namespace Attestation.Proofs.Base64Text

open Base64 Base64Decoding Base64Encoding Base64Padding Cmw CmwText Compositor JsonText NonceText
  Utf8Encoding

def letters : List Char := "ABCDEFGHIJKLMNOPQRSTUVWXYZabcdefghijklmnopqrstuvwxyz0123456789".toList

def standardSymbols : List Char := letters ++ ['+', '/']

def urlSymbols : List Char := letters ++ ['-', '_']

/-- So many digits of a number to the base of sixty-four, the lowest one last. -/
def digits (symbols : List Char) : Nat → Nat → List Char
  | 0, _ => []
  | k + 1, n => digits symbols k (n / 64) ++ [symbols.getD (n % 64) '=']

/-- Each three bytes are written as four digits of their number. A last group of one byte or two
has zeros for the bits that it lacks, and `fill` in the place of the digits that it lacks. -/
def groups (symbols fill : List Char) : List UInt8 → List Char
  | [] => []
  | [a] => digits symbols 2 (a.toNat * 16) ++ fill ++ fill
  | [a, b] => digits symbols 3 ((a.toNat * 256 + b.toNat) * 4) ++ fill
  | a :: b :: c :: rest =>
    digits symbols 4 ((a.toNat * 256 + b.toNat) * 256 + c.toNat) ++ groups symbols fill rest

def standardText (bytes : List UInt8) : List Char := groups standardSymbols ['='] bytes

def urlText (bytes : List UInt8) : List Char := groups urlSymbols [] bytes

section digits

theorem first_toNat : ∀ a : UInt8, (first a).toNat = a.toNat / 4 := forall_byte (by decide)

theorem fourth_toNat : ∀ c : UInt8, (fourth c).toNat = c.toNat % 64 := forall_byte (by decide)

theorem or_high : ∀ m < 4, ∀ n < 16,
    (UInt8.ofNat (m * 16) ||| UInt8.ofNat n).toNat = m * 16 + n := by decide

theorem or_low : ∀ m < 16, ∀ n < 4,
    (UInt8.ofNat (m * 4) ||| UInt8.ofNat n).toNat = m * 4 + n := by decide

theorem second_toNat (a b : UInt8) : (second a b).toNat = a.toNat % 4 * 16 + b.toNat / 16 := by
  have ha := forall_byte (P := fun a => (a &&& 0x03) <<< 4 = UInt8.ofNat (a.toNat % 4 * 16))
    (by decide) a
  have hb := forall_byte (P := fun b => b >>> 4 = UInt8.ofNat (b.toNat / 16)) (by decide) b
  have hlt := b.toNat_lt
  rw [second, ha, hb]
  exact or_high _ (by omega) _ (by omega)

theorem third_toNat (b c : UInt8) : (third b c).toNat = b.toNat % 16 * 4 + c.toNat / 64 := by
  have hb := forall_byte (P := fun b => (b &&& 0x0F) <<< 2 = UInt8.ofNat (b.toNat % 16 * 4))
    (by decide) b
  have hc := forall_byte (P := fun c => c >>> 6 = UInt8.ofNat (c.toNat / 64)) (by decide) c
  have hlt := c.toNat_lt
  rw [third, hb, hc]
  exact or_low _ (by omega) _ (by omega)

def Writes (v : Variant) (symbols : List Char) : Prop :=
  ∀ n < 64, Char.ofNat (v.symbol n).toNat = symbols.getD n.toNat '='

theorem writes_standard : Writes standard standardSymbols :=
  forall_sextet (P := fun n =>
    Char.ofNat (standard.symbol n).toNat = standardSymbols.getD n.toNat '=') (by decide)

theorem writes_urlSafe : Writes urlSafe urlSymbols :=
  forall_sextet (P := fun n =>
    Char.ofNat (urlSafe.symbol n).toNat = urlSymbols.getD n.toNat '=') (by decide)

variable {v : Variant} {symbols fill : List Char}

theorem digits_two (hw : Writes v symbols) (a : UInt8) :
    [first a, second a 0].map (fun n => Char.ofNat (v.symbol n).toNat) =
      digits symbols 2 (a.toNat * 16) := by
  have ha := a.toNat_lt
  have h1 : (first a).toNat = a.toNat * 16 / 64 % 64 := by
    rw [first_toNat]
    omega
  have h2 : (second a 0).toNat = a.toNat * 16 % 64 := by
    rw [second_toNat, UInt8.toNat_zero]
    omega
  simp only [List.map_cons, List.map_nil, hw _ (first_lt a), hw _ (second_lt a 0), h1, h2, digits,
    List.nil_append, List.cons_append]

theorem digits_three (hw : Writes v symbols) (a b : UInt8) :
    [first a, second a b, third b 0].map (fun n => Char.ofNat (v.symbol n).toNat) =
      digits symbols 3 ((a.toNat * 256 + b.toNat) * 4) := by
  have ha := a.toNat_lt
  have hb := b.toNat_lt
  have h1 : (first a).toNat = (a.toNat * 256 + b.toNat) * 4 / 64 / 64 % 64 := by
    rw [first_toNat]
    omega
  have h2 : (second a b).toNat = (a.toNat * 256 + b.toNat) * 4 / 64 % 64 := by
    rw [second_toNat]
    omega
  have h3 : (third b 0).toNat = (a.toNat * 256 + b.toNat) * 4 % 64 := by
    rw [third_toNat, UInt8.toNat_zero]
    omega
  simp only [List.map_cons, List.map_nil, hw _ (first_lt a), hw _ (second_lt a b),
    hw _ (third_lt b 0), h1, h2, h3, digits, List.nil_append, List.cons_append]

theorem digits_four (hw : Writes v symbols) (a b c : UInt8) :
    [first a, second a b, third b c, fourth c].map (fun n => Char.ofNat (v.symbol n).toNat) =
      digits symbols 4 ((a.toNat * 256 + b.toNat) * 256 + c.toNat) := by
  have ha := a.toNat_lt
  have hb := b.toNat_lt
  have hc := c.toNat_lt
  have h1 : (first a).toNat =
      ((a.toNat * 256 + b.toNat) * 256 + c.toNat) / 64 / 64 / 64 % 64 := by
    rw [first_toNat]
    omega
  have h2 : (second a b).toNat =
      ((a.toNat * 256 + b.toNat) * 256 + c.toNat) / 64 / 64 % 64 := by
    rw [second_toNat]
    omega
  have h3 : (third b c).toNat = ((a.toNat * 256 + b.toNat) * 256 + c.toNat) / 64 % 64 := by
    rw [third_toNat]
    omega
  have h4 : (fourth c).toNat = ((a.toNat * 256 + b.toNat) * 256 + c.toNat) % 64 := by
    rw [fourth_toNat]
    omega
  simp only [List.map_cons, List.map_nil, hw _ (first_lt a), hw _ (second_lt a b),
    hw _ (third_lt b c), hw _ (fourth_lt c), h1, h2, h3, h4, digits, List.nil_append,
    List.cons_append]

theorem toList_encode (hw : Writes v symbols)
    (hone : (pads v 1).map (fun b => Char.ofNat b.toNat) = fill)
    (htwo : (pads v 2).map (fun b => Char.ofNat b.toNat) = fill ++ fill) (bytes : List UInt8) :
    (encode v bytes).toList = groups symbols fill bytes := by
  rw [encode, String.toList_ofList]
  induction bytes using groups_induction with
  | nil => rfl
  | single a =>
    rw [encodeBytes_single, List.map_append, List.map_map, htwo, ← List.append_assoc, groups,
      ← digits_two hw]
    rfl
  | pair a b =>
    rw [encodeBytes_pair, List.map_append, List.map_map, hone, groups, ← digits_three hw]
    rfl
  | group a b c rest ih =>
    rw [encodeBytes_cons, groups, ← digits_four hw, ← ih]
    rfl

theorem encode_standard (bytes : List UInt8) :
    (encode standard bytes).toList = standardText bytes :=
  toList_encode writes_standard rfl rfl bytes

theorem encode_urlSafe (bytes : List UInt8) : (encode urlSafe bytes).toList = urlText bytes :=
  toList_encode writes_urlSafe rfl rfl bytes

end digits

section readers

variable {s : String} {bytes : List UInt8}

theorem ofText_standard_iff {wrap : String → String} :
    Blob.ofText standard wrap s = .ok bytes ↔ s.toList = standardText bytes := by
  rw [ofText_eq_ok_iff, decode_eq_ok_iff_encode standard_sound standard_tight, ← encode_standard,
    String.toList_inj]

theorem recordBytes_iff :
    recordBytes s = .ok bytes ↔ ∃ k, s.toList = urlText bytes ++ List.replicate k '=' := by
  rw [recordBytes_eq_ok_iff, encode_urlSafe]

theorem decodeNonce_iff : decodeNonce s = .ok bytes ↔
    bytes ≠ [] ∧ ∃ k, s.toList = urlText bytes ++ List.replicate k '=' := by
  simp only [decodeNonce_eq_ok_iff, ← String.toList_inj, toList_spelling, encode_urlSafe]

end readers

section policies

variable {ε : Type} {read : String → Except ε (List UInt8)} {admits : List UInt8 → Prop}

/-- A reader that has one text for bytes. -/
structure Strict (read : String → Except ε (List UInt8)) : Prop where
  accepts : ∀ s bytes, read s = .ok bytes ↔ s.toList = standardText bytes
  unique : ∀ s s' bytes, read s = .ok bytes → read s' = .ok bytes → s = s'

/-- A reader that has one text for bytes that it admits, with any number of `=` behind it. -/
structure Lenient (read : String → Except ε (List UInt8)) (admits : List UInt8 → Prop) :
    Prop where
  accepts : ∀ s bytes, read s = .ok bytes ↔
    admits bytes ∧ ∃ k, s.toList = urlText bytes ++ List.replicate k '='
  unique : ∀ s s' bytes, read s = .ok bytes → read s' = .ok bytes →
    ∃ body k k', s.toList = body ++ List.replicate k '=' ∧
      s'.toList = body ++ List.replicate k' '='

theorem Strict.of_accepts
    (h : ∀ s bytes, read s = .ok bytes ↔ s.toList = standardText bytes) : Strict read where
  accepts := h
  unique s s' bytes hs hs' := by
    have htext := (h s bytes).mp hs
    have htext' := (h s' bytes).mp hs'
    exact String.toList_inj.mp (htext.trans htext'.symm)

theorem Lenient.of_accepts (h : ∀ s bytes, read s = .ok bytes ↔
    admits bytes ∧ ∃ k, s.toList = urlText bytes ++ List.replicate k '=') :
    Lenient read admits where
  accepts := h
  unique s s' bytes hs hs' := by
    obtain ⟨_, k, hk⟩ := (h s bytes).mp hs
    obtain ⟨_, k', hk'⟩ := (h s' bytes).mp hs'
    exact ⟨urlText bytes, k, k', hk, hk'⟩

end policies

/-- The bytes of a record that is read from a media type, a text and, possibly, an indicator. -/
def recordValue (p : Json.Place) (mediaType : String) (indicator : Option UInt64)
    (encoded : String) : Except Json.Fault (List UInt8) :=
  (recordOfItems p (Json.Value.treesOf ([.string mediaType, .string encoded] ++
    (indicator.map Json.Value.ofNat).toList)) true).map (·.value)

theorem recordValue_eq (p : Json.Place) (mediaType : String) (indicator : Option UInt64)
    (encoded : String) : recordValue p mediaType indicator encoded = recordBytes encoded := by
  rw [recordValue, recordOfItems_strings]
  cases recordBytes encoded <;> rfl

/-- What is written, as a document or as a nonce, is read back. -/
structure ReadBack : Prop where
  ofJson : ∀ bytes, Json.Decoder.run Blob.ofJson (bytesOf (Blob.toJson bytes).render) = .ok bytes
  ofJsonText : ∀ bytes,
    Json.Decoder.run Blob.ofJsonText (bytesOf (Blob.toJson bytes).render) = .ok bytes
  record : ∀ r : Record, Json.Decoder.run recordOfTree (bytesOf r.toValue.render) = .ok r
  nonce : ∀ bytes, bytes ≠ [] → ∀ k,
    decodeNonce (String.ofList (urlText bytes ++ List.replicate k '=')) = .ok bytes

theorem readBack : ReadBack where
  ofJson bytes := by
    rw [run_render _ (Blob.toJson bytes) trivial]
    exact ofText_standard_iff.mpr (encode_standard bytes)
  ofJsonText bytes := by
    rw [run_render _ (Blob.toJson bytes) trivial]
    exact ofText_standard_iff.mpr (encode_standard bytes)
  record r := by
    rw [run_render _ r.toValue (exact_toValue (.record r))]
    exact recordOfItems_toValue _ r
  nonce bytes hne k := decodeNonce_iff.mpr ⟨hne, k, String.toList_ofList⟩

/-- Whoever reads bytes from a text has one text for them, up to padding that does not count, and
reads what is written. -/
theorem one_spelling (p : Json.Place) (mediaType : String) (indicator : Option UInt64) :
    Strict (fun s => Blob.ofJson p (.string (some s))) ∧
    Strict (fun s => Blob.ofJsonText p (.string (some s))) ∧
    Lenient (recordValue p mediaType indicator) (fun _ => True) ∧
    Lenient decodeNonce (· ≠ []) ∧ ReadBack := by
  refine ⟨.of_accepts ?_, .of_accepts ?_, .of_accepts ?_, .of_accepts ?_, readBack⟩
  · intro s bytes
    exact ofText_standard_iff
  · intro s bytes
    exact ofText_standard_iff
  · intro s bytes
    rw [recordValue_eq, recordBytes_iff, true_and]
  · intro s bytes
    exact decodeNonce_iff

/-- Too much padding behind a nonce is nothing to a strict reader. -/
theorem one_spelling_overfull : decodeNonce "AQ===" = .ok [1] ∧
    Blob.ofJsonText ⟨.text, 0⟩ (.string (some "AQ===")) ≠ .ok [1] := by
  obtain ⟨-, hstrict, -, hlenient, -⟩ := one_spelling ⟨.text, 0⟩ "text/plain" none
  constructor
  · exact (hlenient.accepts "AQ===" [1]).mpr ⟨List.cons_ne_nil 1 [], 3, rfl⟩
  · intro hread
    exact absurd ((hstrict.accepts "AQ===" [1]).mp hread) (by decide)

end Attestation.Proofs.Base64Text
