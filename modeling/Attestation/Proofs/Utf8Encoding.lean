import Attestation.Text.Utf8

namespace Attestation.Proofs.Utf8Encoding

open Text Text.Utf8

theorem forall_byte {P : UInt8 → Prop} (h : ∀ m < 16, ∀ n < 16, P (UInt8.ofNat (16 * m + n)))
    (b : UInt8) : P b := by
  have hlt := b.toNat_lt
  have hb := h (b.toNat / 16) (by omega) (b.toNat % 16) (by omega)
  rwa [Nat.div_add_mod, UInt8.ofNat_toNat] at hb

theorem ofByte_one : ∀ k < 0x80, Lead.ofByte (UInt8.ofNat k) = .whole (Char.ofNat k) := by
  decide

theorem ofByte_two : ∀ k < 32, 2 ≤ k →
    Lead.ofByte (UInt8.ofNat (k + 0xC0)) = .opens ⟨k, 1, 0x80, 0xBF⟩ := by
  decide

theorem ofByte_three : ∀ k < 16, Lead.ofByte (UInt8.ofNat (k + 0xE0)) =
    .opens ⟨k, 2, if k = 0 then 0xA0 else 0x80, if k = 13 then 0x9F else 0xBF⟩ := by
  decide

theorem ofByte_four : ∀ k < 5, Lead.ofByte (UInt8.ofNat (k + 0xF0)) =
    .opens ⟨k, 3, if k = 0 then 0x90 else 0x80, if k = 4 then 0x8F else 0xBF⟩ := by
  decide

theorem low_bits : ∀ k < 64, (UInt8.ofNat (k + 0x80) &&& 0x3F).toNat = k := by
  decide

theorem feed_opening (read : List (Option Char)) {b : UInt8} {p : Pending}
    (h : Lead.ofByte b = .opens p) : Reader.feed ⟨read, none⟩ b = ⟨read, some p⟩ := by
  simp only [Reader.feed, Reader.first, h]

theorem continues {low high : UInt8} {k : Nat} (hk : k < 64) (hl : low.toNat ≤ k + 0x80)
    (hh : k + 0x80 ≤ high.toNat) :
    low ≤ UInt8.ofNat (k + 0x80) ∧ UInt8.ofNat (k + 0x80) ≤ high := by
  have hb : (UInt8.ofNat (k + 0x80)).toNat = k + 0x80 := by
    rw [UInt8.toNat_ofNat']
    omega
  rw [UInt8.le_iff_toNat_le, UInt8.le_iff_toNat_le, hb]
  exact ⟨hl, hh⟩

theorem feed_next (read : List (Option Char)) (value left : Nat) (low high : UInt8) (k : Nat)
    (hk : k < 64) (hl : low.toNat ≤ k + 0x80) (hh : k + 0x80 ≤ high.toNat) :
    Reader.feed ⟨read, some ⟨value, left + 2, low, high⟩⟩ (UInt8.ofNat (k + 0x80)) =
      ⟨read, some ⟨value * 64 + k, left + 1, 0x80, 0xBF⟩⟩ := by
  have hin := continues hk hl hh
  have hleft : ¬ left + 2 = 1 := by omega
  simp only [Reader.feed, if_pos hin, low_bits k hk, if_neg hleft]
  rfl

theorem feed_last (read : List (Option Char)) (value : Nat) (low high : UInt8) (k : Nat)
    (hk : k < 64) (hl : low.toNat ≤ k + 0x80) (hh : k + 0x80 ≤ high.toNat) :
    Reader.feed ⟨read, some ⟨value, 1, low, high⟩⟩ (UInt8.ofNat (k + 0x80)) =
      ⟨some (Char.ofNat (value * 64 + k)) :: read, none⟩ := by
  have hin := continues hk hl hh
  simp only [Reader.feed, if_pos hin, low_bits k hk, if_true]

theorem not_surrogate (c : Char) : c.toNat < 0xD800 ∨ 0xE000 ≤ c.toNat ∧ c.toNat < 0x110000 := by
  have h : c.val.toNat < 0xD800 ∨ 0xDFFF < c.val.toNat ∧ c.val.toNat < 0x110000 := c.valid
  simp only [Char.toNat]
  omega

/-- The bytes of a character, fed where a character begins, leave exactly this character. -/
theorem feed_char (c : Char) (read : List (Option Char)) :
    (String.utf8EncodeChar c).foldl Reader.feed ⟨read, none⟩ = ⟨some c :: read, none⟩ := by
  have hv := not_surrogate c
  have hc : Char.ofNat c.toNat = c := Char.ofNat_toNat c
  generalize hn : c.toNat = n at hv hc
  have hval : c.val.toNat = n := hn
  unfold String.utf8EncodeChar
  simp only [hval]
  split
  · have h1 := ofByte_one n (by omega)
    simp only [List.foldl_cons, List.foldl_nil, Reader.feed, Reader.first, h1, hc]
  · split
    · have h2 := ofByte_two (n / 64) (by omega) (by omega)
      have hm : n / 64 % 32 = n / 64 := Nat.mod_eq_of_lt (by omega)
      have he : n / 64 * 64 + n % 64 = n := by omega
      simp only [List.foldl_cons, List.foldl_nil, hm]
      rw [feed_opening _ h2, feed_last _ _ _ _ _ (by omega) (by simp) (by simp; omega), he, hc]
    · split
      · have h3 := ofByte_three (n / 4096) (by omega)
        have hm : n / 4096 % 16 = n / 4096 := Nat.mod_eq_of_lt (by omega)
        have he : (n / 4096 * 64 + n / 64 % 64) * 64 + n % 64 = n := by omega
        have hlow : (if n / 4096 = 0 then 0xA0 else 0x80 : UInt8).toNat ≤ n / 64 % 64 + 0x80 := by
          split <;> simp; omega
        have hhigh : n / 64 % 64 + 0x80 ≤
            (if n / 4096 = 13 then 0x9F else 0xBF : UInt8).toNat := by
          split <;> simp <;> omega
        simp only [List.foldl_cons, List.foldl_nil, hm]
        rw [feed_opening _ h3, feed_next _ _ 0 _ _ _ (by omega) hlow hhigh,
          feed_last _ _ _ _ _ (by omega) (by simp) (by simp; omega), he, hc]
      · have h4 := ofByte_four (n / 262144) (by omega)
        have hm : n / 262144 % 8 = n / 262144 := Nat.mod_eq_of_lt (by omega)
        have he : ((n / 262144 * 64 + n / 4096 % 64) * 64 + n / 64 % 64) * 64 + n % 64 = n := by
          omega
        have hlow : (if n / 262144 = 0 then 0x90 else 0x80 : UInt8).toNat ≤
            n / 4096 % 64 + 0x80 := by
          split <;> simp; omega
        have hhigh : n / 4096 % 64 + 0x80 ≤
            (if n / 262144 = 4 then 0x8F else 0xBF : UInt8).toNat := by
          split <;> simp <;> omega
        simp only [List.foldl_cons, List.foldl_nil, hm]
        rw [feed_opening _ h4, feed_next _ _ 1 _ _ _ (by omega) hlow hhigh,
          feed_next _ _ 0 _ _ _ (by omega) (by simp) (by simp; omega),
          feed_last _ _ _ _ _ (by omega) (by simp) (by simp; omega), he, hc]

def bytesOf (cs : List Char) : List UInt8 := cs.flatMap String.utf8EncodeChar

@[simp] theorem bytesOf_nil : bytesOf [] = [] := rfl

@[simp] theorem bytesOf_cons (c : Char) (cs : List Char) :
    bytesOf (c :: cs) = String.utf8EncodeChar c ++ bytesOf cs := List.flatMap_cons

@[simp] theorem bytesOf_append (cs ds : List Char) :
    bytesOf (cs ++ ds) = bytesOf cs ++ bytesOf ds := List.flatMap_append

theorem encode_ofList (cs : List Char) : encode (String.ofList cs) = bytesOf cs := by
  rw [encode, String.toList_ofList, bytesOf]

theorem encodeChar_ascii {c : Char} (hc : c.toNat < 0x80) :
    String.utf8EncodeChar c = [UInt8.ofNat c.toNat] := by
  have hle : c.val.toNat ≤ 0x7F := Nat.le_of_lt_succ hc
  simp only [String.utf8EncodeChar, if_pos hle]
  rfl

theorem encodeChar_high {c : Char} (hc : 0x80 ≤ c.toNat) :
    ∀ b ∈ String.utf8EncodeChar c, 0x80 ≤ b := by
  have hv := not_surrogate c
  have hgt : ¬ c.val.toNat ≤ 0x7F := Nat.not_le_of_gt hc
  intro b hb
  rw [UInt8.le_iff_toNat_le]
  change c.val.toNat < 0xD800 ∨ 0xE000 ≤ c.val.toNat ∧ c.val.toNat < 0x110000 at hv
  simp only [String.utf8EncodeChar, if_neg hgt] at hb
  split at hb
  · simp only [List.mem_cons, List.not_mem_nil, or_false] at hb
    obtain rfl | rfl := hb <;> rw [UInt8.toNat_ofNat'] <;> simp <;> omega
  · split at hb
    · simp only [List.mem_cons, List.not_mem_nil, or_false] at hb
      obtain rfl | rfl | rfl := hb <;> rw [UInt8.toNat_ofNat'] <;> simp <;> omega
    · simp only [List.mem_cons, List.not_mem_nil, or_false] at hb
      obtain rfl | rfl | rfl | rfl := hb <;> rw [UInt8.toNat_ofNat'] <;> simp <;> omega

theorem toNat_ofNat_ascii : ∀ n < 0x80, (Char.ofNat n).toNat = n := by
  decide

theorem bytesOf_ascii (bs : List UInt8) (h : ∀ b ∈ bs, b < 0x80) :
    bytesOf (bs.map fun b => Char.ofNat b.toNat) = bs := by
  induction bs with
  | nil => rfl
  | cons b bs ih =>
    have hb : b.toNat < 0x80 := UInt8.lt_iff_toNat_lt.mp (h b (by simp))
    have hn := toNat_ofNat_ascii b.toNat hb
    rw [List.map_cons, bytesOf_cons, encodeChar_ascii (by rw [hn]; exact hb), hn,
      UInt8.ofNat_toNat, ih fun x hx => h x (by simp [hx])]
    rfl

theorem feed_chars (cs : List Char) (read : List (Option Char)) :
    (bytesOf cs).foldl Reader.feed ⟨read, none⟩ = ⟨(cs.map some).reverse ++ read, none⟩ := by
  induction cs generalizing read with
  | nil => rfl
  | cons c cs ih =>
    rw [bytesOf_cons, List.foldl_append, feed_char, ih]
    simp

theorem characters_bytesOf (cs : List Char) : characters (bytesOf cs) = cs.map some := by
  rw [characters, Reader.start, feed_chars]
  simp [Reader.finish]

theorem decode?_bytesOf (cs : List Char) : decode? (bytesOf cs) = some (String.ofList cs) := by
  simp [decode?, characters_bytesOf, List.filterMap_map, Function.comp_def]

theorem decodeLossy_bytesOf (cs : List Char) : decodeLossy (bytesOf cs) = String.ofList cs := by
  simp [decodeLossy, characters_bytesOf, Function.comp_def]

theorem decode?_encode (s : String) : decode? (encode s) = some s := by
  have h := decode?_bytesOf s.toList
  rwa [String.ofList_toList] at h

theorem encode_injective {s t : String} (h : encode s = encode t) : s = t := by
  have hs := decode?_encode s
  rw [h, decode?_encode] at hs
  exact (Option.some.inj hs).symm

end Attestation.Proofs.Utf8Encoding
