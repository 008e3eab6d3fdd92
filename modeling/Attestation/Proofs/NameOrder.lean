import Attestation.Proofs.Utf8Encoding

namespace Attestation.Proofs.NameOrder

open Text Utf8Encoding

/-- Bytes that differ at a place in both, where the first ones are less. -/
inductive Below : List UInt8 → List UInt8 → Prop
  | here {a b : UInt8} {as bs : List UInt8} (h : a < b) : Below (a :: as) (b :: bs)
  | later {a : UInt8} {as bs : List UInt8} (h : Below as bs) : Below (a :: as) (a :: bs)

variable {as bs : List UInt8}

theorem lt_of_below (h : Below as bs) (more more' : List UInt8) : as ++ more < bs ++ more' := by
  induction h with
  | here h => exact List.cons_lt_cons_iff.mpr (.inl h)
  | later _ ih => exact List.cons_lt_cons_iff.mpr (.inr ⟨rfl, ih⟩)

theorem below_here {m n : Nat} (h : m < n) (hn : n < 256) :
    Below (UInt8.ofNat m :: as) (UInt8.ofNat n :: bs) := by
  refine .here (UInt8.lt_iff_toNat_lt.mpr ?_)
  rw [UInt8.toNat_ofNat', UInt8.toNat_ofNat']
  omega

theorem below_later {m n : Nat} (h : m = n) (hs : Below as bs) :
    Below (UInt8.ofNat m :: as) (UInt8.ofNat n :: bs) := by
  subst h
  exact .later hs

inductive Encoded : Nat → List UInt8 → Prop
  | one {n : Nat} (h : n < 0x80) : Encoded n [.ofNat n]
  | two {n : Nat} (h : 0x80 ≤ n) (h' : n < 0x800) :
      Encoded n [.ofNat (n / 64 + 0xC0), .ofNat (n % 64 + 0x80)]
  | three {n : Nat} (h : 0x800 ≤ n) (h' : n < 0x10000) :
      Encoded n [.ofNat (n / 4096 + 0xE0), .ofNat (n / 64 % 64 + 0x80), .ofNat (n % 64 + 0x80)]
  | four {n : Nat} (h : 0x10000 ≤ n) (h' : n < 0x110000) :
      Encoded n [.ofNat (n / 262144 + 0xF0), .ofNat (n / 4096 % 64 + 0x80),
        .ofNat (n / 64 % 64 + 0x80), .ofNat (n % 64 + 0x80)]

theorem encoded_char (c : Char) : Encoded c.toNat (String.utf8EncodeChar c) := by
  have hv := not_surrogate c
  have hc : c.val.toNat = c.toNat := rfl
  unfold String.utf8EncodeChar
  simp only [hc]
  split
  · exact .one (by omega)
  · split
    · rw [Nat.mod_eq_of_lt (by omega : c.toNat / 64 < 32)]
      exact .two (by omega) (by omega)
    · split
      · rw [Nat.mod_eq_of_lt (by omega : c.toNat / 4096 < 16)]
        exact .three (by omega) (by omega)
      · rw [Nat.mod_eq_of_lt (by omega : c.toNat / 262144 < 8)]
        exact .four (by omega) (by omega)

theorem below_of_lt {m n : Nat} (hm : Encoded m as) (hn : Encoded n bs) (h : m < n) :
    Below as bs := by
  cases hm with
  | one hm => cases hn <;> exact below_here (by omega) (by omega)
  | two hm hm' =>
    cases hn with
    | one hn => omega
    | two hn hn' =>
      obtain h | ⟨h, h'⟩ : m / 64 < n / 64 ∨ m / 64 = n / 64 ∧ m % 64 < n % 64 := by omega
      · exact below_here (by omega) (by omega)
      · exact below_later (by omega) (below_here (by omega) (by omega))
    | three hn hn' | four hn hn' => exact below_here (by omega) (by omega)
  | three hm hm' =>
    cases hn with
    | one hn | two hn hn' => omega
    | three hn hn' =>
      obtain h | ⟨h, h' | ⟨h', h''⟩⟩ : m / 4096 < n / 4096 ∨ m / 4096 = n / 4096 ∧
          (m / 64 % 64 < n / 64 % 64 ∨ m / 64 % 64 = n / 64 % 64 ∧ m % 64 < n % 64) := by omega
      · exact below_here (by omega) (by omega)
      · exact below_later (by omega) (below_here (by omega) (by omega))
      · exact below_later (by omega) (below_later (by omega) (below_here (by omega) (by omega)))
    | four hn hn' => exact below_here (by omega) (by omega)
  | four hm hm' =>
    cases hn with
    | one hn | two hn hn' | three hn hn' => omega
    | four hn hn' =>
      obtain h | ⟨h, h' | ⟨h', h'' | ⟨h'', h'''⟩⟩⟩ :
          m / 262144 < n / 262144 ∨ m / 262144 = n / 262144 ∧
            (m / 4096 % 64 < n / 4096 % 64 ∨ m / 4096 % 64 = n / 4096 % 64 ∧
              (m / 64 % 64 < n / 64 % 64 ∨ m / 64 % 64 = n / 64 % 64 ∧ m % 64 < n % 64)) := by
        omega
      · exact below_here (by omega) (by omega)
      · exact below_later (by omega) (below_here (by omega) (by omega))
      · exact below_later (by omega) (below_later (by omega) (below_here (by omega) (by omega)))
      · exact below_later (by omega) (below_later (by omega) (below_later (by omega)
          (below_here (by omega) (by omega))))

theorem bytesOf_lt {cs ds : List Char} (h : cs < ds) : bytesOf cs < bytesOf ds := by
  induction h with
  | @nil d ds =>
    have hd := encoded_char d
    rw [bytesOf_nil, bytesOf_cons]
    generalize String.utf8EncodeChar d = first at hd
    cases hd <;> exact List.nil_lt_cons _ _
  | @rel c cs d ds h =>
    rw [bytesOf_cons, bytesOf_cons]
    exact lt_of_below (below_of_lt (encoded_char c) (encoded_char d) h) _ _
  | @cons c cs ds h ih =>
    rw [bytesOf_cons, bytesOf_cons]
    exact List.append_left_lt ih

/-- Texts in ascending order are so byte by byte. -/
theorem encode_lt {s t : String} (h : s < t) : Utf8.encode s < Utf8.encode t :=
  bytesOf_lt (String.lt_iff.mp h)

end Attestation.Proofs.NameOrder
