import Attestation.Cbor.Head

namespace Attestation.Proofs.CborHeads

open Cbor

/-- The head of a major type and a number, which stands in the first byte or in up to eight bytes
behind it. -/
inductive SpellsHead (major n : Nat) : List UInt8 → Prop
  | short (h : n < 24) : SpellsHead major n [UInt8.ofNat (32 * major + n)]
  | long {j : Nat} {tail : List UInt8} (hj : j < 4) (ht : tail.length = Nat.pow 2 j)
      (hn : bigEndian tail = n) : SpellsHead major n (UInt8.ofNat (32 * major + (24 + j)) :: tail)

theorem first_parts : ∀ major < 8, ∀ low < 32,
    (UInt8.ofNat (32 * major + low) &&& 0x1F).toNat = low ∧
      (UInt8.ofNat (32 * major + low) >>> 5).toNat = major := by
  decide

theorem take_append (front rest : List UInt8) :
    take front.length (front ++ rest) = .ok (front, rest) := by
  simp [take]

theorem argument_short {n : Nat} (hn : n < 24) (rest : List UInt8) :
    argument n rest = .ok (some n, rest) :=
  if_pos hn

theorem argument_long {j : Nat} {tail : List UInt8} (hj : j < 4)
    (ht : tail.length = Nat.pow 2 j) (rest : List UInt8) :
    argument (24 + j) (tail ++ rest) = .ok (some (bigEndian tail), rest) := by
  have htake := take_append tail rest
  rw [ht] at htake
  rw [argument, if_neg (by omega), if_pos (by omega), Nat.add_sub_cancel_left, htake]
  rfl

theorem ofBytes_cons {major low n : Nat} (hm : major < 8) (hl : low < 32) {tail rest : List UInt8}
    (h : argument low tail = .ok (some n, rest)) :
    Head.ofBytes (UInt8.ofNat (32 * major + low) :: tail) =
      (Head.ofMajor major low (some n)).map fun h => (h, rest) := by
  obtain ⟨hlow, hmajor⟩ := first_parts major hm low hl
  rw [Head.ofBytes]
  simp only [hlow, hmajor, h, bind, Except.bind]
  cases Head.ofMajor major low (some n) <;> rfl

theorem ofBytes_head {major n : Nat} (hm : major < 8) {head : List UInt8}
    (h : SpellsHead major n head) (rest : List UInt8) :
    ∃ low, Head.ofBytes (head ++ rest) =
      (Head.ofMajor major low (some n)).map fun h => (h, rest) := by
  cases h with
  | short hn => exact ⟨n, ofBytes_cons hm (by omega) (argument_short hn rest)⟩
  | @long j tail hj ht hn =>
    have harg := argument_long hj ht rest
    rw [hn] at harg
    exact ⟨24 + j, ofBytes_cons hm (by omega) harg⟩

def lowBytes (n width : Nat) : List UInt8 :=
  (List.range width).reverse.map fun i => UInt8.ofNat (n / Nat.pow 256 i % 256)

theorem length_lowBytes (n width : Nat) : (lowBytes n width).length = width := by
  simp [lowBytes]

theorem lowBytes_succ (n width : Nat) :
    lowBytes n (width + 1) = UInt8.ofNat (n / Nat.pow 256 width % 256) :: lowBytes n width := by
  simp [lowBytes, List.range_succ]

theorem foldl_lowBytes (n width m : Nat) :
    (lowBytes n width).foldl (fun n b => n * 256 + b.toNat) m =
      m * Nat.pow 256 width + n % Nat.pow 256 width := by
  induction width generalizing m with
  | zero => simp [lowBytes, Nat.mod_one]
  | succ width ih =>
    have hbyte : (UInt8.ofNat (n / Nat.pow 256 width % 256)).toNat =
        n / Nat.pow 256 width % 256 := by
      rw [UInt8.toNat_ofNat']
      omega
    have hmod : n % (Nat.pow 256 width * 256) =
        n % Nat.pow 256 width + Nat.pow 256 width * (n / Nat.pow 256 width % 256) :=
      Nat.mod_mul
    have hpow : Nat.pow 256 (width + 1) = Nat.pow 256 width * 256 := rfl
    rw [lowBytes_succ, List.foldl_cons, ih, hbyte, hpow, hmod, Nat.add_mul, Nat.mul_assoc,
      Nat.mul_comm 256, Nat.mul_comm (n / Nat.pow 256 width % 256)]
    omega

theorem bigEndian_lowBytes {n width : Nat} (h : n < Nat.pow 256 width) :
    bigEndian (lowBytes n width) = n := by
  rw [bigEndian, foldl_lowBytes, Nat.zero_mul, Nat.zero_add, Nat.mod_eq_of_lt h]

theorem first_eq : ∀ major < 8, ∀ low < 32,
    UInt8.ofNat major <<< 5 ||| UInt8.ofNat low = UInt8.ofNat (32 * major + low) := by
  decide

theorem spells_long {major n : Nat} (j : Nat) (hj : j < 4) (hn : n < Nat.pow 256 (Nat.pow 2 j)) :
    SpellsHead major n (UInt8.ofNat (32 * major + (24 + j)) :: lowBytes n (Nat.pow 2 j)) :=
  .long hj (length_lowBytes n _) (bigEndian_lowBytes hn)

theorem spells_encodeHead {major : Nat} (hm : major < 8) {n : Nat} (hn : n < UInt64.size) :
    SpellsHead major n (encodeHead (UInt8.ofNat major) n) := by
  have hfirst := first_eq major hm
  have h24 : UInt8.ofNat major <<< 5 ||| 24 = UInt8.ofNat (32 * major + (24 + 0)) :=
    hfirst 24 (by decide)
  have h25 : UInt8.ofNat major <<< 5 ||| 25 = UInt8.ofNat (32 * major + (24 + 1)) :=
    hfirst 25 (by decide)
  have h26 : UInt8.ofNat major <<< 5 ||| 26 = UInt8.ofNat (32 * major + (24 + 2)) :=
    hfirst 26 (by decide)
  have h27 : UInt8.ofNat major <<< 5 ||| 27 = UInt8.ofNat (32 * major + (24 + 3)) :=
    hfirst 27 (by decide)
  simp only [encodeHead, h24, h25, h26, h27]
  split
  · rename_i h
    rw [hfirst n (by omega)]
    exact .short h
  split
  · exact spells_long 0 (by decide) ‹_›
  split
  · exact spells_long 1 (by decide) ‹_›
  split
  · exact spells_long 2 (by decide) ‹_›
  · exact spells_long 3 (by decide) hn

end Attestation.Proofs.CborHeads
