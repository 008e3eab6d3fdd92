import Attestation.Json.Reader
import Attestation.Json.Value
import Attestation.Proofs.Utf8Encoding

namespace Attestation.Proofs.JsonNumbers

open Json Json.Reader Utf8Encoding

def Delimited (rest : List UInt8) : Prop :=
  ∀ b ∈ rest.head?, b = 0x2C ∨ b = 0x5D ∨ b = 0x7D

def decimals (n : Nat) : List Nat := (Nat.toDigits 10 n).map fun c => c.toNat - 48

def digitByte (d : Nat) : UInt8 := UInt8.ofNat (48 + d)

theorem decimals_of_lt {n : Nat} (h : n < 10) : decimals n = [n] := by
  rw [decimals, Nat.toDigits_of_lt_base h, List.map_singleton, Nat.toNat_digitChar_of_lt_ten h,
    Nat.add_sub_cancel_left]

theorem decimals_of_le {n : Nat} (h : 10 ≤ n) : decimals n = decimals (n / 10) ++ [n % 10] := by
  have hm : n % 10 < 10 := Nat.mod_lt n (by decide)
  rw [decimals, Nat.toDigits_of_base_le (by decide) h, List.map_append, List.map_singleton,
    Nat.toNat_digitChar_of_lt_ten hm, Nat.add_sub_cancel_left, decimals]

theorem decimals_lt (n : Nat) : ∀ d ∈ decimals n, d < 10 := by
  induction n using Nat.strongRecOn with
  | ind n ih =>
    by_cases h : n < 10
    · simp [decimals_of_lt h, h]
    · intro d hd
      rw [decimals_of_le (by omega), List.mem_append, List.mem_singleton] at hd
      obtain hd | rfl := hd
      · exact ih (n / 10) (by omega) d hd
      · exact Nat.mod_lt n (by decide)

theorem head_decimals {n : Nat} (h : 0 < n) : ∃ d ds, decimals n = d :: ds ∧ d ≠ 0 := by
  induction n using Nat.strongRecOn with
  | ind n ih =>
    by_cases hn : n < 10
    · exact ⟨n, [], decimals_of_lt hn, by omega⟩
    · obtain ⟨d, ds, hd, hz⟩ := ih (n / 10) (by omega) (by omega)
      exact ⟨d, ds ++ [n % 10], by rw [decimals_of_le (by omega), hd, List.cons_append], hz⟩

theorem bytesOf_digit {d : Nat} (h : d < 10) : bytesOf [Nat.digitChar d] = [digitByte d] := by
  have hd := Nat.toNat_digitChar_of_lt_ten h
  rw [bytesOf_cons, encodeChar_ascii (by omega), hd]
  rfl

theorem bytesOf_toDigits (n : Nat) :
    bytesOf (Nat.toDigits 10 n) = (decimals n).map digitByte := by
  induction n using Nat.strongRecOn with
  | ind n ih =>
    by_cases h : n < 10
    · rw [Nat.toDigits_of_lt_base h, decimals_of_lt h, bytesOf_digit h, List.map_singleton]
    · rw [Nat.toDigits_of_base_le (by decide) (by omega), decimals_of_le (by omega), bytesOf_append,
        ih (n / 10) (by omega), bytesOf_digit (Nat.mod_lt n (by decide)), List.map_append,
        List.map_singleton]

theorem isDigit_digitByte : ∀ d < 10, isDigit (digitByte d) = true := by
  decide

theorem digitByte_value : ∀ d < 10, (digitByte d - 48).toNat = d := by
  decide

theorem digits_digitBytes (ds : List Nat) (hds : ∀ d ∈ ds, d < 10) (rest : List UInt8)
    (hr : ∀ b ∈ rest.head?, isDigit b = false) :
    digits (ds.map digitByte ++ rest) = (ds, rest) := by
  have hall : ∀ b ∈ ds.map digitByte, isDigit b = true := by
    intro b hb
    obtain ⟨d, hd, rfl⟩ := List.mem_map.mp hb
    exact isDigit_digitByte d (hds d hd)
  have hstop : rest.takeWhile isDigit = [] ∧ rest.dropWhile isDigit = rest := by
    cases rest with
    | nil => exact ⟨rfl, rfl⟩
    | cons b rest => simp [hr b rfl]
  have hback : (ds.map digitByte).map (fun b => (b - 48).toNat) = ds := by
    rw [List.map_map]
    exact (List.map_congr_left fun d hd => digitByte_value d (hds d hd)).trans (List.map_id _)
  rw [digits, List.takeWhile_append_of_pos hall, List.dropWhile_append_of_pos hall, hstop.1,
    hstop.2, List.append_nil, hback]

theorem not_digit_of_delimited {rest : List UInt8} (hr : Delimited rest) :
    ∀ b ∈ rest.head?, isDigit b = false := by
  intro b hb
  obtain rfl | rfl | rfl := hr b hb <;> rfl

theorem digits_decimals (n : Nat) (rest : List UInt8) (hr : Delimited rest) :
    digits (bytesOf (Nat.toDigits 10 n) ++ rest) = (decimals n, rest) := by
  rw [bytesOf_toDigits, digits_digitBytes _ (decimals_lt n) rest (not_digit_of_delimited hr)]

theorem whole_decimals (n : Nat) (rest : List UInt8) (hr : Delimited rest) :
    whole (bytesOf (Nat.toDigits 10 n) ++ rest) = some (decimals n, rest) := by
  rw [whole, digits_decimals n rest hr]
  by_cases hn : n = 0
  · subst n
    rfl
  · obtain ⟨d, ds, hd, hz⟩ := head_decimals (Nat.pos_of_ne_zero hn)
    rw [hd]
    cases d with
    | zero => exact absurd rfl hz
    | succ d => rfl

theorem fraction_delimited {rest : List UInt8} (hr : Delimited rest) :
    fraction rest = some (none, rest) := by
  cases rest with
  | nil => rfl
  | cons b rest => obtain rfl | rfl | rfl := hr b rfl <;> rfl

theorem exponent_delimited {rest : List UInt8} (hr : Delimited rest) :
    exponent rest = some (none, rest) := by
  cases rest with
  | nil => rfl
  | cons b rest => obtain rfl | rfl | rfl := hr b rfl <;> rfl

theorem absorb_snoc (m n : Nat) (ds : List Nat) (d : Nat) (h : Literal.absorb m ds = (n, []))
    (hn : n * 10 + d < UInt64.size) : Literal.absorb m (ds ++ [d]) = (n * 10 + d, []) := by
  induction ds generalizing m with
  | nil =>
    simp only [Literal.absorb, Prod.mk.injEq, and_true] at h
    subst m
    simp [Literal.absorb, hn]
  | cons e ds ih =>
    rw [Literal.absorb] at h
    rw [List.cons_append, Literal.absorb]
    split at h
    · rename_i he
      rw [if_pos he]
      exact ih _ h
    · simp at h

theorem absorb_decimals {n : Nat} (h : n < UInt64.size) :
    Literal.absorb 0 (decimals n) = (n, []) := by
  induction n using Nat.strongRecOn with
  | ind n ih =>
    by_cases hn : n < 10
    · simp [decimals_of_lt hn, Literal.absorb, h]
    · have hdiv := ih (n / 10) (by omega) (by omega)
      have hsum : n / 10 * 10 + n % 10 = n := by omega
      have hsnoc := absorb_snoc 0 (n / 10) (decimals (n / 10)) (n % 10) hdiv (by omega)
      rwa [hsum, ← decimals_of_le (by omega)] at hsnoc

theorem literal_decimals (negative : Bool) (n : Nat) (rest : List UInt8) (hr : Delimited rest) :
    literal negative (bytesOf (Nat.toDigits 10 n) ++ rest) =
      some (⟨negative, decimals n, none, none⟩, rest) := by
  simp [literal, whole_decimals n rest hr, fraction_delimited hr, exponent_delimited hr]

theorem value?_decimals (negative : Bool) {n : Nat} (h : n < UInt64.size) :
    Literal.value? ⟨negative, decimals n, none, none⟩ = Literal.integer? negative n := by
  simp only [Literal.value?, absorb_decimals h]

theorem number_nat (n : UInt64) (rest : List UInt8) (hr : Delimited rest) :
    number false (bytesOf (Number.nat n).text.toList ++ rest) =
      (.number (some (.nat n)), some rest) := by
  have htext : (Number.nat n).text.toList = Nat.toDigits 10 n.toNat := by simp [Number.text]
  rw [htext, number, literal_decimals false n.toNat rest hr]
  simp [value?_decimals false n.toNat_lt_size, Literal.integer?]

theorem number_negSucc (n : Fin 0x8000000000000000) (rest : List UInt8) (hr : Delimited rest) :
    (Number.negSucc n).text.toList = '-' :: Nat.toDigits 10 (n.val + 1) ∧
    number true (bytesOf (Nat.toDigits 10 (n.val + 1)) ++ rest) =
      (.number (some (.negSucc n)), some rest) := by
  have hsize : n.val + 1 < UInt64.size := by
    have hn := n.isLt
    change n.val + 1 < 0x10000000000000000
    omega
  refine ⟨by simp [Number.text], ?_⟩
  rw [number, literal_decimals true (n.val + 1) rest hr]
  have hn : n.val + 1 ≠ 0 ∧ n.val + 1 ≤ 0x8000000000000000 := ⟨by omega, by omega⟩
  simp [value?_decimals true hsize, Literal.integer?, hn]

end Attestation.Proofs.JsonNumbers
