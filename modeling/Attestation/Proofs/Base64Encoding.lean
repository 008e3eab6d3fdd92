import Attestation.Base64
import Attestation.Proofs.Utf8Encoding

namespace Attestation.Proofs.Base64Encoding

open Base64 Utf8Encoding

theorem forall_sextet {P : UInt8 → Prop} (h : ∀ n < 64, P (UInt8.ofNat n)) (b : UInt8)
    (hb : b < 64) : P b := by
  have hn := h b.toNat (UInt8.lt_iff_toNat_lt.mp hb)
  rwa [UInt8.ofNat_toNat] at hn

def Sound (v : Variant) : Prop :=
  ∀ n < 64, v.value? (v.symbol n) = some n ∧ v.symbol n ≠ padByte ∧ v.symbol n < 128

theorem standard_sound : Sound standard :=
  forall_sextet (P := fun n => standard.value? (standard.symbol n) = some n ∧
    standard.symbol n ≠ padByte ∧ standard.symbol n < 128) (by decide)

theorem urlSafe_sound : Sound urlSafe :=
  forall_sextet (P := fun n => urlSafe.value? (urlSafe.symbol n) = some n ∧
    urlSafe.symbol n ≠ padByte ∧ urlSafe.symbol n < 128) (by decide)

/-- The four values of six bits in which three bytes are written. -/
def first (a : UInt8) : UInt8 := a >>> 2

def second (a b : UInt8) : UInt8 := ((a &&& 0x03) <<< 4) ||| (b >>> 4)

def third (b c : UInt8) : UInt8 := ((b &&& 0x0F) <<< 2) ||| (c >>> 6)

def fourth (c : UInt8) : UInt8 := c &&& 0x3F

theorem or_sextet {x y : UInt8} (hx : x < 64) (hy : y < 64) : x ||| y < 64 := by
  rw [UInt8.lt_iff_toNat_lt] at hx hy ⊢
  rw [UInt8.toNat_or]
  exact Nat.or_lt_two_pow (n := 6) hx hy

theorem first_lt : ∀ a, first a < 64 := forall_byte (by decide)

theorem second_lt (a b : UInt8) : second a b < 64 :=
  or_sextet (forall_byte (P := fun a => (a &&& 0x03) <<< 4 < 64) (by decide) a)
    (forall_byte (P := fun b => b >>> 4 < 64) (by decide) b)

theorem third_lt (b c : UInt8) : third b c < 64 :=
  or_sextet (forall_byte (P := fun b => (b &&& 0x0F) <<< 2 < 64) (by decide) b)
    (forall_byte (P := fun c => c >>> 6 < 64) (by decide) c)

theorem fourth_lt : ∀ c, fourth c < 64 := forall_byte (by decide)

theorem join_parts (a b c : UInt8) :
    join (first a) (second a b) (third b c) (fourth c) = (a, b, c) := by
  have h1 := forall_byte (P := fun a => a >>> 2 <<< 2 ||| (a &&& 0x03) <<< 4 >>> 4 = a)
    (by decide) a
  have h2 := forall_byte (P := fun b => b >>> 4 >>> 4 = 0) (by decide) b
  have h3 := forall_byte (P := fun a => (a &&& 0x03) <<< 4 <<< 4 = 0) (by decide) a
  have h4 := forall_byte (P := fun b => b >>> 4 <<< 4 ||| (b &&& 0x0F) <<< 2 >>> 2 = b)
    (by decide) b
  have h5 := forall_byte (P := fun c => c >>> 6 >>> 2 = 0) (by decide) c
  have h6 := forall_byte (P := fun b => (b &&& 0x0F) <<< 2 <<< 6 = 0) (by decide) b
  have h7 := forall_byte (P := fun c => c >>> 6 <<< 6 ||| c &&& 0x3F = c) (by decide) c
  simp only [join, first, second, third, fourth, UInt8.shiftLeft_or, UInt8.shiftRight_or, h2, h3,
    h5, h6, UInt8.or_zero, UInt8.zero_or, h1, h4, h7]

theorem symbols_append (v : Variant) (written more bytes : List UInt8) :
    symbols v (written ++ more) bytes = symbols v written bytes ++ more := by
  induction written, bytes using symbols.induct v with
  | case1 written a b c rest ih => simpa only [symbols, List.cons_append] using ih
  | case2 | case3 | case4 => simp [symbols]

theorem encodeBytes_cons (v : Variant) (a b c : UInt8) (rest : List UInt8) :
    encodeBytes v (a :: b :: c :: rest) = v.symbol (first a) :: v.symbol (second a b) ::
      v.symbol (third b c) :: v.symbol (fourth c) :: encodeBytes v rest := by
  have h := symbols_append v [] [v.symbol (fourth c), v.symbol (third b c),
    v.symbol (second a b), v.symbol (first a)] rest
  rw [List.nil_append] at h
  simp only [encodeBytes, symbols]
  change (symbols v [v.symbol (fourth c), v.symbol (third b c), v.symbol (second a b),
    v.symbol (first a)] rest).reverse = _
  rw [h, List.reverse_append]
  rfl

/-- How many `=` fill up the last group. -/
def pads (v : Variant) (n : Nat) : List UInt8 := if v.padded then List.replicate n padByte else []

theorem encodeBytes_pair (v : Variant) (a b : UInt8) :
    encodeBytes v [a, b] = [first a, second a b, third b 0].map v.symbol ++ pads v 1 := by
  cases hp : v.padded <;> simp [encodeBytes, symbols, first, second, third, pads, hp]

theorem encodeBytes_single (v : Variant) (a : UInt8) :
    encodeBytes v [a] = [first a, second a 0].map v.symbol ++ pads v 2 := by
  cases hp : v.padded <;> simp [encodeBytes, symbols, first, second, pads, hp, List.replicate]

theorem encodeBytes_nil (v : Variant) : encodeBytes v [] = [] := rfl

/-- Induction along the groups of three bytes. -/
theorem groups_induction {P : List UInt8 → Prop} (nil : P []) (single : ∀ a, P [a])
    (pair : ∀ a b, P [a, b]) (group : ∀ a b c rest, P rest → P (a :: b :: c :: rest)) :
    ∀ bytes, P bytes
  | [] => nil
  | [a] => single a
  | [a, b] => pair a b
  | a :: b :: c :: rest => group a b c rest (groups_induction nil single pair group rest)

theorem length_encodeBytes (v : Variant) (bytes : List UInt8) :
    (encodeBytes v bytes).length % 4 ≠ 1 := by
  induction bytes using groups_induction with
  | nil => simp [encodeBytes_nil]
  | single a => cases hp : v.padded <;> simp [encodeBytes_single, pads, hp]
  | pair a b => cases hp : v.padded <;> simp [encodeBytes_pair, pads, hp]
  | group a b c rest ih =>
    rw [encodeBytes_cons]
    simp only [List.length_cons]
    omega

theorem strayEnd_encodeBytes (v : Variant) (bytes : List UInt8) :
    v.strayEnd (encodeBytes v bytes) = none := by
  unfold Variant.strayEnd
  split
  · exact if_neg fun h => length_encodeBytes v bytes h.1
  · rfl

theorem firstBad_symbols {v : Variant} (hv : Sound v) (offset : Nat) (ns : List UInt8)
    (hns : ∀ n ∈ ns, n < 64) : v.firstBad offset (ns.map v.symbol) = none := by
  induction ns generalizing offset with
  | nil => rfl
  | cons n ns ih =>
    have hn := hv n (hns n (by simp))
    simp [Variant.firstBad, hn.1, ih _ fun m hm => hns m (by simp [hm])]

theorem split_symbols {v : Variant} (hv : Sound v) (offset : Nat) (ns : List UInt8)
    (hns : ∀ n ∈ ns, n < 64) (hlen : 2 ≤ ns.length) (k : Nat) :
    v.split offset (ns.map v.symbol ++ List.replicate k padByte) = .ok (ns.map v.symbol, k) := by
  have hall : ∀ b ∈ ns.map v.symbol, (b != padByte) = true := by
    intro b hb
    obtain ⟨n, hn, rfl⟩ := List.mem_map.mp hb
    simpa using (hv n (hns n hn)).2.1
  have hbody : (ns.map v.symbol ++ List.replicate k padByte).takeWhile (· != padByte) =
      ns.map v.symbol := by
    rw [List.takeWhile_append_of_pos hall]
    cases k <;> simp [List.replicate_succ]
  unfold Variant.split
  simp only [hbody, firstBad_symbols hv _ _ hns, List.drop_left]
  cases k with
  | zero => rfl
  | succ k =>
    have hnot : ¬ ((ns.map v.symbol).length < 2 ∨
        (List.replicate (k + 1) padByte).any (· != padByte) = true) := by
      simp
      omega
    rw [if_neg hnot]
    simp

theorem value_symbols {v : Variant} (hv : Sound v) (ns : List UInt8) (hns : ∀ n ∈ ns, n < 64) :
    (ns.map v.symbol).filterMap v.value? = ns := by
  induction ns with
  | nil => rfl
  | cons n ns ih =>
    have hn := hv n (hns n (by simp))
    rw [List.map_cons, List.filterMap_cons_some hn.1, ih fun m hm => hns m (by simp [hm])]

theorem lastGroup_nil (v : Variant) (offset : Nat) (read : List UInt8) :
    v.lastGroup offset read [] = .ok read := by
  simp [Variant.lastGroup, Variant.split, Variant.firstBad]

theorem split_pads {v : Variant} (hv : Sound v) (offset : Nat) (ns : List UInt8)
    (hns : ∀ n ∈ ns, n < 64) (hlen : 2 ≤ ns.length) (k : Nat) :
    v.split offset (ns.map v.symbol ++ pads v k) =
      .ok (ns.map v.symbol, if v.padded then k else 0) := by
  cases hp : v.padded with
  | true => simpa [pads, hp] using split_symbols hv offset ns hns hlen k
  | false => simpa [pads, hp] using split_symbols hv offset ns hns hlen 0

theorem lastGroup_single {v : Variant} (hv : Sound v) (offset : Nat) (read : List UInt8)
    (a : UInt8) : v.lastGroup offset read (encodeBytes v [a]) = .ok (a :: read) := by
  have hns : ∀ n ∈ [first a, second a 0], n < 64 := by simp [first_lt, second_lt]
  have hval := value_symbols hv _ hns
  have hjoin := join_parts a 0 0
  have h0 : third 0 0 = 0 := rfl
  have h0' : fourth 0 = 0 := rfl
  rw [h0, h0'] at hjoin
  rw [encodeBytes_single, Variant.lastGroup, split_pads hv offset _ hns (by simp)]
  simp only [List.map_cons, List.map_nil] at hval ⊢
  cases hp : v.padded <;> simp [hval, hjoin]

theorem lastGroup_pair {v : Variant} (hv : Sound v) (offset : Nat) (read : List UInt8)
    (a b : UInt8) : v.lastGroup offset read (encodeBytes v [a, b]) = .ok (b :: a :: read) := by
  have hns : ∀ n ∈ [first a, second a b, third b 0], n < 64 := by
    simp [first_lt, second_lt, third_lt]
  have hval := value_symbols hv _ hns
  have hjoin := join_parts a b 0
  have h0 : fourth 0 = 0 := rfl
  rw [h0] at hjoin
  rw [encodeBytes_pair, Variant.lastGroup, split_pads hv offset _ hns (by simp)]
  simp only [List.map_cons, List.map_nil] at hval ⊢
  cases hp : v.padded <;> simp [hval, hjoin]

theorem lastGroup_triple {v : Variant} (hv : Sound v) (offset : Nat) (read : List UInt8)
    (a b c : UInt8) :
    v.lastGroup offset read (encodeBytes v [a, b, c]) = .ok (c :: b :: a :: read) := by
  have hns : ∀ n ∈ [first a, second a b, third b c, fourth c], n < 64 := by
    simp [first_lt, second_lt, third_lt, fourth_lt]
  have hval := value_symbols hv _ hns
  have hs := split_symbols hv offset _ hns (by simp) 0
  simp only [List.map_cons, List.map_nil, List.replicate_zero, List.append_nil] at hs hval
  rw [encodeBytes_cons, encodeBytes_nil]
  unfold Variant.lastGroup
  cases hp : v.padded <;> simp [hs, hval, join_parts]

theorem groups_cons {v : Variant} (hv : Sound v) (offset : Nat) (read : List UInt8)
    (a b c e : UInt8) (rest : List UInt8) :
    v.groups offset read (v.symbol (first a) :: v.symbol (second a b) :: v.symbol (third b c) ::
      v.symbol (fourth c) :: e :: rest) =
      v.groups (offset + 4) (c :: b :: a :: read) (e :: rest) := by
  rw [Variant.groups, (hv _ (first_lt a)).1, (hv _ (second_lt a b)).1, (hv _ (third_lt b c)).1,
    (hv _ (fourth_lt c)).1]
  simp only [join_parts]

theorem encodeBytes_ne_nil (v : Variant) {bytes : List UInt8} (h : bytes ≠ []) :
    encodeBytes v bytes ≠ [] := by
  cases bytes using groups_induction with
  | nil => exact absurd rfl h
  | single a => simp [encodeBytes_single]
  | pair a b => simp [encodeBytes_pair]
  | group a b c rest => simp [encodeBytes_cons]

theorem groups_short {v : Variant} {offset : Nat} {read text : List UInt8}
    (h : text.length ≤ 4) : v.groups offset read text = v.lastGroup offset read text := by
  match text with
  | [] | [_] | [_, _] | [_, _, _] | [_, _, _, _] => rfl
  | _ :: _ :: _ :: _ :: _ :: _ =>
    simp only [List.length_cons] at h
    omega

theorem groups_encodeBytes {v : Variant} (hv : Sound v) (bytes : List UInt8) (offset : Nat)
    (read : List UInt8) :
    v.groups offset read (encodeBytes v bytes) = .ok (bytes.reverse ++ read) := by
  induction bytes using groups_induction generalizing offset read with
  | nil => exact lastGroup_nil v offset read
  | single a =>
    have hlen : (encodeBytes v [a]).length ≤ 4 := by
      cases hp : v.padded <;> simp [encodeBytes_single, pads, hp]
    rw [groups_short hlen, lastGroup_single hv]
    rfl
  | pair a b =>
    have hlen : (encodeBytes v [a, b]).length ≤ 4 := by
      cases hp : v.padded <;> simp [encodeBytes_pair, pads, hp]
    rw [groups_short hlen, lastGroup_pair hv]
    rfl
  | group a b c rest ih =>
    by_cases hrest : rest = []
    · subst rest
      rw [groups_short (by simp [encodeBytes_cons, encodeBytes_nil]), lastGroup_triple hv]
      rfl
    · obtain ⟨e, more, he⟩ := List.exists_cons_of_ne_nil (encodeBytes_ne_nil v hrest)
      rw [encodeBytes_cons, he, groups_cons hv, ← he, ih]
      simp

theorem decode_encodeBytes {v : Variant} (hv : Sound v) (bytes : List UInt8) :
    decode v (encodeBytes v bytes) = .ok bytes := by
  rw [decode, strayEnd_encodeBytes]
  simp only [groups_encodeBytes hv, Except.map, List.append_nil, List.reverse_reverse]

theorem encodeBytes_ascii {v : Variant} (hv : Sound v) (bytes : List UInt8) :
    ∀ b ∈ encodeBytes v bytes, b < 0x80 := by
  have hs : ∀ n < 64, v.symbol n < 0x80 := fun n hn => (hv n hn).2.2
  have hpad : ∀ k, ∀ b ∈ pads v k, b < 0x80 := by
    intro k b hb
    cases hp : v.padded <;> simp only [pads, hp] at hb
    · simp at hb
    · rw [List.eq_of_mem_replicate hb]
      decide
  induction bytes using groups_induction with
  | nil => simp [encodeBytes_nil]
  | single a =>
    simpa [encodeBytes_single, or_imp, forall_and, hs _ (first_lt a), hs _ (second_lt a 0)]
      using hpad 2
  | pair a b =>
    simpa [encodeBytes_pair, or_imp, forall_and, hs _ (first_lt a), hs _ (second_lt a b),
      hs _ (third_lt b 0)] using hpad 1
  | group a b c rest ih =>
    simpa [encodeBytes_cons, or_imp, forall_and, hs _ (first_lt a), hs _ (second_lt a b),
      hs _ (third_lt b c), hs _ (fourth_lt c)] using ih

theorem encodeBytes_unpadded {v : Variant} (hv : Sound v) (hp : v.padded = false)
    (bytes : List UInt8) : ∀ b ∈ encodeBytes v bytes, b ≠ padByte := by
  have hs : ∀ n < 64, v.symbol n ≠ padByte := fun n hn => (hv n hn).2.1
  induction bytes using groups_induction with
  | nil => simp [encodeBytes_nil]
  | single a =>
    simp [encodeBytes_single, pads, hp, hs _ (first_lt a), hs _ (second_lt a 0)]
  | pair a b =>
    simp [encodeBytes_pair, pads, hp, hs _ (first_lt a), hs _ (second_lt a b),
      hs _ (third_lt b 0)]
  | group a b c rest ih =>
    simpa [encodeBytes_cons, hs _ (first_lt a), hs _ (second_lt a b), hs _ (third_lt b c),
      hs _ (fourth_lt c)] using ih

theorem bytes_encode {v : Variant} (hv : Sound v) (bytes : List UInt8) :
    Text.Utf8.encode (encode v bytes) = encodeBytes v bytes := by
  rw [encode, encode_ofList, bytesOf_ascii _ (encodeBytes_ascii hv bytes)]

theorem decode_encode {v : Variant} (hv : Sound v) (bytes : List UInt8) :
    decode v (Text.Utf8.encode (encode v bytes)) = .ok bytes := by
  rw [bytes_encode hv, decode_encodeBytes hv]

end Attestation.Proofs.Base64Encoding
