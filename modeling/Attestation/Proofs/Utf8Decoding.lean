import Attestation.Proofs.Utf8Encoding

namespace Attestation.Proofs.Utf8Decoding

open Text Text.Utf8 Utf8Encoding

/-- The bytes of a character so far, and what is known of the character from them. -/
inductive Begun : List UInt8 → Pending → Prop
  | opened {b : UInt8} {p : Pending} (h : Lead.ofByte b = .opens p) : Begun [b] p
  | continued {bytes : List UInt8} {p : Pending} {b : UInt8} (h : Begun bytes p)
      (hleft : p.left ≠ 1) (hb : p.low ≤ b ∧ b ≤ p.high) :
      Begun (bytes ++ [b]) ⟨p.value * 64 + (b &&& 0x3F).toNat, p.left - 1, 0x80, 0xBF⟩

theorem val_ofNat {n : Nat} (h : n < 0xD800 ∨ 0xE000 ≤ n ∧ n < 0x110000) :
    (Char.ofNat n).val.toNat = n := by
  have hvalid : n.isValidChar := by
    obtain h | h := h
    · exact Or.inl h
    · exact Or.inr ⟨by omega, h.2⟩
  rw [Char.ofNat, dif_pos hvalid]
  rfl

theorem encodeChar_two {a b : Nat} (ha : 2 ≤ a ∧ a < 32) (hb : b < 64) :
    String.utf8EncodeChar (Char.ofNat (a * 64 + b)) =
      [UInt8.ofNat (a + 0xC0), UInt8.ofNat (b + 0x80)] := by
  have hval := val_ofNat (n := a * 64 + b) (by omega)
  have hhigh : (a * 64 + b) / 64 % 32 = a := by omega
  have hlow : (a * 64 + b) % 64 = b := by omega
  simp only [String.utf8EncodeChar, hval]
  rw [if_neg (by omega), if_pos (by omega), hhigh, hlow]

theorem encodeChar_three {a b c : Nat} (ha : a < 16) (hb : b < 64) (hc : c < 64)
    (hlow : a = 0 → 32 ≤ b) (hhigh : a = 13 → b < 32) :
    String.utf8EncodeChar (Char.ofNat ((a * 64 + b) * 64 + c)) =
      [UInt8.ofNat (a + 0xE0), UInt8.ofNat (b + 0x80), UInt8.ofNat (c + 0x80)] := by
  have hval := val_ofNat (n := (a * 64 + b) * 64 + c) (by omega)
  have h1 : ((a * 64 + b) * 64 + c) / 4096 % 16 = a := by omega
  have h2 : ((a * 64 + b) * 64 + c) / 64 % 64 = b := by omega
  have h3 : ((a * 64 + b) * 64 + c) % 64 = c := by omega
  simp only [String.utf8EncodeChar, hval]
  rw [if_neg (by omega), if_neg (by omega), if_pos (by omega), h1, h2, h3]

theorem encodeChar_four {a b c d : Nat} (ha : a < 5) (hb : b < 64) (hc : c < 64) (hd : d < 64)
    (hlow : a = 0 → 16 ≤ b) (hhigh : a = 4 → b < 16) :
    String.utf8EncodeChar (Char.ofNat (((a * 64 + b) * 64 + c) * 64 + d)) =
      [UInt8.ofNat (a + 0xF0), UInt8.ofNat (b + 0x80), UInt8.ofNat (c + 0x80),
        UInt8.ofNat (d + 0x80)] := by
  have hval := val_ofNat (n := ((a * 64 + b) * 64 + c) * 64 + d) (by omega)
  have h1 : (((a * 64 + b) * 64 + c) * 64 + d) / 262144 % 8 = a := by omega
  have h2 : (((a * 64 + b) * 64 + c) * 64 + d) / 4096 % 64 = b := by omega
  have h3 : (((a * 64 + b) * 64 + c) * 64 + d) / 64 % 64 = c := by omega
  have h4 : (((a * 64 + b) * 64 + c) * 64 + d) % 64 = d := by omega
  simp only [String.utf8EncodeChar, hval]
  rw [if_neg (by omega), if_neg (by omega), if_neg (by omega), h1, h2, h3, h4]

theorem opens_cases {b : UInt8} {p : Pending} (h : Lead.ofByte b = .opens p) :
    ∃ k, (2 ≤ k ∧ k < 32 ∧ b = UInt8.ofNat (k + 0xC0) ∧ p = ⟨k, 1, 0x80, 0xBF⟩) ∨
      (k < 16 ∧ b = UInt8.ofNat (k + 0xE0) ∧
        p = ⟨k, 2, if k = 0 then 0xA0 else 0x80, if k = 13 then 0x9F else 0xBF⟩) ∨
      (k < 5 ∧ b = UInt8.ofNat (k + 0xF0) ∧
        p = ⟨k, 3, if k = 0 then 0x90 else 0x80, if k = 4 then 0x8F else 0xBF⟩) := by
  have hb : ∀ n, n ≤ b.toNat → b = UInt8.ofNat (b.toNat - n + n) := by
    intro n hn
    rw [Nat.sub_add_cancel hn, UInt8.ofNat_toNat]
  have hlt := b.toNat_lt_size
  have hsize : UInt8.size = 256 := rfl
  have hill : ∀ n < 256, (0x80 ≤ n ∧ n < 0xC2 ∨ 0xF5 ≤ n) →
      Lead.ofByte (UInt8.ofNat n) = .illFormed := by decide +kernel
  by_cases h80 : b.toNat < 0x80
  · have := ofByte_one b.toNat h80
    rw [UInt8.ofNat_toNat, h] at this
    cases this
  by_cases hbad : b.toNat < 0xC2 ∨ 0xF5 ≤ b.toNat
  · have := hill b.toNat hlt (by omega)
    rw [UInt8.ofNat_toNat, h] at this
    cases this
  by_cases he0 : b.toNat < 0xE0
  · have htwo := ofByte_two (b.toNat - 0xC0) (by omega) (by omega)
    rw [← hb 0xC0 (by omega), h] at htwo
    exact ⟨b.toNat - 0xC0, Or.inl ⟨by omega, by omega, hb _ (by omega), Lead.opens.inj htwo⟩⟩
  by_cases hf0 : b.toNat < 0xF0
  · have hthree := ofByte_three (b.toNat - 0xE0) (by omega)
    rw [← hb 0xE0 (by omega), h] at hthree
    exact ⟨b.toNat - 0xE0, Or.inr (Or.inl ⟨by omega, hb _ (by omega), Lead.opens.inj hthree⟩)⟩
  · have hfour := ofByte_four (b.toNat - 0xF0) (by omega)
    rw [← hb 0xF0 (by omega), h] at hfour
    exact ⟨b.toNat - 0xF0, Or.inr (Or.inr ⟨by omega, hb _ (by omega), Lead.opens.inj hfour⟩)⟩

theorem continues_cases {b low high : UInt8} (hl : 0x80 ≤ low.toNat) (hh : high.toNat ≤ 0xBF)
    (hb : low ≤ b ∧ b ≤ high) :
    ∃ k < 64, b = UInt8.ofNat (k + 0x80) ∧ (b &&& 0x3F).toNat = k ∧ low.toNat ≤ k + 0x80 ∧
      k + 0x80 ≤ high.toNat := by
  have hlow := UInt8.le_iff_toNat_le.mp hb.1
  have hhigh := UInt8.le_iff_toNat_le.mp hb.2
  have hb' : UInt8.ofNat (b.toNat - 0x80 + 0x80) = b := by
    rw [Nat.sub_add_cancel (by omega), UInt8.ofNat_toNat]
  have hbits := low_bits (b.toNat - 0x80) (by omega)
  rw [hb'] at hbits
  exact ⟨b.toNat - 0x80, by omega, hb'.symm, hbits, by omega, by omega⟩

theorem left_le {bytes : List UInt8} {p : Pending} (h : Begun bytes p) : p.left ≤ 3 := by
  induction h with
  | opened h =>
    obtain ⟨k, ⟨_, _, _, rfl⟩ | ⟨_, _, rfl⟩ | ⟨_, _, rfl⟩⟩ := opens_cases h <;> simp
  | continued _ _ _ ih => exact Nat.le_trans (Nat.sub_le _ _) ih

theorem begun_three {bytes : List UInt8} {p : Pending} (h : Begun bytes p) (hp : p.left = 3) :
    ∃ k < 5, bytes = [UInt8.ofNat (k + 0xF0)] ∧
      p = ⟨k, 3, if k = 0 then 0x90 else 0x80, if k = 4 then 0x8F else 0xBF⟩ := by
  cases h with
  | opened h =>
    obtain ⟨k, ⟨_, _, _, rfl⟩ | ⟨_, _, rfl⟩ | ⟨hk, rfl, rfl⟩⟩ := opens_cases h
    · cases hp
    · cases hp
    · exact ⟨k, hk, rfl, rfl⟩
  | @continued _ q _ h _ _ =>
    have := left_le h
    change q.left - 1 = 3 at hp
    omega

theorem begun_two {bytes : List UInt8} {p : Pending} (h : Begun bytes p) (hp : p.left = 2) :
    (∃ k < 16, bytes = [UInt8.ofNat (k + 0xE0)] ∧
      p = ⟨k, 2, if k = 0 then 0xA0 else 0x80, if k = 13 then 0x9F else 0xBF⟩) ∨
    ∃ k < 5, ∃ m < 64, (k = 0 → 16 ≤ m) ∧ (k = 4 → m < 16) ∧
      bytes = [UInt8.ofNat (k + 0xF0), UInt8.ofNat (m + 0x80)] ∧
      p = ⟨k * 64 + m, 2, 0x80, 0xBF⟩ := by
  cases h with
  | opened h =>
    obtain ⟨k, ⟨_, _, _, rfl⟩ | ⟨hk, rfl, rfl⟩ | ⟨_, _, rfl⟩⟩ := opens_cases h
    · cases hp
    · exact Or.inl ⟨k, hk, rfl, rfl⟩
    · cases hp
  | @continued _ q b h _ hb =>
    change q.left - 1 = 2 at hp
    obtain ⟨k, hk, rfl, rfl⟩ := begun_three h (by omega)
    obtain ⟨m, hm, rfl, hbits, hlow, hhigh⟩ :=
      continues_cases (by dsimp only; split <;> simp) (by dsimp only; split <;> simp) hb
    refine Or.inr ⟨k, hk, m, hm, ?_, ?_, rfl, ?_⟩
    · rintro rfl
      simp at hlow
      omega
    · rintro rfl
      simp at hhigh
      omega
    · rw [hbits]
      rfl

theorem encodeChar_begun {bytes : List UInt8} {p : Pending} {b : UInt8} (h : Begun bytes p)
    (hp : p.left = 1) (hb : p.low ≤ b ∧ b ≤ p.high) :
    String.utf8EncodeChar (Char.ofNat (p.value * 64 + (b &&& 0x3F).toNat)) = bytes ++ [b] := by
  cases h with
  | opened h =>
    obtain ⟨k, ⟨hk, hk', rfl, rfl⟩ | ⟨_, _, rfl⟩ | ⟨_, _, rfl⟩⟩ := opens_cases h
    · obtain ⟨m, hm, rfl, hbits, _⟩ := continues_cases (by simp) (by simp) hb
      rw [hbits, encodeChar_two ⟨hk, hk'⟩ hm]
      rfl
    · cases hp
    · cases hp
  | @continued _ q a h _ ha =>
    change q.left - 1 = 1 at hp
    obtain ⟨n, hn, rfl, hbits, _⟩ := continues_cases (by simp) (by simp) hb
    obtain ⟨k, hk, rfl, rfl⟩ | ⟨k, hk, m, hm, hlow, hhigh, rfl, rfl⟩ :=
      begun_two h (by omega)
    · obtain ⟨m, hm, rfl, hbits', hlow, hhigh⟩ :=
        continues_cases (by dsimp only; split <;> simp) (by dsimp only; split <;> simp) ha
      rw [hbits, hbits', encodeChar_three hk hm hn]
      · rfl
      · rintro rfl
        simp at hlow
        omega
      · rintro rfl
        simp at hhigh
        omega
    · obtain ⟨l, hl, rfl, hbits', _⟩ := continues_cases (by simp) (by simp) ha
      rw [hbits, hbits', encodeChar_four hk hm hl hn hlow hhigh]
      rfl

def Left (bytes : List UInt8) : Option Pending → Prop
  | none => bytes = []
  | some p => Begun bytes p

/-- As long as no stretch was ill-formed, the bytes are those of the characters read, and those of
the character that is pending. -/
def Covers (bytes : List UInt8) (r : Reader) : Prop :=
  (∀ c ∈ r.read, c ≠ none) →
    ∃ left, bytes = bytesOf (r.read.reverse.filterMap id) ++ left ∧ Left left r.pending

theorem covers_start : Covers [] Reader.start := fun _ => ⟨[], rfl, rfl⟩

theorem covers_first {bytes : List UInt8} {read : List (Option Char)}
    (h : (∀ c ∈ read, c ≠ none) → bytes = bytesOf (read.reverse.filterMap id)) (b : UInt8) :
    Covers (bytes ++ [b]) (Reader.first read b) := by
  unfold Reader.first
  split
  · rename_i c hc
    intro hread
    refine ⟨[], ?_, rfl⟩
    have hascii : String.utf8EncodeChar c = [b] := by
      by_cases hb : b.toNat < 0x80
      · have hone := ofByte_one b.toNat hb
        rw [UInt8.ofNat_toNat, hc] at hone
        obtain rfl := Lead.whole.inj hone
        have hn := toNat_ofNat_ascii b.toNat hb
        rw [encodeChar_ascii (by omega), hn, UInt8.ofNat_toNat]
      · unfold Lead.ofByte at hc
        rw [if_neg (fun hlt => hb (UInt8.lt_iff_toNat_lt.mp hlt))] at hc
        repeat' split at hc
        all_goals cases hc
    rw [h fun x hx => hread x (List.mem_cons_of_mem _ hx)]
    simp [hascii]
  · rename_i p hp
    intro hread
    exact ⟨[b], by rw [h hread], Begun.opened hp⟩
  · intro hread
    exact absurd rfl (hread none List.mem_cons_self)

theorem covers_feed {bytes : List UInt8} {r : Reader} (h : Covers bytes r) (b : UInt8) :
    Covers (bytes ++ [b]) (r.feed b) := by
  obtain ⟨read, pending⟩ := r
  unfold Reader.feed
  cases pending with
  | none =>
    refine covers_first (fun hread => ?_) b
    obtain ⟨left, hbytes, rfl⟩ := h hread
    rw [hbytes, List.append_nil]
  | some p =>
    simp only
    split
    · rename_i hb
      split
      · rename_i hp
        intro hread
        obtain ⟨left, rfl, hleft⟩ := h fun x hx => hread x (List.mem_cons_of_mem _ hx)
        refine ⟨[], ?_, rfl⟩
        rw [List.append_assoc, ← encodeChar_begun hleft hp hb]
        simp
      · rename_i hp
        intro hread
        obtain ⟨left, rfl, hleft⟩ := h hread
        exact ⟨left ++ [b], by rw [List.append_assoc], Begun.continued hleft hp hb⟩
    · exact covers_first (fun hread => absurd rfl (hread none List.mem_cons_self)) b

theorem covers_foldl (bytes more : List UInt8) (r : Reader) (h : Covers bytes r) :
    Covers (bytes ++ more) (more.foldl Reader.feed r) := by
  induction more generalizing bytes r with
  | nil => rwa [List.append_nil]
  | cons b more ih =>
    rw [List.foldl_cons, List.append_cons]
    exact ih _ _ (covers_feed h b)

theorem bytesOf_characters {bytes : List UInt8}
    (h : (characters bytes).all Option.isSome = true) :
    bytesOf ((characters bytes).filterMap id) = bytes := by
  have hcovers := covers_foldl [] bytes Reader.start covers_start
  rw [List.nil_append] at hcovers
  unfold characters at h ⊢
  generalize bytes.foldl Reader.feed Reader.start = r at h hcovers ⊢
  obtain ⟨read, pending⟩ := r
  unfold Reader.finish at h ⊢
  cases pending with
  | some p => simp at h
  | none =>
    have hread : ∀ c ∈ read, c ≠ none := by
      simpa [Option.isSome_iff_ne_none] using h
    obtain ⟨left, hbytes, rfl⟩ := hcovers hread
    rw [hbytes, List.append_nil]
    rfl

theorem decode?_eq_some_iff {bytes : List UInt8} {s : String} :
    decode? bytes = some s ↔ encode s = bytes := by
  constructor
  · intro h
    unfold decode? at h
    simp only at h
    split at h
    · rename_i hall
      cases h
      rw [encode_ofList, bytesOf_characters hall]
    · cases h
  · rintro rfl
    exact decode?_encode s

end Attestation.Proofs.Utf8Decoding
