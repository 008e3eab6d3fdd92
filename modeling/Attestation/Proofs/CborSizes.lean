import Attestation.Cbor.Decode
import Attestation.Proofs.JsonRecords
import Attestation.Proofs.Utf8Decoding

namespace Attestation.Proofs.CborSizes

open Cbor JsonRecords

variable {α β : Type}

/-- What was read, and the bytes that are left over, fit the size. -/
def Within (n : Nat) (size : α → Nat) (x : Except Error (α × List UInt8)) : Prop :=
  ∀ a rest, x = .ok (a, rest) → size a + rest.length ≤ n

theorem within_pure {n : Nat} {size : α → Nat} {a : α} {rest : List UInt8}
    (h : size a + rest.length ≤ n) : Within n size (.ok (a, rest)) := by
  rintro _ _ ⟨⟩
  exact h

theorem within_error (n : Nat) (size : α → Nat) (e : Error) : Within n size (.error e) := nofun

theorem within_bind {n : Nat} {size : α → Nat} {size' : β → Nat}
    {x : Except Error (α × List UInt8)} {f : α × List UInt8 → Except Error (β × List UInt8)}
    (hx : Within n size x)
    (hf : ∀ a rest, size a + rest.length ≤ n → Within n size' (f (a, rest))) :
    Within n size' (x >>= f) := by
  intro b rest h
  obtain ⟨⟨a, more⟩, ha, h⟩ := (bind_ok_iff _ _ _).mp h
  exact hf a more (hx a more ha) b rest h

theorem within_mono {m n : Nat} {size size' : α → Nat} {x : Except Error (α × List UInt8)}
    (h : Within m size x) (hle : ∀ a k, size a + k ≤ m → size' a + k ≤ n) : Within n size' x :=
  fun a rest hx => hle a rest.length (h a rest hx)

theorem length_le_of_within {n : Nat} {size : α → Nat} {x : Except Error (α × List UInt8)}
    (h : Within n size x) {a : α} {rest : List UInt8} (hx : x = .ok (a, rest)) :
    rest.length ≤ n :=
  Nat.le_trans (Nat.le_add_left _ _) (h a rest hx)

theorem within_take (n : Nat) (bytes : List UInt8) :
    Within bytes.length List.length (take n bytes) := by
  unfold take
  simp only
  split
  · refine within_pure ?_
    rw [List.length_take, List.length_drop]
    omega
  · exact within_error _ _ _

theorem within_argument (low : Nat) (bytes : List UInt8) :
    Within bytes.length (fun _ => 0) (argument low bytes) := by
  unfold argument
  split
  · exact within_pure (by simp)
  split
  · exact within_bind (within_take _ _) fun front rest h => within_pure (by omega)
  split
  · exact within_pure (by simp)
  · exact within_error _ _ _

theorem within_ofBytes (bytes : List UInt8) :
    Within bytes.length (fun _ => 1) (Head.ofBytes bytes) := by
  cases bytes with
  | nil => exact within_error _ _ _
  | cons b bytes =>
    intro h rest hread
    obtain ⟨⟨arg, more⟩, harg, hread⟩ := (bind_ok_iff _ _ _).mp hread
    obtain ⟨h', _, hread⟩ := (bind_ok_iff _ _ _).mp hread
    cases hread
    have := within_argument _ _ _ _ harg
    simp only [List.length_cons]
    omega

theorem within_chunks (length : Head → Option (Option Nat)) (check : List UInt8 → Bool)
    (fuel nested : Nat) (read : List (List UInt8)) (bytes : List UInt8) :
    Within (bytes.length + read.flatten.length) List.length
      (chunks length check fuel nested read bytes) := by
  induction fuel generalizing nested read bytes with
  | zero => exact within_error _ _ _
  | succ fuel ih =>
    have hhead : Within (bytes.length + read.flatten.length) (fun _ => read.flatten.length + 1)
        (Head.ofBytes bytes) := within_mono (within_ofBytes bytes) fun _ k hk => by omega
    rw [chunks]
    refine within_bind hhead fun h more hmore => ?_
    simp only at hmore ⊢
    split
    · split
      · refine within_pure ?_
        rw [List.length_flatten, List.map_reverse, List.sum_reverse, ← List.length_flatten]
        omega
      · exact within_mono (ih _ read more) fun _ k hk => by omega
    · split
      · exact within_error _ _ _
      · exact within_mono (ih _ read more) fun _ k hk => by omega
      · rename_i n _
        have htake : Within (bytes.length + read.flatten.length)
            (fun s => s.length + read.flatten.length) (take n more) :=
          within_mono (within_take n more) fun _ k hk => by omega
        refine within_bind htake fun chunk rest hrest => ?_
        simp only at hrest ⊢
        split
        · refine within_mono (ih _ (chunk :: read) rest) fun _ k hk => ?_
          rw [List.flatten_cons, List.length_append] at hk
          omega
        · exact within_error _ _ _

theorem within_content (length : Head → Option (Option Nat)) (check : List UInt8 → Bool)
    (n : Option Nat) (bytes : List UInt8) :
    Within bytes.length List.length (content length check n bytes) := by
  unfold content
  split
  · refine within_bind (within_take _ bytes) fun s rest h => ?_
    simp only
    split
    · exact within_pure h
    · exact within_error _ _ _
  · exact within_chunks length check _ 1 [] bytes

theorem within_untaggedWithin (fuel : Nat) (bytes : List UInt8) :
    Within bytes.length (fun _ => 1) (untaggedWithin fuel bytes) := by
  induction fuel generalizing bytes with
  | zero => exact within_error _ _ _
  | succ fuel ih =>
    rw [untaggedWithin]
    refine within_bind (within_ofBytes bytes) fun h rest hrest => ?_
    cases h with
    | tag n => exact within_mono (ih rest) fun _ k hk => by omega
    | _ => exact within_pure hrest

theorem within_untagged (bytes : List UInt8) :
    Within bytes.length (fun _ => 1) (untagged bytes) := by
  refine within_bind (within_ofBytes bytes) fun h rest hrest => ?_
  cases h with
  | tag n => exact within_mono (within_untaggedWithin _ rest) fun _ k hk => by omega
  | _ => exact within_pure hrest

theorem within_bigNumber (bytes : List UInt8) :
    Within bytes.length (fun _ => 1) (bigNumber bytes) := by
  refine within_bind (within_ofBytes bytes) fun h rest hrest => ?_
  cases h with
  | bytes n =>
    have hcontent : Within bytes.length (fun _ => 1) (byteContent n rest) :=
      within_mono (within_content _ _ n rest) fun _ k hk => by omega
    exact within_bind hcontent fun s more hmore => within_pure hmore
  | _ => exact within_error _ _ _

theorem within_integerHeadWithin (fuel : Nat) (bytes : List UInt8) :
    Within bytes.length (fun _ => 1) (integerHeadWithin fuel bytes) := by
  induction fuel generalizing bytes with
  | zero => exact within_error _ _ _
  | succ fuel ih =>
    rw [integerHeadWithin]
    refine within_bind (within_ofBytes bytes) fun h rest hrest => ?_
    cases h with
    | tag n =>
      simp only
      split
      · exact within_pure hrest
      · exact within_mono (ih rest) fun _ k hk => by omega
    | _ => exact within_pure hrest

theorem within_integerHead (bytes : List UInt8) :
    Within bytes.length (fun _ => 1) (integerHead bytes) := by
  refine within_bind (within_ofBytes bytes) fun h rest hrest => ?_
  cases h with
  | tag n => exact within_integerHeadWithin _ bytes
  | _ => exact within_pure hrest

theorem within_octet (bytes : List UInt8) : Within bytes.length (fun _ => 1) (octet bytes) := by
  refine within_bind (within_integerHead bytes) fun h rest hrest => ?_
  have hbig : Within bytes.length (fun _ => 1) (bigNumber rest) :=
    within_mono (within_bigNumber rest) fun _ k hk => by omega
  split
  · rename_i heq
    cases heq
    split
    · exact within_pure hrest
    · exact within_error _ _ _
  · rename_i heq
    cases heq
    refine within_bind hbig fun s more hmore => ?_
    split
    · rename_i heq
      cases heq
      exact within_pure hmore
    · rename_i heq
      cases heq
      exact within_pure hmore
    · exact within_error _ _ _
  · rename_i heq
    cases heq
    exact within_bind hbig fun s more hmore => within_error _ _ _
  · exact within_error _ _ _

section items

variable {item : List UInt8 → Except Error (α × List UInt8)} {size : Nat}

theorem within_count (h : ∀ bytes, Within bytes.length (fun _ => size) (item bytes)) (n : Nat)
    (read : List α) (bytes : List UInt8) :
    Within (bytes.length + size * read.length) (fun as => size * as.length)
      (count item n read bytes) := by
  induction n generalizing read bytes with
  | zero =>
    refine within_pure ?_
    rw [List.length_reverse]
    omega
  | succ n ih =>
    have hitem : Within (bytes.length + size * read.length)
        (fun _ => size * (read.length + 1)) (item bytes) :=
      within_mono (h bytes) fun _ k hk => by rw [Nat.mul_succ]; omega
    refine within_bind hitem fun a rest hrest => ?_
    refine within_mono (ih (a :: read) rest) fun _ k hk => ?_
    rw [List.length_cons] at hk
    omega

theorem within_untilStop (h : ∀ bytes, Within bytes.length (fun _ => size) (item bytes))
    (fuel : Nat) (read : List α) (bytes : List UInt8) :
    Within (bytes.length + size * read.length) (fun as => size * as.length)
      (untilStop item fuel read bytes) := by
  induction fuel generalizing read bytes with
  | zero => exact within_error _ _ _
  | succ fuel ih =>
    have hhead : Within (bytes.length + size * read.length) (fun _ => size * read.length + 1)
        (Head.ofBytes bytes) := within_mono (within_ofBytes bytes) fun _ k hk => by omega
    rw [untilStop]
    have hitem : Within (bytes.length + size * read.length)
        (fun _ => size * (read.length + 1)) (item bytes) :=
      within_mono (h bytes) fun _ k hk => by rw [Nat.mul_succ]; omega
    refine within_bind hhead fun h' more hmore => ?_
    cases h' with
    | stop =>
      refine within_pure ?_
      rw [List.length_reverse]
      omega
    | _ =>
      refine within_bind hitem fun a rest hrest => ?_
      refine within_mono (ih (a :: read) rest) fun _ k hk => ?_
      rw [List.length_cons] at hk
      omega

theorem within_items (h : ∀ bytes, Within bytes.length (fun _ => size) (item bytes))
    (n : Option Nat) (bytes : List UInt8) :
    Within bytes.length (fun as => size * as.length) (items item n bytes) := by
  unfold items
  split
  · exact within_count h _ [] bytes
  · exact within_untilStop h _ [] bytes

end items

theorem within_text (depth : Nat) (bytes : List UInt8) :
    Within bytes.length (fun s => (Text.Utf8.encode s).length) (text depth bytes) := by
  refine within_bind (within_untagged bytes) fun h rest hrest => ?_
  cases h with
  | text n =>
    have hcontent : Within bytes.length List.length (textContent n rest) :=
      within_mono (within_content _ _ n rest) fun _ k hk => by omega
    refine within_bind hcontent fun s more hmore => within_pure ?_
    cases hs : Text.Utf8.decode? s with
    | none =>
      have hempty : (Text.Utf8.encode "").length = 0 := rfl
      simp only [Option.getD_none, hempty]
      omega
    | some t => rwa [Option.getD_some, Utf8Decoding.decode?_eq_some_iff.mp hs]
  | _ => exact within_error _ _ _

theorem within_blob (depth : Nat) (bytes : List UInt8) :
    Within bytes.length List.length (blob depth bytes) := by
  refine within_bind (within_untagged bytes) fun h rest hrest => ?_
  cases h with
  | bytes n => exact within_mono (within_content _ _ n rest) fun _ k hk => by omega
  | array n =>
    simp only
    split
    · exact within_error _ _ _
    · exact within_mono (within_items within_octet n rest) fun _ k hk => by omega
  | _ => exact within_error _ _ _

theorem within_optional {d : Decoder α} {size : α → Nat}
    (h : ∀ depth bytes, Within bytes.length size (d depth bytes)) (depth : Nat)
    (bytes : List UInt8) :
    Within bytes.length (fun o => o.elim 0 size) (Cbor.optional d depth bytes) := by
  refine within_bind (within_ofBytes bytes) fun head rest hrest => ?_
  split
  · rename_i heq
    cases heq
    exact within_pure (by simp; omega)
  · rename_i heq
    cases heq
    exact within_pure (by simp; omega)
  · exact within_bind (h depth bytes) fun a more hmore => within_pure hmore

theorem within_skip (depth : Nat) (bytes : List UInt8) :
    Within bytes.length (fun _ => 0) (skip depth bytes) := by
  induction depth using Nat.strongRecOn generalizing bytes with
  | ind depth ih =>
    rw [skip.eq_def]
    refine within_bind (within_ofBytes bytes) fun h rest hrest => ?_
    have hdone : Within bytes.length (fun _ : Unit => 0) (.ok ((), rest)) :=
      within_pure (by omega)
    have hcontent : ∀ length check n,
        Within bytes.length (fun _ => 0) (content length check n rest) := fun _ _ n =>
      within_mono (within_content _ _ n rest) fun _ k hk => by omega
    have hbig : Within bytes.length (fun _ => 0) (bigNumber rest) :=
      within_mono (within_bigNumber rest) fun _ k hk => by omega
    have hitems : ∀ (item : List UInt8 → Except Error (Unit × List UInt8)) n,
        (∀ bytes, Within bytes.length (fun _ => 0) (item bytes)) →
        Within bytes.length (fun _ => 0) (items item n rest) := fun _ n hi =>
      within_mono (within_items hi n rest) fun _ k hk => by omega
    simp only
    split
    · exact hdone
    · exact hdone
    · exact hdone
    · split
      · exact hdone
      · exact within_error _ _ _
    · exact within_error _ _ _
    · exact within_bind (hcontent _ _ _) fun s more hmore => within_pure hmore
    · exact within_bind (hcontent _ _ _) fun s more hmore => within_pure hmore
    · exact within_bind hbig fun s more hmore => within_pure hmore
    · refine within_bind hbig fun s more hmore => ?_
      simp only
      split
      · exact within_error _ _ _
      · exact within_pure hmore
    · split
      · exact within_error _ _ _
      · exact within_mono (ih _ (Nat.lt_succ_self _) rest) fun _ k hk => by omega
    · split
      · exact within_error _ _ _
      · exact within_bind (hitems _ _ (ih _ (Nat.lt_succ_self _))) fun s more hmore =>
          within_pure hmore
    · split
      · exact within_error _ _ _
      · refine within_bind (hitems _ _ fun b => ?_) fun s more hmore => within_pure hmore
        refine within_bind (ih _ (Nat.lt_succ_self _) b) fun _ more hmore => ?_
        exact within_mono (ih _ (Nat.lt_succ_self _) more) fun _ k hk => by omega

theorem within_key (bytes : List UInt8) : Within bytes.length (fun _ => 0) (key bytes) := by
  have hcontent : ∀ length check n rest, 1 + rest.length ≤ bytes.length →
      Within bytes.length (fun _ => 0) (content length check n rest) := fun _ _ n rest _ =>
    within_mono (within_content _ _ n rest) fun _ k hk => by omega
  refine within_bind (within_untagged bytes) fun h rest hrest => ?_
  cases h with
  | text n | bytes n =>
    cases n with
    | none => exact within_error _ _ _
    | some n =>
      simp only
      split
      · exact hcontent _ _ _ _ hrest
      · exact within_error _ _ _
  | _ => exact within_error _ _ _

section records

def Keeps (n : Nat) (P : α → Prop) (s : Slot α) : Prop :=
  ∀ depth bytes a a' rest, bytes.length ≤ n → P a → s.read depth bytes a = .ok (a', rest) →
    P a' ∧ rest.length ≤ bytes.length

variable {n : Nat} {P : α → Prop} {slots : List (Slot α)}

theorem keeps_of {name : String} {d : Decoder β} {size : β → Nat} {put : β → α → α}
    (hd : ∀ depth bytes, Within bytes.length size (d depth bytes))
    (hput : ∀ b a, size b ≤ n → P a → P (put b a)) : Keeps n P (.of name d put) := by
  intro depth bytes a a' rest hn ha h
  obtain ⟨⟨b, more⟩, hb, h⟩ := (bind_ok_iff _ _ _).mp h
  have hsize := hd depth bytes b more hb
  cases h
  exact ⟨hput b a (by omega) ha, by omega⟩

theorem member_keeps (hs : ∀ s ∈ slots, Keeps n P s) {depth : Nat} {seen seen' : List String}
    {a a' : α} {bytes rest : List UInt8} (hn : bytes.length ≤ n) (ha : P a)
    (h : member slots depth seen a bytes = .ok ((seen', a'), rest)) :
    P a' ∧ rest.length ≤ bytes.length := by
  obtain ⟨⟨k, more⟩, hk, h⟩ := (bind_ok_iff _ _ _).mp h
  have hmore := length_le_of_within (within_key bytes) hk
  simp only at h
  split at h
  · obtain ⟨⟨u, left⟩, hskip, h⟩ := (bind_ok_iff _ _ _).mp h
    have hleft := length_le_of_within (within_skip depth more) hskip
    cases h
    exact ⟨ha, Nat.le_trans hleft hmore⟩
  · rename_i s hf
    split at h
    · cases h
    · obtain ⟨⟨b, left⟩, hread, h⟩ := (bind_ok_iff _ _ _).mp h
      obtain ⟨hb, hleft⟩ :=
        hs s (List.mem_of_find?_eq_some hf) depth more a b left (by omega) ha hread
      cases h
      exact ⟨hb, Nat.le_trans hleft hmore⟩

theorem countMembers_keeps (hs : ∀ s ∈ slots, Keeps n P s) {depth count : Nat}
    {seen : List String} {a a' : α} {bytes rest : List UInt8} (hn : bytes.length ≤ n) (ha : P a)
    (h : countMembers slots depth count (seen, a) bytes = .ok (a', rest)) : P a' := by
  induction count generalizing seen a bytes with
  | zero =>
    cases h
    exact ha
  | succ count ih =>
    obtain ⟨⟨⟨seen', b⟩, more⟩, hm, h⟩ := (bind_ok_iff _ _ _).mp h
    obtain ⟨hb, hmore⟩ := member_keeps hs hn ha hm
    exact ih (by omega) hb h

theorem membersUntilStop_keeps (hs : ∀ s ∈ slots, Keeps n P s) {depth fuel : Nat}
    {seen : List String} {a a' : α} {bytes rest : List UInt8} (hn : bytes.length ≤ n) (ha : P a)
    (h : membersUntilStop slots depth fuel (seen, a) bytes = .ok (a', rest)) : P a' := by
  induction fuel generalizing seen a bytes with
  | zero => cases h
  | succ fuel ih =>
    obtain ⟨⟨head, left⟩, _, h⟩ := (bind_ok_iff _ _ _).mp h
    cases head with
    | stop =>
      cases h
      exact ha
    | _ =>
      obtain ⟨⟨⟨seen', b⟩, more⟩, hm, h⟩ := (bind_ok_iff _ _ _).mp h
      obtain ⟨hb, hmore⟩ := member_keeps hs hn ha hm
      exact ih (by omega) hb h

theorem record_keeps (hs : ∀ s ∈ slots, Keeps n P s) {depth : Nat} {initial a : α}
    {bytes rest : List UInt8} (hn : bytes.length ≤ n) (hi : P initial)
    (h : record initial slots depth bytes = .ok (a, rest)) : P a := by
  obtain ⟨⟨head, more⟩, hhead, h⟩ := (bind_ok_iff _ _ _).mp h
  have hmore := length_le_of_within (within_untagged bytes) hhead
  cases head with
  | map count =>
    simp only at h
    split at h
    · cases h
    · exact countMembers_keeps hs (by omega) hi h
    · exact membersUntilStop_keeps hs (by omega) hi h
  | _ => cases h

end records

end Attestation.Proofs.CborSizes
