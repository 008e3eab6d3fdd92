import Attestation.Cbor.Decode
import Attestation.Proofs.JsonRecords

namespace Attestation.Proofs.CborPrefixes

open Cbor JsonRecords

variable {α β : Type} {more : List UInt8}

/-- What is read first is read again, with more bytes behind what is left over. -/
def Extends (more : List UInt8) (x y : Except Error (α × List UInt8)) : Prop :=
  ∀ a rest, x = .ok (a, rest) → y = .ok (a, rest ++ more)

theorem extends_pure (a : α) (rest : List UInt8) :
    Extends more (.ok (a, rest)) (.ok (a, rest ++ more)) := by
  rintro _ _ ⟨⟩
  rfl

theorem extends_error (e : Error) (y : Except Error (α × List UInt8)) :
    Extends more (.error e) y := nofun

theorem extends_bind {x y : Except Error (α × List UInt8)}
    {f g : α × List UInt8 → Except Error (β × List UInt8)} (hx : Extends more x y)
    (hf : ∀ a rest, Extends more (f (a, rest)) (g (a, rest ++ more))) :
    Extends more (x >>= f) (y >>= g) := by
  intro b rest h
  obtain ⟨⟨a, left⟩, ha, h⟩ := (bind_ok_iff _ _ _).mp h
  rw [hx a left ha]
  exact hf a left b rest h

theorem extends_take (n : Nat) (bytes : List UInt8) :
    Extends more (take n bytes) (take n (bytes ++ more)) := by
  intro front rest h
  simp only [take] at h ⊢
  split at h
  · rename_i hn
    cases h
    have hle : n ≤ bytes.length := by
      rw [List.length_take] at hn
      omega
    rw [List.take_append_of_le_length hle, List.drop_append_of_le_length hle, if_pos hn]
  · cases h

theorem extends_argument (low : Nat) (bytes : List UInt8) :
    Extends more (argument low bytes) (argument low (bytes ++ more)) := by
  unfold argument
  split
  · exact extends_pure _ _
  split
  · exact extends_bind (extends_take _ _) fun _ _ => extends_pure _ _
  split
  · exact extends_pure _ _
  · exact extends_error _ _

theorem extends_ofBytes (bytes : List UInt8) :
    Extends more (Head.ofBytes bytes) (Head.ofBytes (bytes ++ more)) := by
  cases bytes with
  | nil => exact extends_error _ _
  | cons b bytes =>
    refine extends_bind (extends_argument _ bytes) fun arg rest => ?_
    simp only
    cases Head.ofMajor (b >>> 5).toNat (b &&& 0x1F).toNat arg with
    | error e => exact extends_error _ _
    | ok h => exact extends_pure _ _

theorem extends_chunks (length : Head → Option (Option Nat)) (check : List UInt8 → Bool)
    {fuel fuel' : Nat} (hf : fuel ≤ fuel') (nested : Nat) (read : List (List UInt8))
    (bytes : List UInt8) : Extends more (chunks length check fuel nested read bytes)
      (chunks length check fuel' nested read (bytes ++ more)) := by
  induction fuel generalizing fuel' nested read bytes with
  | zero => exact extends_error _ _
  | succ fuel ih =>
    obtain ⟨fuel', rfl⟩ : ∃ n, fuel' = n + 1 := ⟨fuel' - 1, by omega⟩
    have hf := Nat.le_of_succ_le_succ hf
    rw [chunks, chunks]
    refine extends_bind (extends_ofBytes bytes) fun h rest => ?_
    simp only
    split
    · split
      · exact extends_pure _ _
      · exact ih hf _ read rest
    · split
      · exact extends_error _ _
      · exact ih hf _ read rest
      · refine extends_bind (extends_take _ rest) fun chunk rest => ?_
        simp only
        split
        · exact ih hf _ _ rest
        · exact extends_error _ _

theorem extends_content (length : Head → Option (Option Nat)) (check : List UInt8 → Bool)
    (n : Option Nat) (bytes : List UInt8) :
    Extends more (content length check n bytes) (content length check n (bytes ++ more)) := by
  unfold content
  split
  · refine extends_bind (extends_take _ bytes) fun s rest => ?_
    simp only
    split
    · exact extends_pure _ _
    · exact extends_error _ _
  · exact extends_chunks length check (by rw [List.length_append]; omega) 1 [] bytes

theorem extends_untaggedWithin {fuel fuel' : Nat} (hf : fuel ≤ fuel') (bytes : List UInt8) :
    Extends more (untaggedWithin fuel bytes) (untaggedWithin fuel' (bytes ++ more)) := by
  induction fuel generalizing fuel' bytes with
  | zero => exact extends_error _ _
  | succ fuel ih =>
    obtain ⟨fuel', rfl⟩ : ∃ n, fuel' = n + 1 := ⟨fuel' - 1, by omega⟩
    rw [untaggedWithin, untaggedWithin]
    refine extends_bind (extends_ofBytes bytes) fun h rest => ?_
    cases h with
    | tag n => exact ih (Nat.le_of_succ_le_succ hf) rest
    | _ => exact extends_pure _ _

theorem extends_untagged (bytes : List UInt8) :
    Extends more (untagged bytes) (untagged (bytes ++ more)) := by
  refine extends_bind (extends_ofBytes bytes) fun h rest => ?_
  cases h with
  | tag n => exact extends_untaggedWithin (by rw [List.length_append]; omega) rest
  | _ => exact extends_pure _ _

theorem extends_bigNumber (bytes : List UInt8) :
    Extends more (bigNumber bytes) (bigNumber (bytes ++ more)) := by
  refine extends_bind (extends_ofBytes bytes) fun h rest => ?_
  cases h with
  | bytes n => exact extends_bind (extends_content _ _ n rest) fun _ _ => extends_pure _ _
  | _ => exact extends_error _ _

theorem extends_integerHeadWithin {fuel fuel' : Nat} (hf : fuel ≤ fuel') (bytes : List UInt8) :
    Extends more (integerHeadWithin fuel bytes) (integerHeadWithin fuel' (bytes ++ more)) := by
  induction fuel generalizing fuel' bytes with
  | zero => exact extends_error _ _
  | succ fuel ih =>
    obtain ⟨fuel', rfl⟩ : ∃ n, fuel' = n + 1 := ⟨fuel' - 1, by omega⟩
    rw [integerHeadWithin, integerHeadWithin]
    refine extends_bind (extends_ofBytes bytes) fun h rest => ?_
    cases h with
    | tag n =>
      simp only
      split
      · exact extends_pure _ _
      · exact ih (Nat.le_of_succ_le_succ hf) rest
    | _ => exact extends_pure _ _

theorem extends_integerHead (bytes : List UInt8) :
    Extends more (integerHead bytes) (integerHead (bytes ++ more)) := by
  refine extends_bind (extends_ofBytes bytes) fun h rest => ?_
  cases h with
  | tag n => exact extends_integerHeadWithin (by rw [List.length_append]; omega) bytes
  | _ => exact extends_pure _ _

theorem extends_octet (bytes : List UInt8) :
    Extends more (octet bytes) (octet (bytes ++ more)) := by
  refine extends_bind (extends_integerHead bytes) fun h rest => ?_
  split
  · rename_i heq
    cases heq
    simp only
    split
    · exact extends_pure _ _
    · exact extends_error _ _
  · rename_i heq
    cases heq
    refine extends_bind (extends_bigNumber rest) fun s rest => ?_
    split
    · rename_i heq
      cases heq
      exact extends_pure _ _
    · rename_i heq
      cases heq
      exact extends_pure _ _
    · exact extends_error _ _
  · rename_i heq
    cases heq
    intro b left hb
    obtain ⟨_, _, hb⟩ := (bind_ok_iff _ _ _).mp hb
    cases hb
  · exact extends_error _ _

section items

variable {item : List UInt8 → Except Error (α × List UInt8)}
  (hi : ∀ bytes, Extends more (item bytes) (item (bytes ++ more)))

include hi

theorem extends_count (n : Nat) (read : List α) (bytes : List UInt8) :
    Extends more (count item n read bytes) (count item n read (bytes ++ more)) := by
  induction n generalizing read bytes with
  | zero => exact extends_pure _ _
  | succ n ih => exact extends_bind (hi bytes) fun a rest => ih (a :: read) rest

theorem extends_untilStop {fuel fuel' : Nat} (hf : fuel ≤ fuel') (read : List α)
    (bytes : List UInt8) : Extends more (untilStop item fuel read bytes)
      (untilStop item fuel' read (bytes ++ more)) := by
  induction fuel generalizing fuel' read bytes with
  | zero => exact extends_error _ _
  | succ fuel ih =>
    obtain ⟨fuel', rfl⟩ : ∃ n, fuel' = n + 1 := ⟨fuel' - 1, by omega⟩
    have hstep (a : α) (rest : List UInt8) : Extends more (untilStop item fuel (a :: read) rest)
        (untilStop item fuel' (a :: read) (rest ++ more)) :=
      ih (Nat.le_of_succ_le_succ hf) (a :: read) rest
    rw [untilStop, untilStop]
    refine extends_bind (extends_ofBytes bytes) fun h rest => ?_
    cases h with
    | stop => exact extends_pure _ _
    | _ => exact extends_bind (hi bytes) hstep

theorem extends_items (n : Option Nat) (bytes : List UInt8) :
    Extends more (items item n bytes) (items item n (bytes ++ more)) := by
  unfold items
  split
  · exact extends_count hi _ [] bytes
  · exact extends_untilStop hi (by rw [List.length_append]; omega) [] bytes

end items

/-- A decoder that does not look ahead. -/
def Prompt (d : Decoder α) : Prop :=
  ∀ depth more bytes, Extends more (d depth bytes) (d depth (bytes ++ more))

theorem prompt_text : Prompt text := by
  intro depth more bytes
  refine extends_bind (extends_untagged bytes) fun h rest => ?_
  cases h with
  | text n => exact extends_bind (extends_content _ _ n rest) fun _ _ => extends_pure _ _
  | _ => exact extends_error _ _

theorem prompt_blob : Prompt blob := by
  intro depth more bytes
  refine extends_bind (extends_untagged bytes) fun h rest => ?_
  cases h with
  | bytes n => exact extends_content _ _ n rest
  | array n =>
    simp only
    split
    · exact extends_error _ _
    · exact extends_items extends_octet n rest
  | _ => exact extends_error _ _

theorem optional_eq (d : Decoder α) (depth : Nat) (bytes : List UInt8) :
    Cbor.optional d depth bytes = Head.ofBytes bytes >>= fun (h, rest) =>
      if h = .simple 22 ∨ h = .simple 23 then pure (none, rest)
      else d depth bytes >>= fun (a, rest) => pure (some a, rest) := by
  unfold Cbor.optional
  congr 1
  funext ⟨h, rest⟩
  split
  · rename_i heq
    cases heq
    rfl
  · rename_i heq
    cases heq
    rfl
  · rename_i h22 h23
    have hvalue : ¬(h = .simple 22 ∨ h = .simple 23) := by
      rintro (rfl | rfl)
      · exact h22 rest rfl
      · exact h23 rest rfl
    exact (if_neg hvalue).symm

theorem prompt_optional {d : Decoder α} (hd : Prompt d) : Prompt (Cbor.optional d) := by
  intro depth more bytes
  rw [optional_eq, optional_eq]
  refine extends_bind (extends_ofBytes bytes) fun h rest => ?_
  simp only
  split
  · exact extends_pure _ _
  · exact extends_bind (hd depth more bytes) fun _ _ => extends_pure _ _

theorem prompt_skip : Prompt skip := by
  intro depth
  induction depth using Nat.strongRecOn with
  | ind depth ih =>
  intro more bytes
  rw [skip.eq_def, skip.eq_def]
  refine extends_bind (extends_ofBytes bytes) fun h rest => ?_
  simp only
  split
  case h_1 | h_2 | h_3 => exact extends_pure _ _
  case h_5 => exact extends_error _ _
  case h_4 =>
    split
    · exact extends_pure _ _
    · exact extends_error _ _
  case h_6 n => exact extends_bind (extends_content _ _ n rest) fun _ _ => extends_pure _ _
  case h_7 n => exact extends_bind (extends_content _ _ n rest) fun _ _ => extends_pure _ _
  case h_8 => exact extends_bind (extends_bigNumber rest) fun _ _ => extends_pure _ _
  case h_9 =>
    refine extends_bind (extends_bigNumber rest) fun s rest => ?_
    simp only
    split
    · exact extends_error _ _
    · exact extends_pure _ _
  case h_10 =>
    cases depth with
    | zero => exact extends_error _ _
    | succ depth => exact ih depth (Nat.lt_succ_self _) more rest
  case h_11 n =>
    cases depth with
    | zero => exact extends_error _ _
    | succ depth =>
      exact extends_bind (extends_items (ih depth (Nat.lt_succ_self _) more) n rest)
        fun _ _ => extends_pure _ _
  case h_12 n =>
    cases depth with
    | zero => exact extends_error _ _
    | succ depth =>
      have hvalue := ih depth (Nat.lt_succ_self _) more
      exact extends_bind (extends_items (fun b => extends_bind (hvalue b) fun _ rest => hvalue rest)
        n rest) fun _ _ => extends_pure _ _

theorem extends_key (bytes : List UInt8) : Extends more (key bytes) (key (bytes ++ more)) := by
  refine extends_bind (extends_untagged bytes) fun h rest => ?_
  cases h with
  | text n | bytes n =>
    cases n with
    | none => exact extends_error _ _
    | some n =>
      simp only
      split
      · exact extends_content _ _ _ rest
      · exact extends_error _ _
  | _ => exact extends_error _ _

section records

variable {slots : List (Slot α)}

theorem extends_slot {name : String} {d : Decoder β} {store : β → α → α} (hd : Prompt d)
    (depth : Nat) (bytes : List UInt8) (a : α) :
    Extends more ((Slot.of name d store).read depth bytes a)
      ((Slot.of name d store).read depth (bytes ++ more) a) :=
  extends_bind (hd depth more bytes) fun _ _ => extends_pure _ _

def PromptSlots (slots : List (Slot α)) : Prop :=
  ∀ s ∈ slots, ∀ depth more bytes a, Extends more (s.read depth bytes a)
    (s.read depth (bytes ++ more) a)

variable (hs : PromptSlots slots)

include hs

theorem extends_member (depth : Nat) (seen : List String) (a : α) (bytes : List UInt8) :
    Extends more (member slots depth seen a bytes) (member slots depth seen a (bytes ++ more)) := by
  refine extends_bind (extends_key bytes) fun k rest => ?_
  simp only
  split
  · exact extends_bind (prompt_skip depth more rest) fun _ _ => extends_pure _ _
  · rename_i s hfound
    split
    · exact extends_error _ _
    · exact extends_bind (hs s (List.mem_of_find?_eq_some hfound) depth more rest a)
        fun _ _ => extends_pure _ _

theorem extends_countMembers (depth n : Nat) (x : List String × α) (bytes : List UInt8) :
    Extends more (countMembers slots depth n x bytes)
      (countMembers slots depth n x (bytes ++ more)) := by
  induction n generalizing x bytes with
  | zero => exact extends_pure _ _
  | succ n ih => exact extends_bind (extends_member hs depth x.1 x.2 bytes) ih

theorem extends_membersUntilStop (depth : Nat) {fuel fuel' : Nat} (hf : fuel ≤ fuel')
    (x : List String × α) (bytes : List UInt8) :
    Extends more (membersUntilStop slots depth fuel x bytes)
      (membersUntilStop slots depth fuel' x (bytes ++ more)) := by
  induction fuel generalizing fuel' x bytes with
  | zero => exact extends_error _ _
  | succ fuel ih =>
    obtain ⟨fuel', rfl⟩ : ∃ n, fuel' = n + 1 := ⟨fuel' - 1, by omega⟩
    have hstep := ih (Nat.le_of_succ_le_succ hf)
    refine extends_bind (extends_ofBytes bytes) fun h rest => ?_
    cases h with
    | stop => exact extends_pure _ _
    | _ => exact extends_bind (extends_member hs depth x.1 x.2 bytes) hstep

theorem prompt_record (initial : α) : Prompt (record initial slots) := by
  intro depth more bytes
  refine extends_bind (extends_untagged bytes) fun h rest => ?_
  cases h with
  | map n =>
    simp only
    split
    · exact extends_error _ _
    · exact extends_countMembers hs _ _ _ rest
    · exact extends_membersUntilStop hs _ (by rw [List.length_append]; omega) _ rest
  | _ => exact extends_error _ _

end records

end Attestation.Proofs.CborPrefixes
