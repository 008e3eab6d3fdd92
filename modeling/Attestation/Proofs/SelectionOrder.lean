import Attestation.Compositor
import Attestation.Proofs.JsonRecords

namespace Attestation.Proofs.SelectionOrder

open Json Compositor JsonRecords

variable {β : Type}

def Ascending (pairs : List (String × β)) : Prop := (pairs.map (·.1)).Pairwise (· < ·)

instance (pairs : List (String × β)) : Decidable (Ascending pairs) :=
  inferInstanceAs (Decidable ((pairs.map (·.1)).Pairwise (· < ·)))

theorem mem_insert {k : String} {v : β} {ms : List (String × β)} {m : String × β}
    (h : m ∈ Table.insert k v ms) : m.1 = k ∨ m ∈ ms := by
  induction ms with
  | nil =>
    rw [Table.insert, List.mem_singleton] at h
    exact Or.inl (congrArg Prod.fst h)
  | cons x ms ih =>
    obtain ⟨k', v'⟩ := x
    rw [Table.insert] at h
    split at h
    · obtain rfl | hm := List.mem_cons.mp h
      · exact Or.inl rfl
      · exact Or.inr hm
    · split at h
      · obtain rfl | hm := List.mem_cons.mp h
        · exact Or.inl rfl
        · exact Or.inr (List.mem_cons_of_mem _ hm)
      · obtain rfl | hm := List.mem_cons.mp h
        · exact Or.inr List.mem_cons_self
        · exact (ih hm).imp_right (List.mem_cons_of_mem _)

theorem ascending_cons {k : String} {v : β} {ms : List (String × β)} :
    Ascending ((k, v) :: ms) ↔ (∀ m ∈ ms, k < m.1) ∧ Ascending ms := by
  rw [Ascending, List.map_cons, List.pairwise_cons, List.forall_mem_map]
  rfl

theorem ascending_insert (k : String) (v : β) {ms : List (String × β)} (h : Ascending ms) :
    Ascending (Table.insert k v ms) := by
  induction ms with
  | nil => exact List.pairwise_singleton _ _
  | cons x ms ih =>
    obtain ⟨k', v'⟩ := x
    obtain ⟨hlt, hms⟩ := ascending_cons.mp h
    rw [Table.insert]
    split
    · rename_i hk
      refine ascending_cons.mpr ⟨?_, h⟩
      intro m hm
      obtain rfl | hm := List.mem_cons.mp hm
      · exact hk
      · exact String.lt_trans hk (hlt m hm)
    · rename_i hk
      split
      · rename_i he
        subst he
        exact ascending_cons.mpr ⟨hlt, hms⟩
      · rename_i hne
        have hlt' : k' < k := by
          obtain hle | hle := String.le_total k k'
          · exact absurd (String.le_antisymm hle (String.not_lt.mp hk)) hne
          · exact Decidable.byContradiction fun hn =>
              hne (String.le_antisymm (String.not_lt.mp hn) hle)
        refine ascending_cons.mpr ⟨?_, ih hms⟩
        intro m hm
        obtain rfl | hm := mem_insert hm
        · exact hlt'
        · exact hlt m hm

theorem ascending_foldl (pairs ms : List (String × β)) (h : Ascending ms) :
    Ascending (pairs.foldl (fun ms m => Table.insert m.1 m.2 ms) ms) := by
  induction pairs generalizing ms with
  | nil => exact h
  | cons m pairs ih => exact ih _ (ascending_insert m.1 m.2 h)

theorem ascending_ofList (pairs : List (String × β)) : Ascending (Table.ofList pairs) :=
  ascending_foldl pairs [] List.Pairwise.nil

/-- Objects that were read have their members in order. -/
theorem value_ascending {p : Place} {t : Tree} {ms : List (String × Value)}
    (h : Decoder.value p t = .ok (.object ms)) : Ascending ms := by
  cases t with
  | object members closed =>
    rw [Decoder.value] at h
    obtain ⟨q, _, h⟩ := (bind_ok_iff _ _ _).mp h
    obtain ⟨pairs, _, h⟩ := (bind_ok_iff _ _ _).mp h
    cases ending_eq_ok h
    exact ascending_ofList pairs
  | array items closed =>
    rw [Decoder.value] at h
    obtain ⟨q, _, h⟩ := (bind_ok_iff _ _ _).mp h
    obtain ⟨vs, _, h⟩ := (bind_ok_iff _ _ _).mp h
    cases ending_eq_ok h
  | number n => cases n <;> simp [Decoder.value] at h
  | string s => cases s <;> simp [Decoder.value] at h
  | null | bool b | broken => simp [Decoder.value] at h

def Ordered (c : Challenge) : Prop := ∀ ms, c.selection = some (.object ms) → Ascending ms

theorem record_keeps_order : Keeps Ordered Challenge.record.slots := by
  intro s hs p t c c' hc h
  simp only [Challenge.record, List.mem_cons, List.not_mem_nil, or_false] at hs
  obtain rfl | rfl := hs
  · simp only [Slot.optional, Slot.of] at h
    cases hd : Decoder.string p t with
    | error e => simp [hd, Except.map] at h
    | ok x =>
      simp only [hd, Except.map, Except.ok.injEq] at h
      subst c'
      exact hc
  · simp only [Slot.optional, Slot.of] at h
    cases hd : Decoder.optional Decoder.value p t with
    | error e => simp [hd, Except.map] at h
    | ok x =>
      simp only [hd, Except.map, Except.ok.injEq] at h
      subst c'
      intro ms hms
      simp only at hms
      subst x
      unfold Decoder.optional at hd
      split at hd
      · cases hd
      · cases hv : Decoder.value p t with
        | error e => simp [hv, Except.map] at hd
        | ok v =>
          simp only [hv, Except.map, Except.ok.injEq, Option.some.injEq] at hd
          subst v
          exact value_ascending hv

theorem ordered_ofBody (body : List UInt8) : Ordered (Challenge.ofBody body) := by
  unfold Challenge.ofBody
  split
  · rename_i c h
    obtain ⟨c', hd, hend⟩ := (bind_ok_iff _ _ _).mp h
    cases ending_eq_ok hend
    exact decode_keeps Challenge.record (fun ms hms => by cases hms) record_keeps_order hd
  · intro ms hms
    cases hms

theorem sortNames_perm (names : List String) : (sortNames names).Perm names :=
  List.mergeSort_perm names _

theorem sortNames_sorted (names : List String) : (sortNames names).Pairwise (· ≤ ·) := by
  have h := @List.pairwise_mergeSort _ (fun a b : String => decide (a ≤ b))
    (fun a b c hab hbc => decide_eq_true
      (String.le_trans (of_decide_eq_true hab) (of_decide_eq_true hbc)))
    (fun a b => by
      obtain h | h := String.le_total a b
      · rw [decide_eq_true h, Bool.true_or]
      · rw [decide_eq_true h, Bool.or_true])
    names
  exact h.imp of_decide_eq_true

theorem pairwise_lt_of_le {names : List String} (hs : names.Pairwise (· ≤ ·))
    (hn : names.Nodup) : names.Pairwise (· < ·) := by
  refine (hs.and hn).imp ?_
  rintro a b ⟨hle, hne⟩
  by_cases hlt : a < b
  · exact hlt
  · exact absurd (String.le_antisymm hle (String.not_lt.mp hlt)) hne

theorem sortNames_ascending {names : List String} (h : names.Nodup) :
    (sortNames names).Pairwise (· < ·) :=
  pairwise_lt_of_le (sortNames_sorted names) ((sortNames_perm names).nodup_iff.mpr h)

end Attestation.Proofs.SelectionOrder
