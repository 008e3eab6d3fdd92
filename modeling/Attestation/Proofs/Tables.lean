import Attestation.Proofs.SelectionOrder
import Mathlib.Data.List.Induction

namespace Attestation.Proofs.Tables

open SelectionOrder

variable {β : Type} {k k' : String} {v : β} {ms : List (String × β)}

theorem find?_cons (k k' : String) (v : β) (ms : List (String × β)) :
    Table.find? ((k', v) :: ms) k = if k' = k then some v else Table.find? ms k := by
  by_cases h : k' = k
  · simp [Table.find?, h]
  · simp [Table.find?, h]

theorem find?_insert (k k' : String) (v : β) (ms : List (String × β)) :
    Table.find? (Table.insert k v ms) k' = if k = k' then some v else Table.find? ms k' := by
  induction ms with
  | nil => rw [Table.insert, find?_cons]
  | cons m ms ih =>
    obtain ⟨key, value⟩ := m
    rw [Table.insert]
    split
    · rw [find?_cons]
    · split
      · rename_i he
        subst he
        rw [find?_cons, find?_cons]
        by_cases h : k = k' <;> simp only [h, if_true, if_false]
      · rename_i hne
        rw [find?_cons, find?_cons, ih]
        by_cases h : key = k'
        · rw [if_pos h, if_pos h, if_neg fun hk => hne (hk.trans h.symm)]
        · rw [if_neg h, if_neg h]

theorem find?_ofList (pairs : List (String × β)) (k : String) :
    Table.find? (Table.ofList pairs) k = Table.find? pairs.reverse k := by
  induction pairs using List.reverseRecOn with
  | nil => rfl
  | append_singleton pairs m ih =>
    obtain ⟨key, value⟩ := m
    rw [Table.ofList, List.foldl_append, List.foldl_cons, List.foldl_nil, find?_insert,
      List.reverse_append, List.reverse_singleton, List.singleton_append, find?_cons, ← ih]
    rfl

theorem find?_eq_none_iff : Table.find? ms k = none ↔ ∀ m ∈ ms, m.1 ≠ k := by
  simp [Table.find?]

theorem find?_eq_some_iff : Table.find? ms k = some v ↔
    ∃ before after, ms = before ++ (k, v) :: after ∧ ∀ m ∈ before, m.1 ≠ k := by
  induction ms with
  | nil => simp [Table.find?]
  | cons m ms ih =>
    obtain ⟨key, value⟩ := m
    rw [find?_cons]
    by_cases h : key = k
    · subst h
      rw [if_pos rfl, Option.some.injEq]
      constructor
      · rintro rfl
        exact ⟨[], ms, rfl, nofun⟩
      · rintro ⟨before, after, heq, hbefore⟩
        cases before with
        | nil =>
          cases heq
          rfl
        | cons b before =>
          cases heq
          exact absurd rfl (hbefore _ List.mem_cons_self)
    · rw [if_neg h, ih]
      constructor
      · rintro ⟨before, after, rfl, hbefore⟩
        exact ⟨(key, value) :: before, after, rfl, List.forall_mem_cons.mpr ⟨h, hbefore⟩⟩
      · rintro ⟨before, after, heq, hbefore⟩
        cases before with
        | nil =>
          cases heq
          exact absurd rfl h
        | cons b before =>
          cases heq
          exact ⟨before, after, rfl, (List.forall_mem_cons.mp hbefore).2⟩

theorem find?_of_mem (h : Ascending ms) (hm : (k, v) ∈ ms) : Table.find? ms k = some v := by
  induction ms with
  | nil => cases hm
  | cons m ms ih =>
    obtain ⟨key, value⟩ := m
    obtain ⟨hlt, hms⟩ := ascending_cons.mp h
    rw [find?_cons]
    obtain heq | hm := List.mem_cons.mp hm
    · cases heq
      exact if_pos rfl
    · rw [if_neg (String.ne_of_lt (hlt _ hm)), ih hms hm]

theorem mem_of_find? (h : Table.find? ms k = some v) : (k, v) ∈ ms := by
  obtain ⟨before, after, rfl, -⟩ := find?_eq_some_iff.mp h
  exact List.mem_append_right _ List.mem_cons_self

/-- Under a key that is not there, a pair is added to the others. -/
theorem insert_perm (h : Table.find? ms k = none) : (Table.insert k v ms).Perm ((k, v) :: ms) := by
  induction ms with
  | nil => exact List.Perm.refl _
  | cons m ms ih =>
    obtain ⟨key, value⟩ := m
    rw [find?_cons] at h
    split at h
    · cases h
    · rename_i hne
      rw [Table.insert]
      split
      · exact List.Perm.refl _
      · rw [if_neg (Ne.symm hne)]
        exact ((ih h).cons (key, value)).trans (List.Perm.swap ..)

end Attestation.Proofs.Tables
