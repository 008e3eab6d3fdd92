import Attestation.Json.Decode
import Attestation.Proofs.JsonText
import Attestation.Proofs.SelectionOrder

namespace Attestation.Proofs.JsonValues

open Json JsonText SelectionOrder

mutual

/-- The number of arrays and objects around the innermost part. -/
def nesting : Value → Nat
  | .array vs => nestingItems vs + 1
  | .object ms => nestingMembers ms + 1
  | _ => 0

def nestingItems : List Value → Nat
  | [] => 0
  | v :: vs => max (nesting v) (nestingItems vs)

def nestingMembers : List (String × Value) → Nat
  | [] => 0
  | (_, v) :: ms => max (nesting v) (nestingMembers ms)

end

/-- A place where so many arrays and objects may stand inside one another. -/
def Roomy (p : Place) (n : Nat) : Prop := p.origin = .text → p.depth + n ≤ maxDepth

theorem roomy_of_le {p : Place} {m n : Nat} (h : Roomy p n) (hle : m ≤ n) : Roomy p m := by
  intro hp
  have := h hp
  omega

theorem roomy_value (depth n : Nat) : Roomy ⟨.value, depth⟩ n := nofun

theorem exists_inner {p : Place} {n : Nat} (h : Roomy p (n + 1)) :
    ∃ q, p.inner = .ok q ∧ q.origin = p.origin ∧ Roomy q n := by
  refine ⟨{ p with depth := p.depth + 1 }, ?_, rfl, ?_⟩
  · rw [Place.inner, if_neg]
    rintro ⟨hp, hd⟩
    have := h hp
    omega
  · intro hp
    have := h hp
    change p.depth + 1 + n ≤ maxDepth
    omega

mutual

theorem value_toTree : ∀ (v : Value) (p : Place), Roomy p (nesting v) →
    Decoder.value p v.toTree = .ok v.sorted
  | .null, _, _ | .bool _, _, _ | .number _, _, _ | .string _, _, _ => by
    simp [Value.toTree, Decoder.value, Value.sorted]
  | .array vs, p, h => by
    obtain ⟨q, hq, _, hroom⟩ := exists_inner h
    rw [Value.toTree, Decoder.value, hq]
    simp only [bind, Except.bind, valueItems_treesOf vs q [] hroom]
    simp [Decoder.ending, Value.sorted]
  | .object ms, p, h => by
    obtain ⟨q, hq, _, hroom⟩ := exists_inner h
    rw [Value.toTree, Decoder.value, hq]
    simp only [bind, Except.bind, valueMembers_memberTreesOf ms q [] hroom]
    simp [Decoder.ending, Value.sorted]

theorem valueItems_treesOf : ∀ (vs : List Value) (p : Place) (done : List Value),
    Roomy p (nestingItems vs) →
    Decoder.valueItems p done (Value.treesOf vs) = .ok (done.reverse ++ Value.sortedItems vs)
  | [], p, done, _ => by simp [Value.treesOf, Decoder.valueItems, Value.sortedItems]
  | v :: vs, p, done, h => by
    have hv := value_toTree v p (roomy_of_le h (Nat.le_max_left _ _))
    have hvs := valueItems_treesOf vs p (v.sorted :: done) (roomy_of_le h (Nat.le_max_right _ _))
    rw [Value.treesOf, Decoder.valueItems, hv]
    simp only [bind, Except.bind, hvs]
    simp [Value.sortedItems]

theorem valueMembers_memberTreesOf : ∀ (ms : List (String × Value)) (p : Place)
    (done : List (String × Value)), Roomy p (nestingMembers ms) →
    Decoder.valueMembers p done (Value.memberTreesOf ms) =
      .ok (done.reverse ++ Value.sortedMembers ms)
  | [], p, done, _ => by simp [Value.memberTreesOf, Decoder.valueMembers, Value.sortedMembers]
  | (k, v) :: ms, p, done, h => by
    have hv := value_toTree v p (roomy_of_le h (Nat.le_max_left _ _))
    have hms := valueMembers_memberTreesOf ms p ((k, v.sorted) :: done)
      (roomy_of_le h (Nat.le_max_right _ _))
    rw [Value.memberTreesOf, Decoder.valueMembers]
    simp only [Decoder.key, bind, Except.bind, hv, hms]
    simp [Value.sortedMembers]

end

section

variable {β : Type}

theorem insert_last (k : String) (v : β) (ms : List (String × β)) (h : ∀ m ∈ ms, m.1 < k) :
    Table.insert k v ms = ms ++ [(k, v)] := by
  induction ms with
  | nil => rfl
  | cons m ms ih =>
    obtain ⟨k', v'⟩ := m
    have hlt : k' < k := h (k', v') List.mem_cons_self
    have hnot : ¬ k < k' := fun hk => String.lt_irrefl _ (String.lt_trans hk hlt)
    have hne : ¬ k = k' := fun he => String.ne_of_lt hlt he.symm
    rw [Table.insert, if_neg hnot, if_neg hne, ih fun m hm => h m (List.mem_cons_of_mem _ hm)]
    rfl

theorem foldl_insert_ascending (pairs ms : List (String × β)) (h : Ascending (ms ++ pairs)) :
    pairs.foldl (fun ms m => Table.insert m.1 m.2 ms) ms = ms ++ pairs := by
  induction pairs generalizing ms with
  | nil => rw [List.foldl_nil, List.append_nil]
  | cons m pairs ih =>
    have hlast : ∀ m' ∈ ms, m'.1 < m.1 := by
      intro m' hm'
      rw [Ascending, List.map_append, List.pairwise_append] at h
      exact h.2.2 m'.1 (List.mem_map_of_mem hm') m.1 List.mem_cons_self
    rw [List.foldl_cons, insert_last m.1 m.2 ms hlast, ih _ (by simpa using h)]
    simp

theorem ofList_ascending {pairs : List (String × β)} (h : Ascending pairs) :
    Table.ofList pairs = pairs := by
  simpa [Table.ofList] using foldl_insert_ascending pairs [] h

theorem mem_insert_cases {k : String} {v : β} {ms : List (String × β)} {m : String × β}
    (h : m ∈ Table.insert k v ms) : m = (k, v) ∨ m ∈ ms := by
  induction ms with
  | nil =>
    rw [Table.insert, List.mem_singleton] at h
    exact Or.inl h
  | cons x ms ih =>
    rw [Table.insert] at h
    split at h
    · exact (List.mem_cons.mp h).imp_right id
    · split at h
      · exact (List.mem_cons.mp h).imp_right (List.mem_cons_of_mem _)
      · obtain rfl | hm := List.mem_cons.mp h
        · exact Or.inr List.mem_cons_self
        · exact (ih hm).imp_right (List.mem_cons_of_mem _)

theorem mem_of_mem_ofList {pairs : List (String × β)} {m : String × β}
    (h : m ∈ Table.ofList pairs) : m ∈ pairs := by
  have hfold : ∀ (pairs ms : List (String × β)),
      m ∈ pairs.foldl (fun ms m => Table.insert m.1 m.2 ms) ms → m ∈ ms ∨ m ∈ pairs := by
    intro pairs
    induction pairs with
    | nil => exact fun ms hm => Or.inl hm
    | cons x pairs ih =>
      intro ms hm
      obtain hm | hm := ih _ hm
      · obtain rfl | hm := mem_insert_cases hm
        · exact Or.inr List.mem_cons_self
        · exact Or.inl hm
      · exact Or.inr (List.mem_cons_of_mem _ hm)
  exact (hfold pairs [] h).resolve_left List.not_mem_nil

end

mutual

def InOrder : Value → Prop
  | .array vs => InOrderItems vs
  | .object ms => Ascending ms ∧ InOrderMembers ms
  | _ => True

def InOrderItems : List Value → Prop
  | [] => True
  | v :: vs => InOrder v ∧ InOrderItems vs

def InOrderMembers : List (String × Value) → Prop
  | [] => True
  | (_, v) :: ms => InOrder v ∧ InOrderMembers ms

end

theorem inOrderMembers_iff {ms : List (String × Value)} :
    InOrderMembers ms ↔ ∀ m ∈ ms, InOrder m.2 := by
  induction ms with
  | nil => simp [InOrderMembers]
  | cons m ms ih => simp [InOrderMembers, ih]

mutual

theorem inOrder_sorted : ∀ v : Value, InOrder v.sorted
  | .null | .bool _ | .number _ | .string _ => by simp [Value.sorted, InOrder]
  | .array vs => by
    rw [Value.sorted, InOrder]
    exact inOrder_sortedItems vs
  | .object ms => by
    rw [Value.sorted, InOrder]
    refine ⟨ascending_ofList _, inOrderMembers_iff.mpr fun m hm => ?_⟩
    exact inOrder_sortedMembers ms m (mem_of_mem_ofList hm)

theorem inOrder_sortedItems : ∀ vs : List Value, InOrderItems (Value.sortedItems vs)
  | [] => trivial
  | v :: vs => ⟨inOrder_sorted v, inOrder_sortedItems vs⟩

theorem inOrder_sortedMembers : ∀ ms : List (String × Value),
    ∀ m ∈ Value.sortedMembers ms, InOrder m.2
  | [], m, hm => by simp [Value.sortedMembers] at hm
  | (k, v) :: ms, m, hm => by
    rw [Value.sortedMembers] at hm
    obtain rfl | hm := List.mem_cons.mp hm
    · exact inOrder_sorted v
    · exact inOrder_sortedMembers ms m hm

end

mutual

theorem sorted_of_inOrder : ∀ v : Value, InOrder v → v.sorted = v
  | .null, _ | .bool _, _ | .number _, _ | .string _, _ => by simp [Value.sorted]
  | .array vs, h => by rw [Value.sorted, sortedItems_of_inOrder vs h]
  | .object ms, h => by rw [Value.sorted, sortedMembers_of_inOrder ms h.2, ofList_ascending h.1]

theorem sortedItems_of_inOrder : ∀ vs : List Value, InOrderItems vs → Value.sortedItems vs = vs
  | [], _ => rfl
  | v :: vs, h => by
    rw [Value.sortedItems, sorted_of_inOrder v h.1, sortedItems_of_inOrder vs h.2]

theorem sortedMembers_of_inOrder : ∀ ms : List (String × Value), InOrderMembers ms →
    Value.sortedMembers ms = ms
  | [], _ => rfl
  | (k, v) :: ms, h => by
    rw [Value.sortedMembers, sorted_of_inOrder v h.1, sortedMembers_of_inOrder ms h.2]

end

@[simp] theorem sorted_sorted (v : Value) : v.sorted.sorted = v.sorted :=
  sorted_of_inOrder _ (inOrder_sorted v)

theorem nestingMembers_le_iff {ms : List (String × Value)} {n : Nat} :
    nestingMembers ms ≤ n ↔ ∀ m ∈ ms, nesting m.2 ≤ n := by
  induction ms with
  | nil => simp [nestingMembers]
  | cons m ms ih => rw [nestingMembers, Nat.max_le, ih, List.forall_mem_cons]

theorem exactMembers_iff {ms : List (String × Value)} :
    ExactMembers ms ↔ ∀ m ∈ ms, Exact m.2 := by
  induction ms with
  | nil => simp [ExactMembers]
  | cons m ms ih => simp [ExactMembers, ih]

mutual

theorem nesting_sorted : ∀ v : Value, nesting v.sorted ≤ nesting v
  | .null | .bool _ | .number _ | .string _ => by simp [Value.sorted]
  | .array vs => by
    rw [Value.sorted, nesting, nesting]
    exact Nat.succ_le_succ (nestingItems_sortedItems vs)
  | .object ms => by
    rw [Value.sorted, nesting, nesting]
    refine Nat.succ_le_succ (nestingMembers_le_iff.mpr fun m hm => ?_)
    exact nesting_of_mem_sortedMembers ms m (mem_of_mem_ofList hm)

theorem nestingItems_sortedItems : ∀ vs : List Value,
    nestingItems (Value.sortedItems vs) ≤ nestingItems vs
  | [] => Nat.le_refl 0
  | v :: vs => by
    have hv := nesting_sorted v
    have hvs := nestingItems_sortedItems vs
    simp only [Value.sortedItems, nestingItems]
    omega

theorem nesting_of_mem_sortedMembers : ∀ ms : List (String × Value),
    ∀ m ∈ Value.sortedMembers ms, nesting m.2 ≤ nestingMembers ms
  | [], m, hm => by simp [Value.sortedMembers] at hm
  | (k, v) :: ms, m, hm => by
    rw [Value.sortedMembers] at hm
    obtain rfl | hm := List.mem_cons.mp hm
    · exact Nat.le_trans (nesting_sorted v) (Nat.le_max_left _ _)
    · exact Nat.le_trans (nesting_of_mem_sortedMembers ms m hm) (Nat.le_max_right _ _)

end

mutual

theorem exact_sorted : ∀ v : Value, Exact v → Exact v.sorted
  | .null, _ | .bool _, _ | .string _, _ => by simp [Value.sorted, Exact]
  | .number n, h => by simpa [Value.sorted] using h
  | .array vs, h => by
    rw [Value.sorted, Exact]
    exact exact_sortedItems vs h
  | .object ms, h => by
    rw [Value.sorted, Exact]
    refine exactMembers_iff.mpr fun m hm => ?_
    exact exact_of_mem_sortedMembers ms h m (mem_of_mem_ofList hm)

theorem exact_sortedItems : ∀ vs : List Value, ExactItems vs → ExactItems (Value.sortedItems vs)
  | [], _ => trivial
  | v :: vs, h => ⟨exact_sorted v h.1, exact_sortedItems vs h.2⟩

theorem exact_of_mem_sortedMembers : ∀ ms : List (String × Value), ExactMembers ms →
    ∀ m ∈ Value.sortedMembers ms, Exact m.2
  | [], _, m, hm => by simp [Value.sortedMembers] at hm
  | (k, v) :: ms, h, m, hm => by
    rw [Value.sortedMembers] at hm
    obtain rfl | hm := List.mem_cons.mp hm
    · exact exact_sorted v h.1
    · exact exact_of_mem_sortedMembers ms h.2 m hm

end

theorem exactItems_iff {vs : List Value} : ExactItems vs ↔ ∀ v ∈ vs, Exact v := by
  induction vs with
  | nil => simp [ExactItems]
  | cons v vs ih => simp [ExactItems, ih]

theorem nestingItems_le_iff {vs : List Value} {n : Nat} :
    nestingItems vs ≤ n ↔ ∀ v ∈ vs, nesting v ≤ n := by
  induction vs with
  | nil => simp [nestingItems]
  | cons v vs ih => rw [nestingItems, Nat.max_le, ih, List.forall_mem_cons]

/-- A value without floats, with at most so many arrays and objects inside one another. -/
structure Shallow (n : Nat) (v : Value) : Prop where
  exact : Exact v
  nesting_le : nesting v ≤ n

theorem shallow_mono {m n : Nat} {v : Value} (h : Shallow m v) (hle : m ≤ n) : Shallow n v :=
  ⟨h.exact, Nat.le_trans h.nesting_le hle⟩

theorem shallow_sorted {n : Nat} {v : Value} (h : Shallow n v) : Shallow n v.sorted :=
  ⟨exact_sorted v h.exact, Nat.le_trans (nesting_sorted v) h.nesting_le⟩

theorem shallow_bool (n : Nat) (b : Bool) : Shallow n (.bool b) := ⟨trivial, Nat.zero_le n⟩

theorem shallow_string (n : Nat) (s : String) : Shallow n (.string s) := ⟨trivial, Nat.zero_le n⟩

theorem shallow_ofNat (n : Nat) (k : UInt64) : Shallow n (.ofNat k) := ⟨rfl, Nat.zero_le n⟩

theorem shallow_array {n : Nat} {vs : List Value} (h : ∀ v ∈ vs, Shallow n v) :
    Shallow (n + 1) (.array vs) :=
  ⟨exactItems_iff.mpr fun v hv => (h v hv).exact,
    Nat.succ_le_succ (nestingItems_le_iff.mpr fun v hv => (h v hv).nesting_le)⟩

theorem shallow_object {n : Nat} {ms : List (String × Value)} (h : ∀ m ∈ ms, Shallow n m.2) :
    Shallow (n + 1) (.object ms) :=
  ⟨exactMembers_iff.mpr fun m hm => (h m hm).exact,
    Nat.succ_le_succ (nestingMembers_le_iff.mpr fun m hm => (h m hm).nesting_le)⟩

end Attestation.Proofs.JsonValues
