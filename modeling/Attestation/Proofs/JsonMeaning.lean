import Attestation.Proofs.RecordMembers
import Attestation.Proofs.Tables
import Mathlib.Data.List.Sort

namespace Attestation.Proofs.JsonMeaning

open CmwGrammar CmwRoundTrip Json JsonDocuments JsonGrammar JsonRecords JsonValues RecordMembers
open SelectionOrder

/-- The pairs that count, in ascending order: the last one of each key. -/
structure LastOf {β : Type} (pairs ms : List (String × β)) : Prop where
  ascending : Ascending ms
  last : ∀ k v, (k, v) ∈ ms ↔
    ∃ before after, pairs = before ++ (k, v) :: after ∧ ∀ m ∈ after, m.1 ≠ k

mutual

inductive Means : Phrase → Value → Prop
  | null : Means .null .null
  | bool (b : Bool) : Means (.bool b) (.bool b)
  | number {l : Literal} {n : Number} (h : l.value? = some n) : Means (.number l) (.number n)
  | string {ps : List Piece} {s : String} (h : text ps = some s) : Means (.string ps) (.string s)
  | array {ds : List Phrase} {vs : List Value} (h : MeansItems ds vs) :
      Means (.array ds) (.array vs)
  | object {ms : List (List Piece × Phrase)} {pairs members : List (String × Value)}
      (h : MeansMembers ms pairs) (hl : LastOf pairs members) : Means (.object ms) (.object members)

inductive MeansItems : List Phrase → List Value → Prop
  | nil : MeansItems [] []
  | cons {d : Phrase} {v : Value} {ds : List Phrase} {vs : List Value} (h : Means d v)
      (hs : MeansItems ds vs) : MeansItems (d :: ds) (v :: vs)

inductive MeansMembers : List (List Piece × Phrase) → List (String × Value) → Prop
  | nil : MeansMembers [] []
  | cons {key : List Piece} {k : String} {d : Phrase} {v : Value} {ms : List (List Piece × Phrase)}
      {pairs : List (String × Value)} (hk : text key = some k) (h : Means d v)
      (hs : MeansMembers ms pairs) : MeansMembers ((key, d) :: ms) ((k, v) :: pairs)

end

section last

variable {β : Type} {pairs ms : List (String × β)}

theorem find?_reverse_eq_some_iff {k : String} {v : β} :
    Table.find? pairs.reverse k = some v ↔
      ∃ before after, pairs = before ++ (k, v) :: after ∧ ∀ m ∈ after, m.1 ≠ k := by
  rw [Tables.find?_eq_some_iff]
  constructor
  · rintro ⟨after, before, heq, hafter⟩
    refine ⟨before.reverse, after.reverse, ?_, fun m hm => hafter m (List.mem_reverse.mp hm)⟩
    rw [← List.reverse_reverse pairs, heq]
    simp
  · rintro ⟨before, after, rfl, hafter⟩
    exact ⟨after.reverse, before.reverse, by simp, fun m hm => hafter m (List.mem_reverse.mp hm)⟩

theorem lastOf_ofList (pairs : List (String × β)) : LastOf pairs (Table.ofList pairs) := by
  refine ⟨ascending_ofList pairs, fun k v => ?_⟩
  rw [← find?_reverse_eq_some_iff, ← Tables.find?_ofList]
  exact ⟨Tables.find?_of_mem (ascending_ofList pairs), Tables.mem_of_find?⟩

theorem lastOf_iff : LastOf pairs ms ↔ ms = Table.ofList pairs := by
  constructor
  · intro h
    have hof := lastOf_ofList pairs
    refine (List.pairwise_map.mp h.ascending).eq_of_mem_iff
      (List.pairwise_map.mp hof.ascending) fun m => ?_
    exact (h.last m.1 m.2).trans (hof.last m.1 m.2).symm
  · rintro rfl
    exact lastOf_ofList pairs

end last

section value

variable {p q : Place}

theorem inner_roomy_iff : p.inner = .ok q ↔ Roomy p 1 ∧ q = { p with depth := p.depth + 1 } := by
  unfold Place.inner Roomy
  split
  · rename_i h
    refine ⟨nofun, fun hroom => ?_⟩
    have := hroom.1 h.1
    omega
  · rename_i h
    constructor
    · rintro ⟨⟩
      exact ⟨fun hp => Nat.lt_of_not_le fun hle => h ⟨hp, hle⟩, rfl⟩
    · rintro ⟨_, rfl⟩
      rfl

theorem roomy_inner_iff {n : Nat} :
    Roomy { p with depth := p.depth + 1 } n ↔ Roomy p (n + 1) := by
  unfold Roomy
  refine imp_congr_right fun _ => ?_
  simp only
  omega

theorem roomy_max_iff {m n : Nat} : Roomy p (max m n) ↔ Roomy p m ∧ Roomy p n := by
  unfold Roomy
  rw [← imp_and]
  refine imp_congr_right fun _ => ?_
  omega

theorem valueItems_cons_iff {done all : List Value} {t : Tree} {ts : List Tree} :
    Decoder.valueItems p done (t :: ts) = .ok all ↔
      ∃ v, Decoder.value p t = .ok v ∧ Decoder.valueItems p (v :: done) ts = .ok all := by
  rw [Decoder.valueItems, bind_ok_iff]

theorem valueMembers_cons_iff {done all : List (String × Value)} {key : Option String} {t : Tree}
    {ms : List (Option String × Tree)} :
    Decoder.valueMembers p done ((key, t) :: ms) = .ok all ↔
      ∃ k v, key = some k ∧ Decoder.value p t = .ok v ∧
        Decoder.valueMembers p ((k, v) :: done) ms = .ok all := by
  rw [Decoder.valueMembers]
  cases key with
  | none => simp [Decoder.key, bind, Except.bind]
  | some k => simp [Decoder.key, bind_ok_iff]

theorem enclosed_iff {α β : Type} {read : Place → Except Fault α} {f : α → β} {b : β} :
    (p.inner >>= fun q => read q >>= fun a => Decoder.ending true (f a)) = .ok b ↔
      Roomy p 1 ∧ ∃ a, read { p with depth := p.depth + 1 } = .ok a ∧ b = f a := by
  simp only [bind_ok_iff, inner_roomy_iff, Decoder.ending, if_true, Except.ok.injEq]
  constructor
  · rintro ⟨_, ⟨hroom, rfl⟩, a, ha, rfl⟩
    exact ⟨hroom, a, ha, rfl⟩
  · rintro ⟨hroom, a, ha, rfl⟩
    exact ⟨_, ⟨hroom, rfl⟩, a, ha, rfl⟩

theorem value_array_iff {t : List Tree} {v : Value} :
    Decoder.value p (.array t true) = .ok v ↔
      Roomy p 1 ∧ ∃ vs, Decoder.valueItems { p with depth := p.depth + 1 } [] t = .ok vs ∧
        v = .array vs := by
  rw [Decoder.value]
  exact enclosed_iff

theorem value_object_iff {t : List (Option String × Tree)} {v : Value} :
    Decoder.value p (.object t true) = .ok v ↔
      Roomy p 1 ∧ ∃ pairs, Decoder.valueMembers { p with depth := p.depth + 1 } [] t = .ok pairs ∧
        v = .object (Table.ofList pairs) := by
  rw [Decoder.value]
  exact enclosed_iff

theorem members_object_iff {t : List (Option String × Tree)} {pairs : List (String × Value)} :
    Decoder.members .value p (.object t true) = .ok pairs ↔
      Roomy p 1 ∧
        Decoder.membersFrom .value { p with depth := p.depth + 1 } [] t = .ok pairs := by
  have hread : Decoder.members .value p (.object t true) = .ok pairs ↔ _ :=
    enclosed_iff (f := id)
  rw [hread]
  simp

end value

mutual

/-- A phrase is read as the value that it means, where there is room for it. -/
theorem value_tree_iff : ∀ (d : Phrase) {p : Place} {v : Value}, Roomy p 0 →
    (Decoder.value p d.tree = .ok v ↔ Means d v ∧ Roomy p d.nesting)
  | .null, p, v, hp => by
    rw [Phrase.tree, Decoder.value]
    constructor
    · rintro ⟨⟩
      exact ⟨.null, hp⟩
    · rintro ⟨⟨⟩, _⟩
      rfl
  | .bool b, p, v, hp => by
    rw [Phrase.tree, Decoder.value]
    constructor
    · rintro ⟨⟩
      exact ⟨.bool b, hp⟩
    · rintro ⟨⟨⟩, _⟩
      rfl
  | .number l, p, v, hp => by
    rw [Phrase.tree]
    constructor
    · intro h
      cases hl : l.value? <;> rw [hl, Decoder.value] at h <;> cases h
      exact ⟨.number hl, hp⟩
    · rintro ⟨h, _⟩
      cases h with
      | number h => rw [h, Decoder.value]
  | .string ps, p, v, hp => by
    rw [Phrase.tree]
    constructor
    · intro h
      cases hs : text ps <;> rw [hs, Decoder.value] at h <;> cases h
      exact ⟨.string hs, hp⟩
    · rintro ⟨h, _⟩
      cases h with
      | string h => rw [h, Decoder.value]
  | .array ds, p, v, _ => by
    rw [Phrase.tree, Phrase.nesting, value_array_iff, ← roomy_inner_iff, ← roomy_inner_iff]
    constructor
    · rintro ⟨hroom, vs, hvs, rfl⟩
      obtain ⟨read, hread, hn, rfl⟩ := (valueItems_trees_iff ds hroom).mp hvs
      exact ⟨.array hread, hn⟩
    · rintro ⟨h, hn⟩
      cases h with
      | array h =>
        have hroom := roomy_of_le hn (Nat.zero_le _)
        exact ⟨hroom, _, (valueItems_trees_iff ds hroom).mpr ⟨_, h, hn, rfl⟩, rfl⟩
  | .object ms, p, v, _ => by
    rw [Phrase.tree, Phrase.nesting, value_object_iff, ← roomy_inner_iff, ← roomy_inner_iff]
    constructor
    · rintro ⟨hroom, pairs, hpairs, rfl⟩
      obtain ⟨read, hread, hn, rfl⟩ := (valueMembers_trees_iff ms hroom).mp hpairs
      exact ⟨.object hread (lastOf_iff.mpr rfl), hn⟩
    · rintro ⟨h, hn⟩
      cases h with
      | object h hl =>
        have hroom := roomy_of_le hn (Nat.zero_le _)
        rw [lastOf_iff.mp hl]
        exact ⟨hroom, _, (valueMembers_trees_iff ms hroom).mpr ⟨_, h, hn, rfl⟩, rfl⟩

theorem valueItems_trees_iff : ∀ (ds : List Phrase) {p : Place} {done all : List Value},
    Roomy p 0 → (Decoder.valueItems p done (Phrase.trees ds) = .ok all ↔
      ∃ vs, MeansItems ds vs ∧ Roomy p (Phrase.nestingItems ds) ∧ all = done.reverse ++ vs)
  | [], p, done, all, hp => by
    rw [Phrase.trees, Decoder.valueItems]
    constructor
    · rintro ⟨⟩
      exact ⟨[], .nil, hp, (List.append_nil _).symm⟩
    · rintro ⟨_, ⟨⟩, _, rfl⟩
      rw [List.append_nil]
  | d :: ds, p, done, all, hp => by
    rw [Phrase.trees, Phrase.nestingItems, roomy_max_iff, valueItems_cons_iff]
    constructor
    · rintro ⟨v, hv, h⟩
      obtain ⟨hmeans, hn⟩ := (value_tree_iff d hp).mp hv
      obtain ⟨vs, hvs, hns, rfl⟩ := (valueItems_trees_iff ds hp).mp h
      exact ⟨v :: vs, .cons hmeans hvs, ⟨hn, hns⟩, by simp⟩
    · rintro ⟨_, hmeans, ⟨hn, hns⟩, rfl⟩
      cases hmeans with
      | @cons _ v _ vs hv hvs =>
        exact ⟨v, (value_tree_iff d hp).mpr ⟨hv, hn⟩,
          (valueItems_trees_iff ds hp).mpr ⟨vs, hvs, hns, by simp⟩⟩

theorem valueMembers_trees_iff : ∀ (ms : List (List Piece × Phrase)) {p : Place}
    {done all : List (String × Value)}, Roomy p 0 →
    (Decoder.valueMembers p done (Phrase.memberTrees ms) = .ok all ↔
      ∃ pairs, MeansMembers ms pairs ∧ Roomy p (Phrase.nestingMembers ms) ∧
        all = done.reverse ++ pairs)
  | [], p, done, all, hp => by
    rw [Phrase.memberTrees, Decoder.valueMembers]
    constructor
    · rintro ⟨⟩
      exact ⟨[], .nil, hp, (List.append_nil _).symm⟩
    · rintro ⟨_, ⟨⟩, _, rfl⟩
      rw [List.append_nil]
  | (key, d) :: ms, p, done, all, hp => by
    rw [Phrase.memberTrees, Phrase.nestingMembers, roomy_max_iff, valueMembers_cons_iff]
    constructor
    · rintro ⟨k, v, hk, hv, h⟩
      obtain ⟨hmeans, hn⟩ := (value_tree_iff d hp).mp hv
      obtain ⟨pairs, hpairs, hns, rfl⟩ := (valueMembers_trees_iff ms hp).mp h
      exact ⟨(k, v) :: pairs, .cons hk hmeans hpairs, ⟨hn, hns⟩, by simp⟩
    · rintro ⟨_, hmeans, ⟨hn, hns⟩, rfl⟩
      cases hmeans with
      | @cons _ k _ v _ pairs hk hv hpairs =>
        exact ⟨k, v, hk, (value_tree_iff d hp).mpr ⟨hv, hn⟩,
          (valueMembers_trees_iff ms hp).mpr ⟨pairs, hpairs, hns, by simp⟩⟩

end

theorem means_unique {d : Phrase} {v w : Value} (hv : Means d v) (hw : Means d w) : v = w := by
  have hread : ∀ {x}, Means d x → Decoder.value ⟨.value, 0⟩ d.tree = .ok x :=
    fun hx => (value_tree_iff d (roomy_value 0 0)).mpr ⟨hx, roomy_value 0 _⟩
  exact Except.ok.inj ((hread hv).symm.trans (hread hw))

theorem membersFrom_value_iff {p : Place} {done all : List (String × Value)}
    {ms : List (Option String × Tree)} :
    Decoder.membersFrom .value p done ms = .ok all ↔ Decoder.valueMembers p done ms = .ok all := by
  induction ms generalizing done with
  | nil => rw [Decoder.membersFrom, Decoder.valueMembers]
  | cons m ms ih =>
    obtain ⟨key, t⟩ := m
    rw [Decoder.membersFrom, valueMembers_cons_iff, bind_ok_iff]
    cases key with
    | none => simp [Decoder.key]
    | some k =>
      cases Decoder.value p t <;> simp [Decoder.key, ih]

theorem members_tree_iff {ms : List (List Piece × Phrase)} {p : Place}
    {pairs : List (String × Value)} :
    Decoder.members .value p (Phrase.object ms).tree = .ok pairs ↔
      MeansMembers ms pairs ∧ Roomy p (Phrase.object ms).nesting := by
  have hread : ∀ {q : Place}, Roomy q 0 →
      (Decoder.membersFrom .value q [] (Phrase.memberTrees ms) = .ok pairs ↔
        MeansMembers ms pairs ∧ Roomy q (Phrase.nestingMembers ms)) := by
    intro q hq
    rw [membersFrom_value_iff, valueMembers_trees_iff ms hq]
    simp [and_comm]
  rw [Phrase.tree, Phrase.nesting, members_object_iff, ← roomy_inner_iff, ← roomy_inner_iff]
  constructor
  · rintro ⟨hroom, hpairs⟩
    exact (hread hroom).mp hpairs
  · rintro ⟨hmeans, hn⟩
    have hroom := roomy_of_le hn (Nat.zero_le _)
    exact ⟨hroom, (hread hroom).mpr ⟨hmeans, hn⟩⟩

theorem members_tree_leaf {d : Phrase} {p : Place} {pairs : List (String × Value)}
    (h : Decoder.members .value p d.tree = .ok pairs) : ∃ ms, d = .object ms := by
  cases d with
  | object ms => exact ⟨ms, rfl⟩
  | _ =>
    refine absurd h ?_
    rw [Phrase.tree, Decoder.members]
    · exact unexpected_ne_ok _ _ pairs
    all_goals simp

theorem run_members_spelled {ms : List (List Piece × Phrase)} {data : List UInt8}
    (hd : Spells (.object ms) data) {pairs : List (String × Value)} :
    Decoder.run (.members .value) data = .ok pairs ↔
      (Phrase.object ms).nesting ≤ maxDepth ∧ MeansMembers ms pairs := by
  have hroom : Roomy ⟨.text, 0⟩ (Phrase.object ms).nesting ↔
      (Phrase.object ms).nesting ≤ maxDepth := by simp [Roomy]
  rw [run_spelled _ hd, members_tree_iff, hroom, and_comm]

theorem run_members_iff {data : List UInt8} {pairs : List (String × Value)} :
    Decoder.run (.members .value) data = .ok pairs ↔
      ∃ ms, Spells (.object ms) data ∧ (Phrase.object ms).nesting ≤ maxDepth ∧
        MeansMembers ms pairs := by
  constructor
  · intro h
    obtain ⟨d, hd⟩ := exists_spelled h
    have hread := h
    rw [run_spelled _ hd] at hread
    obtain ⟨ms, rfl⟩ := members_tree_leaf hread
    exact ⟨ms, hd, (run_members_spelled hd).mp h⟩
  · rintro ⟨ms, hd, h⟩
    exact (run_members_spelled hd).mpr h

mutual

/-- A phrase that means something: its numbers are none that is too large, and its strings are
texts. -/
def Readable : Phrase → Prop
  | .number l => l.value?.isSome
  | .string ps => (text ps).isSome
  | .array ds => ReadableItems ds
  | .object ms => ReadableMembers ms
  | _ => True

def ReadableItems : List Phrase → Prop
  | [] => True
  | d :: ds => Readable d ∧ ReadableItems ds

def ReadableMembers : List (List Piece × Phrase) → Prop
  | [] => True
  | (key, d) :: ms => (text key).isSome ∧ Readable d ∧ ReadableMembers ms

end

mutual

theorem exists_means : ∀ d : Phrase, Readable d → ∃ v, Means d v
  | .null, _ => ⟨_, .null⟩
  | .bool b, _ => ⟨_, .bool b⟩
  | .number _, h => by
    obtain ⟨n, hn⟩ := Option.isSome_iff_exists.mp h
    exact ⟨_, .number hn⟩
  | .string _, h => by
    obtain ⟨s, hs⟩ := Option.isSome_iff_exists.mp h
    exact ⟨_, .string hs⟩
  | .array ds, h => by
    obtain ⟨vs, hvs⟩ := exists_meansItems ds h
    exact ⟨_, .array hvs⟩
  | .object ms, h => by
    obtain ⟨pairs, hpairs⟩ := exists_meansMembers ms h
    exact ⟨_, .object hpairs (lastOf_ofList pairs)⟩

theorem exists_meansItems : ∀ ds : List Phrase, ReadableItems ds → ∃ vs, MeansItems ds vs
  | [], _ => ⟨[], .nil⟩
  | d :: ds, h => by
    obtain ⟨v, hv⟩ := exists_means d h.1
    obtain ⟨vs, hvs⟩ := exists_meansItems ds h.2
    exact ⟨v :: vs, .cons hv hvs⟩

theorem exists_meansMembers : ∀ ms : List (List Piece × Phrase), ReadableMembers ms →
    ∃ pairs, MeansMembers ms pairs
  | [], _ => ⟨[], .nil⟩
  | (key, d) :: ms, h => by
    obtain ⟨k, hk⟩ := Option.isSome_iff_exists.mp h.1
    obtain ⟨v, hv⟩ := exists_means d h.2.1
    obtain ⟨pairs, hpairs⟩ := exists_meansMembers ms h.2.2
    exact ⟨(k, v) :: pairs, .cons hk hv hpairs⟩

end

mutual

theorem readable_of_means : ∀ {d : Phrase} {v : Value}, Means d v → Readable d
  | _, _, .null | _, _, .bool _ => trivial
  | _, _, .number h => Option.isSome_of_eq_some h
  | _, _, .string h => Option.isSome_of_eq_some h
  | _, _, .array h => readable_of_meansItems h
  | _, _, .object h _ => readable_of_meansMembers h

theorem readable_of_meansItems : ∀ {ds : List Phrase} {vs : List Value}, MeansItems ds vs →
    ReadableItems ds
  | _, _, .nil => trivial
  | _, _, .cons h hs => ⟨readable_of_means h, readable_of_meansItems hs⟩

theorem readable_of_meansMembers : ∀ {ms : List (List Piece × Phrase)}
    {pairs : List (String × Value)}, MeansMembers ms pairs → ReadableMembers ms
  | _, _, .nil => trivial
  | _, _, .cons hk h hs =>
    ⟨Option.isSome_of_eq_some hk, readable_of_means h, readable_of_meansMembers hs⟩

end

theorem readableMembers_append {before after : List (List Piece × Phrase)} :
    ReadableMembers (before ++ after) ↔ ReadableMembers before ∧ ReadableMembers after := by
  induction before with
  | nil => exact (and_iff_right trivial).symm
  | cons m before ih => simp only [List.cons_append, ReadableMembers, ih, and_assoc]

/-- The last member with a name, if there is one. -/
inductive Last (ms : List (List Piece × Phrase)) (name : String) : Option Phrase → Prop
  | absent (h : ∀ m ∈ ms, text m.1 ≠ some name) : Last ms name none
  | there {before after : List (List Piece × Phrase)} {key : List Piece} {d : Phrase}
      (he : ms = before ++ (key, d) :: after) (hk : text key = some name)
      (ha : ∀ m ∈ after, text m.1 ≠ some name) : Last ms name (some d)

theorem last_cons_iff {ms : List (List Piece × Phrase)} {m : List Piece × Phrase} {name : String}
    {o : Option Phrase} : Last (m :: ms) name o ↔
      (∃ d, o = some d ∧ Last ms name (some d)) ∨
      Last ms name none ∧
        (text m.1 = some name ∧ o = some m.2 ∨ text m.1 ≠ some name ∧ o = none) := by
  constructor
  · intro h
    cases h with
    | absent h =>
      obtain ⟨hm, h⟩ := List.forall_mem_cons.mp h
      exact .inr ⟨.absent h, .inr ⟨hm, rfl⟩⟩
    | @there before after key d he hk ha =>
      cases before with
      | nil =>
        cases he
        exact .inr ⟨.absent ha, .inl ⟨hk, rfl⟩⟩
      | cons b before =>
        cases he
        exact .inl ⟨d, rfl, .there rfl hk ha⟩
  · rintro (⟨d, rfl, h⟩ | ⟨h, ⟨hk, rfl⟩ | ⟨hk, rfl⟩⟩)
    · cases h with
      | @there before after key d he hk ha =>
        have hcons : m :: ms = (m :: before) ++ (key, d) :: after := congrArg (m :: ·) he
        exact .there hcons hk ha
    · cases h with
      | absent h => exact .there (List.nil_append _).symm hk h
    · cases h with
      | absent h => exact .absent (List.forall_mem_cons.mpr ⟨hk, h⟩)

theorem exists_last (ms : List (List Piece × Phrase)) (name : String) : ∃ o, Last ms name o := by
  induction ms with
  | nil => exact ⟨none, .absent nofun⟩
  | cons m ms ih =>
    obtain ⟨o, h⟩ := ih
    cases o with
    | some d => exact ⟨some d, last_cons_iff.mpr (.inl ⟨d, rfl, h⟩)⟩
    | none =>
      by_cases hk : text m.1 = some name
      · exact ⟨some m.2, last_cons_iff.mpr (.inr ⟨h, .inl ⟨hk, rfl⟩⟩)⟩
      · exact ⟨none, last_cons_iff.mpr (.inr ⟨h, .inr ⟨hk, rfl⟩⟩)⟩

theorem ne_of_meansMembers {name : String} {ms : List (List Piece × Phrase)}
    {pairs : List (String × Value)} (h : MeansMembers ms pairs)
    (hn : ∀ m ∈ ms, text m.1 ≠ some name) : ∀ m ∈ pairs, m.1 ≠ name := by
  induction ms generalizing pairs with
  | nil =>
    cases h
    nofun
  | cons m ms ih =>
    cases h with
    | cons hk _ hs =>
      obtain ⟨hm, hn⟩ := List.forall_mem_cons.mp hn
      refine List.forall_mem_cons.mpr ⟨?_, ih hs hn⟩
      rintro rfl
      exact hm hk

theorem meansMembers_append {before after : List (List Piece × Phrase)}
    {pairs : List (String × Value)} (h : MeansMembers (before ++ after) pairs) :
    ∃ front back, pairs = front ++ back ∧ MeansMembers before front ∧ MeansMembers after back := by
  induction before generalizing pairs with
  | nil => exact ⟨[], pairs, rfl, .nil, h⟩
  | cons m before ih =>
    cases h with
    | @cons _ k _ v _ pairs hk hv hs =>
      obtain ⟨front, back, rfl, hfront, hback⟩ := ih hs
      exact ⟨(k, v) :: front, back, rfl, .cons hk hv hfront, hback⟩

theorem get?_last {ms : List (List Piece × Phrase)} {pairs : List (String × Value)} {name : String}
    {o : Option Phrase} (h : MeansMembers ms pairs) (hl : Last ms name o) :
    Option.Rel Means o (Value.get? pairs name) := by
  change Option.Rel Means o (Table.find? pairs.reverse name)
  cases hl with
  | absent hn =>
    have hnone : Table.find? pairs.reverse name = none := Tables.find?_eq_none_iff.mpr fun m hm =>
      ne_of_meansMembers h hn m (List.mem_reverse.mp hm)
    rw [hnone]
    exact .none
  | there he hk ha =>
    rw [he] at h
    obtain ⟨front, back, rfl, _, hback⟩ := meansMembers_append h
    cases hback with
    | @cons _ k _ v _ back hk' hv hs =>
      obtain rfl : k = name := Option.some.inj (hk'.symm.trans hk)
      have hsome : Table.find? (front ++ (k, v) :: back).reverse k = some v :=
        find?_reverse_eq_some_iff.mpr ⟨front, back, rfl, ne_of_meansMembers hs ha⟩
      rw [hsome]
      exact .some hv

theorem get?_lastOf {pairs ms : List (String × Value)} (h : LastOf pairs ms) (name : String) :
    Value.get? ms name = Value.get? pairs name := by
  change Table.find? ms.reverse name = Table.find? pairs.reverse name
  rw [← Tables.find?_ofList ms, ofList_ascending h.ascending, lastOf_iff.mp h, Tables.find?_ofList]

mutual

theorem inOrder_of_means : ∀ {d : Phrase} {v : Value}, Means d v → InOrder v
  | _, _, .null | _, _, .bool _ | _, _, .number _ | _, _, .string _ => trivial
  | _, _, .array h => inOrder_of_meansItems h
  | _, _, .object h hl => by
    refine ⟨hl.ascending, inOrderMembers_iff.mpr fun m hm => ?_⟩
    rw [lastOf_iff.mp hl] at hm
    exact inOrder_of_meansMembers h m (mem_of_mem_ofList hm)

theorem inOrder_of_meansItems : ∀ {ds : List Phrase} {vs : List Value}, MeansItems ds vs →
    InOrderItems vs
  | _, _, .nil => trivial
  | _, _, .cons h hs => ⟨inOrder_of_means h, inOrder_of_meansItems hs⟩

theorem inOrder_of_meansMembers : ∀ {ms : List (List Piece × Phrase)}
    {pairs : List (String × Value)}, MeansMembers ms pairs → ∀ m ∈ pairs, InOrder m.2
  | _, _, .nil => nofun
  | _, _, .cons _ h hs =>
    List.forall_mem_cons.mpr ⟨inOrder_of_means h, inOrder_of_meansMembers hs⟩

end

end Attestation.Proofs.JsonMeaning
