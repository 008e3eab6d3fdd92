import Attestation.Proofs.CmwGrammar
import Mathlib.Data.List.Nodup

namespace Attestation.Proofs.RecordMembers

open CmwGrammar CmwRoundTrip Json JsonGrammar JsonRecords

variable {α β : Type}

mutual

theorem intact_tree : ∀ d : Phrase, d.tree.intact = true
  | .null | .bool _ | .number _ | .string _ => rfl
  | .array ds => by rw [Phrase.tree, Tree.intact, allIntact_trees ds, Bool.true_and]
  | .object ms => by rw [Phrase.tree, Tree.intact, membersIntact_trees ms, Bool.true_and]

theorem allIntact_trees : ∀ ds : List Phrase, Tree.allIntact (Phrase.trees ds) = true
  | [] => rfl
  | d :: ds => by rw [Phrase.trees, Tree.allIntact, intact_tree d, allIntact_trees ds]; rfl

theorem membersIntact_trees : ∀ ms : List (List Piece × Phrase),
    Tree.membersIntact (Phrase.memberTrees ms) = true
  | [] => rfl
  | (k, d) :: ms => by
    rw [Phrase.memberTrees, Tree.membersIntact, intact_tree d, membersIntact_trees ms]; rfl

end

def Named (ms : List (List Piece × Phrase)) : Prop := ∀ m ∈ ms, ∃ k, text m.1 = some k

def known? (names : List String) (m : List Piece × Phrase) : Option (String × Phrase) :=
  ((text m.1).filter (· ∈ names)).map (·, m.2)

def known (names : List String) (ms : List (List Piece × Phrase)) : List (String × Phrase) :=
  ms.filterMap (known? names)

def trees (ms : List (String × Phrase)) : List (Option String × Tree) :=
  ms.map fun m => (some m.1, m.2.tree)

theorem mem_names_of_known {names : List String} {ms : List (List Piece × Phrase)}
    {m : String × Phrase} (h : m ∈ known names ms) : m.1 ∈ names := by
  obtain ⟨member, _, hm⟩ := List.mem_filterMap.mp h
  obtain ⟨k, hk, rfl⟩ := Option.map_eq_some_iff.mp hm
  exact of_decide_eq_true (Option.filter_eq_some_iff.mp hk).2

section fromMembers

variable {r : Record α} {p : Place} {seen : List String} {a : α} {k : String} {t : Tree}
  {ms : List (Option String × Tree)} {result : List String × α}

theorem fromMembers_slot_iff {s : Slot α} (hs : r.slots.find? (·.name = k) = some s) :
    r.fromMembers p seen a ((some k, t) :: ms) = .ok result ↔
      k ∉ seen ∧ ∃ a', s.read p t a = .ok a' ∧
        r.fromMembers p (k :: seen) a' ms = .ok result := by
  constructor
  · intro h
    obtain ⟨_, ⟨⟩, h⟩ := (bind_ok_iff _ _ _).mp h
    simp only [hs] at h
    split at h
    · cases h
    · rename_i hk
      split at h
      · rename_i a' hread
        exact ⟨hk, a', hread, h⟩
      · cases h
  · rintro ⟨hk, a', hread, h⟩
    refine (bind_ok_iff _ _ _).mpr ⟨k, rfl, ?_⟩
    simp only [hs, if_neg hk, hread]
    exact h

theorem fromMembers_of_iff {need : Need} {d : Decoder β} {put : β → α → α}
    (hs : r.slots.find? (·.name = k) = some (.of need k d put)) :
    r.fromMembers p seen a ((some k, t) :: ms) = .ok result ↔
      k ∉ seen ∧ ∃ b, d p t = .ok b ∧ r.fromMembers p (k :: seen) (put b a) ms = .ok result := by
  refine (fromMembers_slot_iff hs).trans (and_congr_right fun _ => ?_)
  constructor
  · rintro ⟨_, hread, h⟩
    obtain ⟨b, hb, rfl⟩ := (map_ok_iff _ _ _).mp hread
    exact ⟨b, hb, h⟩
  · rintro ⟨b, hb, h⟩
    exact ⟨_, (map_ok_iff _ _ _).mpr ⟨b, hb, rfl⟩, h⟩

theorem fromMembers_free (hs : r.slots.find? (·.name = k) = none) (ht : t.intact = true) :
    r.fromMembers p seen a ((some k, t) :: ms) = r.fromMembers p seen a ms := by
  simp only [Record.fromMembers, Decoder.key, bind, Except.bind, hs, Record.skip, ht, if_true]

theorem fromMembers_unnamed : r.fromMembers p seen a ((none, t) :: ms) ≠ .ok result := nofun

end fromMembers

theorem find?_slot_eq_none_iff {slots : List (Slot α)} {k : String} :
    slots.find? (·.name = k) = none ↔ k ∉ slots.map (·.name) := by
  simp

variable {r : Record α} {p : Place} {seen : List String} {a : α} {result : List String × α}

/-- Members without a slot do not count. -/
theorem fromMembers_iff_known {ms : List (List Piece × Phrase)} :
    r.fromMembers p seen a (Phrase.memberTrees ms) = .ok result ↔
      Named ms ∧ r.fromMembers p seen a (trees (known (r.slots.map (·.name)) ms)) = .ok result := by
  induction ms generalizing seen a with
  | nil => exact (and_iff_right nofun).symm
  | cons m ms ih =>
    obtain ⟨key, d⟩ := m
    rw [Phrase.memberTrees]
    cases hkey : text key with
    | none =>
      refine iff_of_false fromMembers_unnamed ?_
      rintro ⟨hnamed, _⟩
      obtain ⟨k, hk⟩ := hnamed _ List.mem_cons_self
      cases hkey.symm.trans hk
    | some k =>
      have hnamed : Named ((key, d) :: ms) ↔ Named ms :=
        List.forall_mem_cons.trans (and_iff_right ⟨k, hkey⟩)
      rw [hnamed]
      cases hs : r.slots.find? (·.name = k) with
      | none =>
        have hfree : known? (r.slots.map (·.name)) (key, d) = none := by
          simp only [known?, hkey, Option.filter_some,
            decide_eq_false (find?_slot_eq_none_iff.mp hs)]
          rfl
        rw [fromMembers_free hs (intact_tree d), ih, known, known,
          List.filterMap_cons_none hfree]
      | some s =>
        have hk : k ∈ r.slots.map (·.name) := by
          by_contra hnot
          cases (find?_slot_eq_none_iff.mpr hnot).symm.trans hs
        have htaken : known? (r.slots.map (·.name)) (key, d) = some (k, d) := by
          simp only [known?, hkey, Option.filter_some, decide_eq_true hk, if_true, Option.map_some]
        rw [known, List.filterMap_cons_some htaken, trees, List.map_cons]
        rw [fromMembers_slot_iff hs, fromMembers_slot_iff hs]
        simp only [ih]
        constructor
        · rintro ⟨hseen, a', hread, hn, h⟩
          exact ⟨hn, hseen, a', hread, h⟩
        · rintro ⟨hn, hseen, a', hread, h⟩
          exact ⟨hseen, a', hread, hn, h⟩

section decode

theorem fromItems_cons_iff {i : Nat} {s : Slot α} {slots : List (Slot α)} {t : Tree}
    {ts : List Tree} {closed : Bool} {outcome : α × List Tree} :
    r.fromItems p i a (s :: slots) (t :: ts) closed = .ok outcome ↔
      ∃ a', s.read p t a = .ok a' ∧ r.fromItems p (i + 1) a' slots ts closed = .ok outcome := by
  rw [Record.fromItems]
  cases hread : s.read p t a with
  | error e =>
    constructor
    · rintro ⟨⟩
    · rintro ⟨_, ⟨⟩, _⟩
  | ok a' =>
    constructor
    · exact fun h => ⟨a', rfl, h⟩
    · rintro ⟨_, ⟨⟩, h⟩
      exact h

theorem decode_leaf {t : Tree}
    (ho : ∀ ms closed, t ≠ .object ms closed) (ha : ∀ ts closed, t ≠ .array ts closed) :
    r.decode p t ≠ .ok a := by
  unfold Record.decode
  split
  · exact absurd rfl (ho _ _)
  · exact absurd rfl (ha _ _)
  · exact unexpected_ne_ok _ _ a

end decode

theorem membersFrom_iff {dec : Decoder β} {p : Place} {done all : List (String × β)}
    {ms : List (List Piece × Phrase)} :
    Decoder.membersFrom dec p done (Phrase.memberTrees ms) = .ok all ↔
      ∃ read, List.Forall₂ (fun m x => text m.1 = some x.1 ∧ dec p m.2.tree = .ok x.2) ms read ∧
        all = done.reverse ++ read := by
  induction ms generalizing done with
  | nil =>
    rw [Phrase.memberTrees, Decoder.membersFrom]
    constructor
    · rintro ⟨⟩
      exact ⟨[], .nil, (List.append_nil _).symm⟩
    · rintro ⟨_, ⟨⟩, rfl⟩
      rw [List.append_nil]
  | cons m ms ih =>
    obtain ⟨key, d⟩ := m
    rw [Phrase.memberTrees]
    constructor
    · intro h
      obtain ⟨k, hk, h⟩ := (bind_ok_iff _ _ _).mp h
      cases hkey : text key with
      | none =>
        rw [hkey] at hk
        cases hk
      | some k' =>
        rw [hkey] at hk
        cases hk
        split at h
        · rename_i b hread
          obtain ⟨read, hall, rfl⟩ := ih.mp h
          exact ⟨(k, b) :: read, .cons ⟨hkey, hread⟩ hall, by simp⟩
        · cases h
    · rintro ⟨_, hall, rfl⟩
      cases hall with
      | @cons _ x _ read hm hall =>
        obtain ⟨hkey, hread⟩ := hm
        refine (bind_ok_iff _ _ _).mpr ⟨x.1, by rw [hkey]; rfl, ?_⟩
        simp only at hread
        simp only [hread]
        exact ih.mpr ⟨read, hall, by simp⟩

end Attestation.Proofs.RecordMembers
