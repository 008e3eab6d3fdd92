import Attestation.Proofs.RecordFields

namespace Attestation.Proofs.RecordParts

open CmwGrammar CmwRoundTrip Json JsonDocuments JsonGrammar JsonMeaning JsonRecords JsonValues
  RecordFields RecordMembers

variable {α β : Type}

section phrases

/-- The members with the names that are given. -/
def given : List String → List (Option β) → List (String × β)
  | name :: names, some d :: os => (name, d) :: given names os
  | _ :: names, none :: os => given names os
  | _, _ => []

theorem names_given (names : List String) (os : List (Option β)) :
    ((given names os).map (·.1)).Sublist names := by
  induction names generalizing os with
  | nil => exact List.nil_sublist []
  | cons name names ih =>
    cases os with
    | nil => exact List.nil_sublist _
    | cons o os =>
      cases o with
      | none => exact (ih os).trans (List.sublist_cons_self name names)
      | some d => exact (ih os).cons_cons name

theorem find?_eq_some_iff_mem {ms : List (String × β)} (h : (ms.map (·.1)).Nodup) {k : String}
    {v : β} : Table.find? ms k = some v ↔ (k, v) ∈ ms :=
  ⟨Tables.mem_of_find?, find?_of_nodup h⟩

theorem find?_perm {ms ms' : List (String × β)} (h : ms.Perm ms') (hn : (ms.map (·.1)).Nodup)
    (k : String) : Table.find? ms k = Table.find? ms' k := by
  have hn' : (ms'.map (·.1)).Nodup := (h.map _).nodup_iff.mp hn
  refine Option.ext fun v => ?_
  rw [find?_eq_some_iff_mem hn, find?_eq_some_iff_mem hn', h.mem_iff]

theorem map_find?_given {names : List String} {os : List (Option β)} (hn : names.Nodup)
    (ho : os.length = names.length) : names.map (Table.find? (given names os)) = os := by
  induction names generalizing os with
  | nil => exact (List.length_eq_zero_iff.mp ho).symm
  | cons name names ih =>
    obtain ⟨hnew, hn⟩ := List.nodup_cons.mp hn
    cases os with
    | nil => cases ho
    | cons o os =>
      have hrest := ih hn (Nat.succ.inj ho)
      cases o with
      | none =>
        have habsent : Table.find? (given names os) name = none := by
          refine Tables.find?_eq_none_iff.mpr fun m hm heq => hnew ?_
          exact (names_given names os).subset (List.mem_map.mpr ⟨m, hm, heq⟩)
        rw [given, List.map_cons, habsent, hrest]
      | some d =>
        rw [given, List.map_cons, Tables.find?_cons, if_pos rfl]
        congr 1
        refine (List.map_congr_left fun k hk => ?_).trans hrest
        rw [Tables.find?_cons, if_neg]
        rintro rfl
        exact hnew hk

theorem perm_given_iff {names : List String} {os : List (Option β)} {ms : List (String × β)}
    (hn : names.Nodup) (hms : ∀ m ∈ ms, m.1 ∈ names) :
    os.length = names.length ∧ ms.Perm (given names os) ↔
      (ms.map (·.1)).Nodup ∧ os = names.map (Table.find? ms) := by
  have hgiven : ∀ os : List (Option β), ((given names os).map (·.1)).Nodup :=
    fun os => hn.sublist (names_given names os)
  constructor
  · rintro ⟨ho, hperm⟩
    have hnodup : (ms.map (·.1)).Nodup := (hperm.map _).nodup_iff.mpr (hgiven os)
    refine ⟨hnodup, (map_find?_given hn ho).symm.trans (List.map_congr_left fun k _ => ?_)⟩
    exact (find?_perm hperm hnodup k).symm
  · rintro ⟨hnodup, rfl⟩
    have hlen : (names.map (Table.find? ms)).length = names.length := List.length_map _
    have hfind := List.map_inj_left.mp (map_find?_given hn hlen)
    refine ⟨hlen, (List.perm_ext_iff_of_nodup hnodup.of_map (hgiven _).of_map).mpr ?_⟩
    rintro ⟨k, v⟩
    rw [← find?_eq_some_iff_mem hnodup, ← find?_eq_some_iff_mem (hgiven _)]
    by_cases hk : k ∈ names
    · rw [hfind k hk]
    · refine iff_of_false (fun h => hk (hms _ (Tables.mem_of_find? h))) fun h => hk ?_
      exact (names_given _ _).subset (List.mem_map_of_mem (Tables.mem_of_find? h))

/-- What a phrase has under each name: the one member with the name, if there is one, or the item in
its place. -/
inductive Parts (names : List String) : Phrase → List (Option Phrase) → Prop
  | members {ms : List (List Piece × Phrase)} {os : List (Option Phrase)} (hn : Named ms)
      (ho : os.length = names.length) (hm : (known names ms).Perm (given names os)) :
      Parts names (.object ms) os
  | items {ds : List Phrase} (h : ds.length ≤ names.length) :
      Parts names (.array ds) (padded names.length ds)

theorem parts_object_iff {names : List String} {ms : List (List Piece × Phrase)}
    {os : List (Option Phrase)} : Parts names (.object ms) os ↔
      Named ms ∧ os.length = names.length ∧ (known names ms).Perm (given names os) := by
  constructor
  · rintro ⟨hn, ho, hm⟩
    exact ⟨hn, ho, hm⟩
  · rintro ⟨hn, ho, hm⟩
    exact .members hn ho hm

theorem parts_array_iff {names : List String} {ds : List Phrase} {os : List (Option Phrase)} :
    Parts names (.array ds) os ↔ ds.length ≤ names.length ∧ os = padded names.length ds := by
  constructor
  · intro h
    cases h with
    | items h => exact ⟨h, rfl⟩
  · rintro ⟨h, rfl⟩
    exact .items h

def listed : Phrase → Bool
  | .array _ => true
  | _ => false

variable {r : Record α} {fs : List (RecordField α)} {p : Place} {a : α}

theorem find?_map {γ : Type} (f : β → γ) (ms : List (String × β)) (k : String) :
    Table.find? (ms.map fun m => (m.1, f m.2)) k = (Table.find? ms k).map f := by
  induction ms with
  | nil => rfl
  | cons m ms ih =>
    rw [List.map_cons, Tables.find?_cons, ih, Tables.find?_cons]
    split <;> rfl

theorem trees_eq_named (ms : List (String × Phrase)) :
    trees ms = named (ms.map fun m => (m.1, m.2.tree)) := by
  simp [trees, named]

theorem trees_eq_map (ds : List Phrase) : Phrase.trees ds = ds.map Phrase.tree := by
  induction ds with
  | nil => rfl
  | cons d ds ih => rw [Phrase.trees, ih, List.map_cons]

theorem slots_names (hr : r.slots = fs.map (·.slot)) : r.slots.map (·.name) = names fs := by
  rw [hr, List.map_map]
  rfl

theorem length_names (fs : List (RecordField α)) : (names fs).length = fs.length :=
  List.length_map _

theorem forall₂_names_iff {P : RecordField α → β → Prop} {g : String → β} :
    List.Forall₂ P fs ((names fs).map g) ↔ ∀ f ∈ fs, P f (g f.name) := by
  rw [names, List.map_map, List.forall₂_map_right_iff, List.forall₂_same]
  rfl

theorem padded_map {γ : Type} (f : β → γ) (n : Nat) (ts : List β) :
    padded n (ts.map f) = (padded n ts).map (Option.map f) := by
  induction n generalizing ts with
  | zero => rfl
  | succ n ih =>
    cases ts with
    | nil => exact congrArg (none :: ·) (ih [])
    | cons t ts => exact congrArg (some (f t) :: ·) (ih ts)

theorem decode_object_parts_iff (hf : Lawful fs) (hr : r.slots = fs.map (·.slot))
    {ms : List (List Piece × Phrase)} :
    r.decode p (Phrase.object ms).tree = .ok a ↔ Roomy p 1 ∧ Named ms ∧
      ((known (names fs) ms).map (·.1)).Nodup ∧
        ∀ f ∈ fs, Holds { p with depth := p.depth + 1 } false r.initial a f
          ((Table.find? (known (names fs) ms) f.name).map Phrase.tree) := by
  have hknown : ∀ m ∈ (known (names fs) ms).map fun m => (m.1, m.2.tree), m.1 ∈ names fs := by
    intro m hm
    obtain ⟨x, hx, rfl⟩ := List.mem_map.mp hm
    exact mem_names_of_known hx
  have hsame : ((known (names fs) ms).map fun m => (m.1, m.2.tree)).map (·.1) =
      (known (names fs) ms).map (·.1) := List.map_map
  have hholds : (∃ seen, r.fromMembers { p with depth := p.depth + 1 } [] r.initial _ =
      .ok (seen, a) ∧ _) ↔ _ := fromMembers_holds_iff hf hr hknown
  rw [hsame] at hholds
  simp only [find?_map] at hholds
  rw [Phrase.tree, decode_members_iff]
  refine and_congr_right fun _ => ?_
  rw [← hholds, ← exists_and_left]
  refine exists_congr fun seen => ?_
  rw [fromMembers_iff_known, slots_names hr, trees_eq_named, and_assoc]

/-- A record is read from its parts. -/
theorem decode_parts_iff (hf : Lawful fs) (hr : r.slots = fs.map (·.slot))
    (ho : p.origin ≠ .settings) (d : Phrase) :
    r.decode p d.tree = .ok a ↔ Roomy p 1 ∧ ∃ os, Parts (names fs) d os ∧
      List.Forall₂ (fun f o => Holds { p with depth := p.depth + 1 } (listed d) r.initial a f
        (o.map Phrase.tree)) fs os := by
  cases d with
  | object ms =>
    have hknown : ∀ m ∈ known (names fs) ms, m.1 ∈ names fs := fun m hm => mem_names_of_known hm
    rw [decode_object_parts_iff hf hr]
    refine and_congr_right fun _ => ?_
    constructor
    · rintro ⟨hn, hnodup, h⟩
      obtain ⟨ho, hperm⟩ := (perm_given_iff hf.nodup hknown).mpr ⟨hnodup, rfl⟩
      exact ⟨_, .members hn ho hperm, forall₂_names_iff.mpr h⟩
    · rintro ⟨os, hparts, h⟩
      cases hparts with
      | members hn ho hm =>
        obtain ⟨hnodup, rfl⟩ := (perm_given_iff hf.nodup hknown).mp ⟨ho, hm⟩
        exact ⟨hn, hnodup, forall₂_names_iff.mp h⟩
  | array ds =>
    rw [Phrase.tree, trees_eq_map, decode_listed_iff hf hr ho, List.length_map, padded_map,
      List.forall₂_map_right_iff]
    refine and_congr_right fun _ => ?_
    constructor
    · rintro ⟨hlen, h⟩
      refine ⟨_, .items (length_names fs ▸ hlen), ?_⟩
      rwa [length_names]
    · rintro ⟨os, hparts, h⟩
      cases hparts with
      | items hlen =>
        rw [length_names] at hlen h
        exact ⟨hlen, h⟩
  | _ =>
    refine iff_of_false (decode_leaf nofun nofun) ?_
    rintro ⟨-, _, ⟨⟩, -⟩

theorem run_parts_iff (hf : Lawful fs) (hr : r.slots = fs.map (·.slot)) {data : List UInt8} :
    Decoder.run r.decode data = .ok a ↔ ∃ d os, Spells d data ∧ Parts (names fs) d os ∧
      List.Forall₂ (fun f o => Holds ⟨.text, 1⟩ (listed d) r.initial a f (o.map Phrase.tree)) fs
        os := by
  have hroom : Roomy ⟨.text, 0⟩ 1 := fun _ => by decide
  constructor
  · intro h
    obtain ⟨d, hd⟩ := exists_spelled h
    rw [run_spelled _ hd, decode_parts_iff hf hr (by decide), and_iff_right hroom] at h
    obtain ⟨os, hparts, hholds⟩ := h
    exact ⟨d, os, hd, hparts, hholds⟩
  · rintro ⟨d, os, hd, hparts, hholds⟩
    rw [run_spelled _ hd, decode_parts_iff hf hr (by decide), and_iff_right hroom]
    exact ⟨os, hparts, hholds⟩

end phrases

section values

variable {r : Record α} {fs : List (RecordField α)} {p : Place} {a : α}

mutual

theorem intact_toTree : ∀ v : Value, v.toTree.intact = true
  | .null | .bool _ | .number _ | .string _ => rfl
  | .array vs => by rw [Value.toTree, Tree.intact, allIntact_treesOf vs, Bool.true_and]
  | .object ms => by rw [Value.toTree, Tree.intact, membersIntact_memberTreesOf ms, Bool.true_and]

theorem allIntact_treesOf : ∀ vs : List Value, Tree.allIntact (Value.treesOf vs) = true
  | [] => rfl
  | v :: vs => by rw [Value.treesOf, Tree.allIntact, intact_toTree v, allIntact_treesOf vs]; rfl

theorem membersIntact_memberTreesOf : ∀ ms : List (String × Value),
    Tree.membersIntact (Value.memberTreesOf ms) = true
  | [] => rfl
  | (_, v) :: ms => by
    rw [Value.memberTreesOf, Tree.membersIntact, intact_toTree v, membersIntact_memberTreesOf ms]
    rfl

end

theorem memberTreesOf_eq_named (ms : List (String × Value)) :
    Value.memberTreesOf ms = named (ms.map fun m => (m.1, m.2.toTree)) := by
  induction ms with
  | nil => rfl
  | cons m ms ih =>
    rw [Value.memberTreesOf, ih]
    rfl

theorem fromMembers_filter_iff (hr : r.slots = fs.map (·.slot)) {ms : List (String × Value)}
    {seen : List String} {initial : α} {result : List String × α} :
    r.fromMembers p seen initial (Value.memberTreesOf ms) = .ok result ↔
      r.fromMembers p seen initial (Value.memberTreesOf (ms.filter (·.1 ∈ names fs))) =
        .ok result := by
  induction ms generalizing seen initial with
  | nil => rfl
  | cons m ms ih =>
    obtain ⟨k, v⟩ := m
    cases hs : r.slots.find? (·.name = k) with
    | none =>
      have hk : k ∉ names fs := by rwa [find?_slot_eq_none_iff, slots_names hr] at hs
      rw [Value.memberTreesOf, fromMembers_free hs (intact_toTree v), ih,
        List.filter_cons_of_neg (by simpa using hk)]
    | some s =>
      have hk : k ∈ names fs := by
        by_contra hnot
        rw [← slots_names hr, ← find?_slot_eq_none_iff] at hnot
        cases hnot.symm.trans hs
      rw [List.filter_cons_of_pos (by simpa using hk), Value.memberTreesOf, Value.memberTreesOf,
        fromMembers_slot_iff hs, fromMembers_slot_iff hs]
      simp only [ih]

theorem find?_filter {ms : List (String × β)} {names : List String} {k : String} (hk : k ∈ names) :
    Table.find? (ms.filter (·.1 ∈ names)) k = Table.find? ms k := by
  induction ms with
  | nil => rfl
  | cons m ms ih =>
    by_cases hm : m.1 ∈ names
    · rw [List.filter_cons_of_pos (by simpa using hm), Tables.find?_cons, ih, Tables.find?_cons]
    · rw [List.filter_cons_of_neg (by simpa using hm), ih, Tables.find?_cons, if_neg]
      rintro rfl
      exact hm hk

theorem decode_value_object_iff (hf : Lawful fs) (hr : r.slots = fs.map (·.slot))
    {ms : List (String × Value)} (hms : (ms.map (·.1)).Nodup) :
    r.decode p (Value.object ms).toTree = .ok a ↔ Roomy p 1 ∧
      ∀ f ∈ fs, Holds { p with depth := p.depth + 1 } false r.initial a f
        ((Table.find? ms f.name).map Value.toTree) := by
  have hnames : ∀ m ∈ (ms.filter (·.1 ∈ names fs)).map fun m => (m.1, m.2.toTree),
      m.1 ∈ names fs := by
    intro m hm
    obtain ⟨x, hx, rfl⟩ := List.mem_map.mp hm
    exact of_decide_eq_true (List.mem_filter.mp hx).2
  have hnodup :
      (((ms.filter (·.1 ∈ names fs)).map fun m => (m.1, m.2.toTree)).map (·.1)).Nodup := by
    rw [List.map_map]
    exact hms.sublist (List.filter_sublist.map _)
  have hholds : (∃ seen, r.fromMembers { p with depth := p.depth + 1 } [] r.initial _ =
      .ok (seen, a) ∧ _) ↔ _ := fromMembers_holds_iff hf hr hnames
  rw [and_iff_right hnodup, ← memberTreesOf_eq_named] at hholds
  simp only [find?_map] at hholds
  rw [Value.toTree, decode_members_iff]
  refine and_congr_right fun _ => ?_
  rw [exists_congr fun _ => and_congr_left fun _ => fromMembers_filter_iff hr, hholds]
  refine forall₂_congr fun f hfm => ?_
  have hname : f.name ∈ names fs := List.mem_map_of_mem hfm
  rw [find?_filter hname]

/-- What a phrase has under each name, when it is read as a value first: the last member with the
name, if there is one, or the item in its place. -/
inductive LastParts (names : List String) : Phrase → List (Option Phrase) → Prop
  | members {ms : List (List Piece × Phrase)} {os : List (Option Phrase)}
      (h : List.Forall₂ (Last ms) names os) : LastParts names (.object ms) os
  | items {ds : List Phrase} (h : ds.length ≤ names.length) :
      LastParts names (.array ds) (padded names.length ds)

theorem nodup_ascending {ms : List (String × β)} (h : SelectionOrder.Ascending ms) :
    (ms.map (·.1)).Nodup := by
  refine List.Pairwise.imp ?_ h
  rintro k _ hlt rfl
  exact String.lt_irrefl k hlt

theorem find?_means {ms : List (List Piece × Phrase)} {pairs members : List (String × Value)}
    (h : MeansMembers ms pairs) (hl : LastOf pairs members) {k : String} {o : Option Phrase}
    (ho : Last ms k o) : Option.Rel Means o (Table.find? members k) := by
  have hget : Table.find? members k = Value.get? members k :=
    find?_perm (List.reverse_perm members).symm (nodup_ascending hl.ascending) k
  rw [hget, get?_lastOf hl]
  exact get?_last h ho

theorem padded_means {ds : List Phrase} {vs : List Value} (h : MeansItems ds vs) (n : Nat) :
    List.Forall₂ (Option.Rel Means) (padded n ds) (padded n vs) := by
  induction n generalizing ds vs with
  | zero => exact .nil
  | succ n ih =>
    cases h with
    | nil => exact .cons .none (ih .nil)
    | cons h hs => exact .cons (.some h) (ih hs)

theorem length_of_meansItems {ds : List Phrase} {vs : List Value} (h : MeansItems ds vs) :
    ds.length = vs.length := by
  induction ds generalizing vs with
  | nil =>
    cases h
    rfl
  | cons d ds ih =>
    cases h with
    | cons _ hs => rw [List.length_cons, List.length_cons, ih hs]

theorem rel_means_unique : Relator.RightUnique (Option.Rel Means) := by
  rintro o v w hv hw
  cases hv with
  | none =>
    cases hw
    rfl
  | some hv =>
    cases hw with
    | some hw => rw [means_unique hv hw]

theorem treesOf_eq_map (vs : List Value) : Value.treesOf vs = vs.map Value.toTree := by
  induction vs with
  | nil => rfl
  | cons v vs ih => rw [Value.treesOf, ih, List.map_cons]

theorem exists_lasts (ms : List (List Piece × Phrase)) (names : List String) :
    ∃ os, List.Forall₂ (Last ms) names os := by
  induction names with
  | nil => exact ⟨[], .nil⟩
  | cons name names ih =>
    obtain ⟨o, ho⟩ := exists_last ms name
    obtain ⟨os, hos⟩ := ih
    exact ⟨o :: os, .cons ho hos⟩

theorem lasts_means {ms : List (List Piece × Phrase)} {pairs members : List (String × Value)}
    (h : MeansMembers ms pairs) (hl : LastOf pairs members) {names : List String}
    {os : List (Option Phrase)} (hos : List.Forall₂ (Last ms) names os) :
    List.Forall₂ (Option.Rel Means) os (names.map (Table.find? members)) := by
  induction hos with
  | nil => exact .nil
  | cons ho _ ih => exact .cons (find?_means h hl ho) ih

theorem ofValue_parts_iff (hf : Lawful fs) (hr : r.slots = fs.map (·.slot)) {d : Phrase}
    {v : Value} (h : Means d v) :
    Decoder.ofValue r.decode v = .ok a ↔ ∃ os vs, LastParts (names fs) d os ∧
      List.Forall₂ (Option.Rel Means) os vs ∧
      List.Forall₂ (fun f (o : Option Value) => Holds ⟨.value, 1⟩ (listed d) r.initial a f
        (o.map Value.toTree)) fs vs := by
  have hroom : Roomy ⟨.value, 0⟩ 1 := roomy_value 0 1
  cases h with
  | @object ms pairs members hm hl =>
    have hread : Decoder.ofValue r.decode (.object members) = .ok a ↔
        List.Forall₂ (fun f (o : Option Value) => Holds ⟨.value, 1⟩ false r.initial a f
          (o.map Value.toTree)) fs ((names fs).map (Table.find? members)) := by
      rw [forall₂_names_iff]
      exact (decode_value_object_iff hf hr (nodup_ascending hl.ascending)).trans
        (and_iff_right hroom)
    rw [hread]
    constructor
    · intro hholds
      obtain ⟨os, hos⟩ := exists_lasts ms (names fs)
      exact ⟨os, _, .members hos, lasts_means hm hl hos, hholds⟩
    · rintro ⟨os, vs, hparts, hrel, hholds⟩
      cases hparts with
      | members hos =>
        rwa [rel_means_unique.forall₂ (lasts_means hm hl hos) hrel]
  | @array ds vs hs =>
    have hread : Decoder.ofValue r.decode (.array vs) = .ok a ↔ vs.length ≤ fs.length ∧
        List.Forall₂ (fun f (o : Option Value) => Holds ⟨.value, 1⟩ true r.initial a f
          (o.map Value.toTree)) fs (padded fs.length vs) := by
      rw [Decoder.ofValue, Value.toTree, treesOf_eq_map, decode_listed_iff hf hr (by decide),
        and_iff_right hroom, List.length_map, padded_map, List.forall₂_map_right_iff]
    rw [hread, ← length_of_meansItems hs]
    constructor
    · rintro ⟨hlen, hholds⟩
      refine ⟨_, _, .items (length_names fs ▸ hlen), padded_means hs _, ?_⟩
      rwa [length_names]
    · rintro ⟨os, vs', hparts, hrel, hholds⟩
      cases hparts with
      | items hlen =>
        rw [length_names] at hlen hrel
        rw [rel_means_unique.forall₂ (padded_means hs _) hrel]
        exact ⟨hlen, hholds⟩
  | _ =>
    refine iff_of_false (decode_leaf nofun nofun) ?_
    rintro ⟨_, _, ⟨⟩, -, -⟩

end values

end Attestation.Proofs.RecordParts
