import Attestation.Proofs.JsonMeaning

namespace Attestation.Proofs.RecordFields

open CmwGrammar CmwRoundTrip Json JsonGrammar JsonMeaning JsonRecords JsonValues RecordMembers

/-- A slot whose content can be looked up. -/
structure RecordField (α : Type) where
  {β : Type}
  name : String
  need : Need
  decode : Decoder β
  put : β → α → α
  get : α → β
  get_put : ∀ b a, get (put b a) = b

variable {α β : Type}

def RecordField.slot (f : RecordField α) : Slot α := .of f.need f.name f.decode f.put

def names (fs : List (RecordField α)) : List String := fs.map (·.name)

/-- Fields that make up a record. -/
structure Lawful (fs : List (RecordField α)) : Prop where
  nodup : (names fs).Nodup
  apart : ∀ f ∈ fs, ∀ g ∈ fs, f.name ≠ g.name → ∀ b a, g.get (f.put b a) = g.get a
  whole : ∀ a a', (∀ f ∈ fs, f.get a = f.get a') → a = a'

def RecordField.free (f : RecordField α) (listed : Bool) : Prop :=
  if listed then f.need = .optional else f.need ≠ .mandatory

def mapped {γ : Type} (d : Decoder β) (f : β → γ) : Decoder γ := fun p t => (d p t).map f

theorem of_comp {γ : Type} (need : Need) (name : String) (d : Decoder β) (f : β → γ)
    (put : γ → α → α) :
    Slot.of need name d (fun x => put (f x)) = Slot.of need name (mapped d f) put := by
  refine congrArg (Slot.mk name need) (funext fun p => funext fun t => funext fun a => ?_)
  unfold mapped
  cases d p t <;> rfl

theorem optional_tree_iff {read : Decoder β} {p : Place} {d : Phrase} {o : Option β} :
    Decoder.optional read p d.tree = .ok o ↔
      d = .null ∧ o = none ∨ d ≠ .null ∧ ∃ b, o = some b ∧ read p d.tree = .ok b := by
  by_cases hd : d = .null
  · subst d
    simp only [Phrase.tree, Decoder.optional, Except.ok.injEq, ne_eq, not_true_eq_false, false_and,
      or_false, true_and]
    exact eq_comm
  · have hread : Decoder.optional read p d.tree = (read p d.tree).map some := by
      cases d with
      | null => exact absurd rfl hd
      | _ => rfl
    rw [hread, map_ok_iff]
    simp only [hd, false_and, ne_eq, not_false_eq_true, true_and, false_or]
    exact exists_congr fun b => and_comm.trans (and_congr_left' eq_comm)

/-- What a record holds in a field, which it was read from if it was given. -/
inductive Holds (p : Place) (listed : Bool) (initial a : α) (f : RecordField α) :
    Option Tree → Prop
  | given {t : Tree} (h : f.decode p t = .ok (f.get a)) : Holds p listed initial a f (some t)
  | left (hn : f.free listed) (h : f.get a = f.get initial) : Holds p listed initial a f none

section holds

variable {p : Place} {isList : Bool} {initial a : α} {f : RecordField α} {tree : β → Tree}
  {o : Option β}

theorem holds_mandatory_iff (hn : f.need = .mandatory) :
    Holds p isList initial a f (o.map tree) ↔
      ∃ x, o = some x ∧ f.decode p (tree x) = .ok (f.get a) := by
  cases o with
  | some x =>
    constructor
    · rintro ⟨h⟩
      exact ⟨x, rfl, h⟩
    · rintro ⟨_, ⟨⟩, h⟩
      exact .given h
  | none =>
    refine iff_of_false (fun h => ?_) nofun
    cases h with
    | left hfree _ =>
      cases isList with
      | true => cases hn.symm.trans hfree
      | false => exact hfree hn

theorem holds_optional_iff (hn : f.need = .optional) :
    Holds p isList initial a f (o.map tree) ↔
      (∃ x, o = some x ∧ f.decode p (tree x) = .ok (f.get a)) ∨
        o = none ∧ f.get a = f.get initial := by
  cases o with
  | some x =>
    constructor
    · rintro ⟨h⟩
      exact .inl ⟨x, rfl, h⟩
    · rintro (⟨_, ⟨⟩, h⟩ | ⟨⟨⟩, -⟩)
      exact .given h
  | none =>
    constructor
    · intro h
      cases h with
      | left _ h => exact .inr ⟨rfl, h⟩
    · rintro (⟨_, ⟨⟩, -⟩ | ⟨-, h⟩)
      refine .left ?_ h
      cases isList with
      | true => exact hn
      | false => exact fun hm => Need.noConfusion (hn.symm.trans hm)

theorem holds_positional_iff (hn : f.need = .positional) :
    Holds p isList initial a f (o.map tree) ↔
      (∃ x, o = some x ∧ f.decode p (tree x) = .ok (f.get a)) ∨
        o = none ∧ isList = false ∧ f.get a = f.get initial := by
  cases o with
  | some x =>
    constructor
    · rintro ⟨h⟩
      exact .inl ⟨x, rfl, h⟩
    · rintro (⟨_, ⟨⟩, h⟩ | ⟨⟨⟩, -⟩)
      exact .given h
  | none =>
    constructor
    · intro h
      cases h with
      | left hfree h =>
        cases isList with
        | true => cases hn.symm.trans hfree
        | false => exact .inr ⟨rfl, rfl, h⟩
    · rintro (⟨_, ⟨⟩, -⟩ | ⟨-, rfl, h⟩)
      exact .left (fun hm => Need.noConfusion (hn.symm.trans hm)) h

end holds

section members

variable {r : Record α} {fs : List (RecordField α)} {p : Place} {seen : List String} {a initial : α}

def named (ms : List (String × Tree)) : List (Option String × Tree) :=
  ms.map fun m => (some m.1, m.2)

theorem Lawful.eq_of_name (hf : Lawful fs) {f g : RecordField α} (hfm : f ∈ fs) (hgm : g ∈ fs)
    (h : f.name = g.name) : f = g :=
  List.inj_on_of_nodup_map hf.nodup hfm hgm h

theorem find?_slot (hf : Lawful fs) (hr : r.slots = fs.map (·.slot)) {f : RecordField α}
    (hfm : f ∈ fs) : r.slots.find? (·.name = f.name) = some f.slot := by
  cases h : r.slots.find? (·.name = f.name) with
  | none =>
    rw [find?_slot_eq_none_iff, hr, List.map_map] at h
    exact absurd (List.mem_map_of_mem hfm) h
  | some s =>
    have hs := List.mem_of_find?_eq_some h
    rw [hr] at hs
    obtain ⟨g, hg, rfl⟩ := List.mem_map.mp hs
    have hname : g.name = f.name :=
      of_decide_eq_true (List.find?_some (p := fun s : Slot α => s.name = f.name) h)
    rw [hf.eq_of_name hg hfm hname]

def Untouched (fs : List (RecordField α)) (ks : List String) (initial a : α) : Prop :=
  ∀ f ∈ fs, f.name ∉ ks → f.get a = f.get initial

theorem Lawful.eq_of_untouched (hf : Lawful fs) (h : Untouched fs [] initial a) : a = initial :=
  hf.whole a initial fun f hfm => h f hfm List.not_mem_nil

theorem Lawful.untouched_iff (hf : Lawful fs) {g : RecordField α} (hgm : g ∈ fs) {ks : List String}
    (hg : g.name ∉ ks) :
    Untouched fs ks initial a ↔
      g.get a = g.get initial ∧ Untouched fs (g.name :: ks) initial a := by
  constructor
  · exact fun h => ⟨h g hgm hg, fun f hfm hname =>
      h f hfm fun hmem => hname (List.mem_cons_of_mem _ hmem)⟩
  · rintro ⟨hget, h⟩ f hfm hname
    by_cases hfg : f.name = g.name
    · rwa [hf.eq_of_name hfm hgm hfg]
    · exact h f hfm fun hmem => (List.mem_cons.mp hmem).elim hfg hname

theorem Lawful.untouched_put_iff (hf : Lawful fs) {g : RecordField α} (hgm : g ∈ fs)
    {ks : List String} (hg : g.name ∉ ks) {b : g.β} :
    Untouched fs ks (g.put b initial) a ↔
      g.get a = b ∧ Untouched fs (g.name :: ks) initial a := by
  rw [hf.untouched_iff hgm hg, g.get_put]
  refine and_congr_right fun _ => forall₃_congr fun f hfm hname => ?_
  rw [hf.apart g hgm f hfm fun heq => hname (heq ▸ List.mem_cons_self)]

theorem fromMembers_fields_iff (hf : Lawful fs) (hr : r.slots = fs.map (·.slot))
    {ms : List (String × Tree)} (hms : ∀ m ∈ ms, m.1 ∈ names fs) {seen' : List String} :
    r.fromMembers p seen initial (named ms) = .ok (seen', a) ↔
      seen' = (ms.map (·.1)).reverse ++ seen ∧ (ms.map (·.1)).Nodup ∧ (∀ m ∈ ms, m.1 ∉ seen) ∧
        (∀ f ∈ fs, ∀ t, (f.name, t) ∈ ms → f.decode p t = .ok (f.get a)) ∧
        Untouched fs (ms.map (·.1)) initial a := by
  induction ms generalizing seen initial with
  | nil =>
    constructor
    · rintro ⟨⟩
      exact ⟨rfl, List.nodup_nil, nofun, nofun, fun _ _ _ => rfl⟩
    · rintro ⟨rfl, -, -, -, h⟩
      rw [hf.eq_of_untouched h]
      rfl
  | cons m ms ih =>
    obtain ⟨k, t⟩ := m
    obtain ⟨hk, hrest⟩ := List.forall_mem_cons.mp hms
    obtain ⟨f, hfm, rfl⟩ := List.mem_map.mp hk
    have hcons : r.fromMembers p seen initial (named ((f.name, t) :: ms)) = .ok (seen', a) ↔ _ :=
      fromMembers_of_iff (find?_slot hf hr hfm)
    rw [hcons]
    have hih : ∀ {seen : List String} {initial : α},
        r.fromMembers p seen initial (ms.map fun m => (some m.1, m.2)) = .ok (seen', a) ↔ _ :=
      ih hrest
    rw [List.forall_mem_cons]
    simp only [hih, List.map_cons, List.nodup_cons, List.reverse_cons, List.append_assoc,
      List.singleton_append, List.mem_cons, not_or]
    constructor
    · rintro ⟨hseen, b, hb, rfl, hnodup, hnew, hread, hput⟩
      have hold : f.name ∉ ms.map (·.1) := by
        intro hmem
        obtain ⟨m, hm, hmk⟩ := List.mem_map.mp hmem
        exact (hnew m hm).1 hmk
      obtain ⟨rfl, h⟩ := (hf.untouched_put_iff hfm hold).mp hput
      refine ⟨rfl, ⟨hold, hnodup⟩, ⟨hseen, fun m hm => (hnew m hm).2⟩, ?_, h⟩
      rintro g hgm t' (heq | hm)
      · obtain ⟨hname, rfl⟩ := Prod.mk.inj heq
        obtain rfl := hf.eq_of_name hgm hfm hname
        exact hb
      · exact hread g hgm t' hm
    · rintro ⟨rfl, ⟨hold, hnodup⟩, ⟨hseen, hnew⟩, hread, h⟩
      refine ⟨hseen, f.get a, hread f hfm t (.inl rfl), rfl, hnodup, fun m hm => ⟨?_, hnew m hm⟩,
        fun g hgm t' hm => hread g hgm t' (.inr hm), (hf.untouched_put_iff hfm hold).mpr ⟨rfl, h⟩⟩
      exact fun heq => hold (heq ▸ List.mem_map_of_mem hm)

theorem missing?_eq_none_iff (hr : r.slots = fs.map (·.slot)) :
    r.missing? seen = none ↔ ∀ f ∈ fs, f.need = .mandatory → f.name ∈ seen := by
  rw [Record.missing?, Option.map_eq_none_iff, List.find?_eq_none, hr]
  simp [RecordField.slot, Slot.of]

theorem find?_of_nodup {ms : List (String × β)} (h : (ms.map (·.1)).Nodup) {k : String} {v : β}
    (hm : (k, v) ∈ ms) : Table.find? ms k = some v := by
  obtain ⟨before, after, rfl⟩ := List.append_of_mem hm
  rw [List.map_append, List.map_cons, List.nodup_middle] at h
  refine Tables.find?_eq_some_iff.mpr ⟨before, after, rfl, fun m hm' heq => ?_⟩
  exact (List.nodup_cons.mp h).1 (List.mem_append_left _ (List.mem_map.mpr ⟨m, hm', heq⟩))

/-- Members make up a record if each field has been read as its member, or could be left out. -/
theorem fromMembers_holds_iff (hf : Lawful fs) (hr : r.slots = fs.map (·.slot))
    {ms : List (String × Tree)} (hms : ∀ m ∈ ms, m.1 ∈ names fs) :
    (∃ seen, r.fromMembers p [] initial (named ms) = .ok (seen, a) ∧ r.missing? seen = none) ↔
      (ms.map (·.1)).Nodup ∧ ∀ f ∈ fs, Holds p false initial a f (Table.find? ms f.name) := by
  simp only [fromMembers_fields_iff hf hr hms, missing?_eq_none_iff hr]
  constructor
  · rintro ⟨_, ⟨rfl, hnodup, -, hread, h⟩, hall⟩
    refine ⟨hnodup, fun f hfm => ?_⟩
    cases hfind : Table.find? ms f.name with
    | some t => exact .given (hread f hfm t (Tables.mem_of_find? hfind))
    | none =>
      have habsent : f.name ∉ ms.map (·.1) := by
        intro hmem
        obtain ⟨m, hm, hmk⟩ := List.mem_map.mp hmem
        exact Tables.find?_eq_none_iff.mp hfind m hm hmk
      refine .left (fun hneed => habsent ?_) (h f hfm habsent)
      simpa using hall f hfm hneed
  · rintro ⟨hnodup, h⟩
    refine ⟨_, ⟨rfl, hnodup, fun _ _ => List.not_mem_nil, fun f hfm t hm => ?_,
      fun f hfm habsent => ?_⟩, ?_⟩
    · have hgiven := h f hfm
      rw [find?_of_nodup hnodup hm] at hgiven
      cases hgiven with
      | given h => exact h
    · have hleft := h f hfm
      rw [Tables.find?_eq_none_iff.mpr fun m hm hmk =>
        habsent (List.mem_map.mpr ⟨m, hm, hmk⟩)]
        at hleft
      cases hleft with
      | left _ h => exact h
    · intro f hfm hneed
      have hgiven := h f hfm
      cases hfind : Table.find? ms f.name with
      | some t => simpa using ⟨t, Tables.mem_of_find? hfind⟩
      | none =>
        rw [hfind] at hgiven
        cases hgiven with
        | left hn _ => exact absurd hneed hn

end members

section items

variable {r : Record α} {fs : List (RecordField α)} {p : Place} {a initial : α}

def padded : Nat → List β → List (Option β)
  | 0, _ => []
  | n + 1, [] => none :: padded n []
  | n + 1, t :: ts => some t :: padded n ts

theorem holds_congr {listed : Bool} {f : RecordField α} {o : Option Tree} {other : α}
    (h : f.get initial = f.get other) :
    Holds p listed initial a f o ↔ Holds p listed other a f o := by
  constructor
  · rintro (h' | ⟨hn, h'⟩)
    · exact .given h'
    · exact .left hn (h'.trans h)
  · rintro (h' | ⟨hn, h'⟩)
    · exact .given h'
    · exact .left hn (h'.trans h.symm)

theorem forall₂_congr_mem {γ : Type*} {R R' : γ → β → Prop} {l : List γ} {m : List β}
    (h : ∀ x ∈ l, ∀ y, R x y ↔ R' x y) : List.Forall₂ R l m ↔ List.Forall₂ R' l m := by
  induction l generalizing m with
  | nil => simp
  | cons x l ih =>
    obtain ⟨hx, h⟩ := List.forall_mem_cons.mp h
    cases m with
    | nil => simp
    | cons y m => rw [List.forall₂_cons, List.forall₂_cons, hx, ih h]

theorem fromItems_optional_iff {i : Nat} {f : RecordField α} {slots : List (Slot α)} :
    r.fromItems p i initial (f.slot :: slots) [] true = .ok (a, []) ↔
      f.need = .optional ∧ r.fromItems p i initial slots [] true = .ok (a, []) := by
  have hslot : f.slot.need = f.need := rfl
  rw [Record.fromItems, if_neg (by decide), hslot]
  by_cases hneed : f.need = .optional
  · rw [if_neg (not_not_intro hneed), and_iff_right hneed]
  · rw [if_pos hneed]
    refine iff_of_false ?_ fun h => hneed h.1
    rintro ⟨⟩

theorem fromItems_given_iff {i : Nat} {f : RecordField α} {slots : List (Slot α)} {t : Tree}
    {ts : List Tree} {outcome : α × List Tree} :
    r.fromItems p i initial (f.slot :: slots) (t :: ts) true = .ok outcome ↔
      ∃ b, f.decode p t = .ok b ∧
        r.fromItems p (i + 1) (f.put b initial) slots ts true = .ok outcome := by
  rw [fromItems_cons_iff]
  constructor
  · rintro ⟨_, hread, h⟩
    obtain ⟨b, hb, rfl⟩ := (map_ok_iff _ _ _).mp hread
    exact ⟨b, hb, h⟩
  · rintro ⟨b, hb, h⟩
    exact ⟨_, (map_ok_iff _ _ _).mpr ⟨b, hb, rfl⟩, h⟩

theorem fromItems_fields_iff (hf : Lawful fs) {gs : List (RecordField α)} (hgs : gs.Sublist fs)
    {i : Nat} {ts : List Tree} :
    r.fromItems p i initial (gs.map (·.slot)) ts true = .ok (a, []) ↔
      ts.length ≤ gs.length ∧ List.Forall₂ (Holds p true initial a) gs (padded gs.length ts) ∧
        Untouched fs (names gs) initial a := by
  induction gs generalizing i initial ts with
  | nil =>
    constructor
    · rintro ⟨⟩
      exact ⟨Nat.le_refl _, .nil, fun _ _ _ => rfl⟩
    · rintro ⟨hlen, -, h⟩
      obtain rfl := List.length_eq_zero_iff.mp (Nat.le_zero.mp hlen)
      rw [hf.eq_of_untouched h]
      rfl
  | cons g gs ih =>
    have hgm : g ∈ fs := hgs.subset List.mem_cons_self
    have hrest : gs.Sublist fs := (List.sublist_cons_self g gs).trans hgs
    have hnew : g.name ∉ names gs := by
      have hnodup : (names (g :: gs)).Nodup := hf.nodup.sublist (hgs.map _)
      exact (List.nodup_cons.mp hnodup).1
    rw [List.map_cons]
    cases ts with
    | nil =>
      rw [fromItems_optional_iff, ih hrest, hf.untouched_iff hgm hnew]
      simp only [List.length_nil, Nat.zero_le, true_and, padded, List.length_cons,
        List.forall₂_cons]
      constructor
      · rintro ⟨hneed, hall, hget, h⟩
        exact ⟨⟨.left hneed hget, hall⟩, h⟩
      · rintro ⟨⟨hleft, hall⟩, h⟩
        cases hleft with
        | left hneed hget => exact ⟨hneed, hall, hget, h⟩
    | cons t ts =>
      -- what the other fields hold in the end does not depend on what is put into this one
      have hothers : ∀ b, List.Forall₂ (Holds p true (g.put b initial) a) gs (padded gs.length ts) ↔
          List.Forall₂ (Holds p true initial a) gs (padded gs.length ts) := fun b =>
        forall₂_congr_mem fun f hmem _ => holds_congr <| hf.apart g hgm f (hrest.subset hmem)
          (fun heq => hnew (List.mem_map.mpr ⟨f, hmem, heq.symm⟩)) b initial
      rw [fromItems_given_iff]
      simp only [ih hrest, hothers, hf.untouched_put_iff hgm hnew, List.length_cons,
        Nat.add_le_add_iff_right, padded, List.forall₂_cons]
      constructor
      · rintro ⟨b, hb, hlen, hall, rfl, h⟩
        exact ⟨hlen, ⟨.given hb, hall⟩, h⟩
      · rintro ⟨hlen, ⟨hgiven, hall⟩, h⟩
        cases hgiven with
        | given hread => exact ⟨g.get a, hread, hlen, hall, rfl, h⟩

end items

section decode

variable {r : Record α} {fs : List (RecordField α)} {p : Place} {a : α}

theorem decode_members_iff {ms : List (Option String × Tree)} :
    r.decode p (.object ms true) = .ok a ↔ Roomy p 1 ∧
      ∃ seen, r.fromMembers { p with depth := p.depth + 1 } [] r.initial ms = .ok (seen, a) ∧
        r.missing? seen = none := by
  constructor
  · intro h
    obtain ⟨q, hq, h⟩ := (bind_ok_iff _ _ _).mp h
    obtain ⟨hroom, rfl⟩ := inner_roomy_iff.mp hq
    obtain ⟨⟨seen, b⟩, hread, h⟩ := (bind_ok_iff _ _ _).mp h
    obtain ⟨b', hend, h⟩ := (bind_ok_iff _ _ _).mp h
    obtain rfl := ending_eq_ok hend
    split at h
    · cases h
    · rename_i hall
      cases h
      exact ⟨hroom, seen, hread, hall⟩
  · rintro ⟨hroom, seen, hread, hall⟩
    refine (bind_ok_iff _ _ _).mpr ⟨_, inner_roomy_iff.mpr ⟨hroom, rfl⟩, ?_⟩
    refine (bind_ok_iff _ _ _).mpr ⟨_, hread, ?_⟩
    refine (bind_ok_iff _ _ _).mpr ⟨a, rfl, ?_⟩
    simp only [hall]
    rfl

theorem leftover_ok_iff {o : Origin} (ho : o ≠ .settings) {total slots : Nat} {rest : List Tree} :
    Record.leftover o total slots true rest = .ok () ↔ rest = [] := by
  cases o with
  | settings => exact absurd rfl ho
  | text | value | setAside =>
    cases rest with
    | nil => exact iff_of_true rfl rfl
    | cons t rest => exact iff_of_false nofun nofun

theorem decode_items_iff (ho : p.origin ≠ .settings) {ts : List Tree} :
    r.decode p (.array ts true) = .ok a ↔ Roomy p 1 ∧
      r.fromItems { p with depth := p.depth + 1 } 0 r.initial r.slots ts true = .ok (a, []) := by
  constructor
  · intro h
    obtain ⟨q, hq, h⟩ := (bind_ok_iff _ _ _).mp h
    obtain ⟨hroom, rfl⟩ := inner_roomy_iff.mp hq
    obtain ⟨⟨b, rest⟩, hread, h⟩ := (bind_ok_iff _ _ _).mp h
    obtain ⟨_, hrest, h⟩ := (bind_ok_iff _ _ _).mp h
    cases h
    rw [(leftover_ok_iff ho).mp hrest] at hread
    exact ⟨hroom, hread⟩
  · rintro ⟨hroom, hread⟩
    refine (bind_ok_iff _ _ _).mpr ⟨_, inner_roomy_iff.mpr ⟨hroom, rfl⟩, ?_⟩
    refine (bind_ok_iff _ _ _).mpr ⟨_, hread, ?_⟩
    exact (bind_ok_iff _ _ _).mpr ⟨(), (leftover_ok_iff ho).mpr rfl, rfl⟩

theorem decode_listed_iff (hf : Lawful fs) (hr : r.slots = fs.map (·.slot))
    (ho : p.origin ≠ .settings) {ts : List Tree} :
    r.decode p (.array ts true) = .ok a ↔ Roomy p 1 ∧ ts.length ≤ fs.length ∧
      List.Forall₂ (Holds { p with depth := p.depth + 1 } true r.initial a) fs
        (padded fs.length ts) := by
  rw [decode_items_iff ho, hr, fromItems_fields_iff hf (List.Sublist.refl fs)]
  refine and_congr_right fun _ => and_congr_right fun _ => and_iff_left fun f hfm hname => ?_
  exact absurd (List.mem_map_of_mem hfm) hname

end decode

end Attestation.Proofs.RecordFields
