import Attestation.Compositor
import Attestation.Proofs.RecordParts
import Mathlib.Logic.Relation

namespace Attestation.Proofs.MemberOrder

open CmwGrammar Compositor Json JsonDocuments JsonGrammar JsonMeaning JsonValues RecordFields
  RecordMembers RecordParts

variable {α : Type} {d d' : Phrase}

/-- One object, at some depth, has its members in another order. No two of them have one name. -/
inductive Reorders : Phrase → Phrase → Prop
  | members {ms ms' : List (List Piece × Phrase)} (h : ms.Perm ms')
      (hn : (ms.map fun m => text m.1).Nodup) : Reorders (.object ms) (.object ms')
  | item {before after : List Phrase} {d d' : Phrase} (h : Reorders d d') :
      Reorders (.array (before ++ d :: after)) (.array (before ++ d' :: after))
  | member {before after : List (List Piece × Phrase)} {key : List Piece} {d d' : Phrase}
      (h : Reorders d d') :
      Reorders (.object (before ++ (key, d) :: after)) (.object (before ++ (key, d') :: after))

/-- Any number of objects have their members in another order. -/
abbrev Reordered : Phrase → Phrase → Prop := Relation.ReflTransGen Reorders

theorem reorders_symm (h : Reorders d d') : Reorders d' d := by
  induction h with
  | members h hn => exact .members h.symm ((h.map _).nodup_iff.mp hn)
  | item _ ih => exact .item ih
  | member _ ih => exact .member ih

theorem nesting_reorders (h : Reorders d d') : d.nesting = d'.nesting := by
  induction h with
  | members h _ => rw [Phrase.nesting, Phrase.nesting, Phrase.nestingMembers_perm h]
  | item _ ih => rw [Phrase.nesting, Phrase.nesting, Phrase.nestingItems_congr ih]
  | member _ ih => rw [Phrase.nesting, Phrase.nesting, Phrase.nestingMembers_congr ih]

section values

variable {β : Type} {ms ms' : List (List Piece × Phrase)} {pairs pairs' : List (String × Value)}

theorem last_iff_mem {pairs : List (String × β)} (hn : (pairs.map (·.1)).Nodup) {k : String}
    {v : β} :
    (∃ before after, pairs = before ++ (k, v) :: after ∧ ∀ m ∈ after, m.1 ≠ k) ↔
      (k, v) ∈ pairs := by
  rw [← find?_reverse_eq_some_iff, ← find?_perm (List.reverse_perm pairs).symm hn,
    find?_eq_some_iff_mem hn]

theorem lastOf_perm {pairs pairs' members : List (String × β)} (h : pairs.Perm pairs')
    (hn : (pairs.map (·.1)).Nodup) (hl : LastOf pairs members) : LastOf pairs' members := by
  have hn' : (pairs'.map (·.1)).Nodup := (h.map _).nodup_iff.mp hn
  refine ⟨hl.ascending, fun k v => ?_⟩
  rw [hl.last, last_iff_mem hn, last_iff_mem hn', h.mem_iff]

theorem keys_of_meansMembers (h : MeansMembers ms pairs) :
    (ms.map fun m => text m.1) = (pairs.map (·.1)).map some := by
  induction ms generalizing pairs with
  | nil =>
    cases h
    rfl
  | cons m ms ih =>
    cases h with
    | cons hk _ hs => rw [List.map_cons, ih hs, hk, List.map_cons, List.map_cons]

theorem meansMembers_perm (h : ms.Perm ms') (hm : MeansMembers ms pairs) :
    ∃ pairs', pairs.Perm pairs' ∧ MeansMembers ms' pairs' := by
  induction h generalizing pairs with
  | nil => exact ⟨pairs, .refl _, hm⟩
  | cons m _ ih =>
    cases hm with
    | cons hk hv hs =>
      obtain ⟨rest, hperm, hrest⟩ := ih hs
      exact ⟨_, hperm.cons _, .cons hk hv hrest⟩
  | swap m m' ms =>
    cases hm with
    | cons hk hv hs =>
      cases hs with
      | cons hk' hv' hs => exact ⟨_, .swap .., .cons hk' hv' (.cons hk hv hs)⟩
  | trans _ _ ih ih' =>
    obtain ⟨between, hperm, hbetween⟩ := ih hm
    obtain ⟨pairs', hperm', hm'⟩ := ih' hbetween
    exact ⟨pairs', hperm.trans hperm', hm'⟩

theorem meansItems_congr {before after : List Phrase} {vs : List Value}
    (h : ∀ v, Means d v → Means d' v) (hvs : MeansItems (before ++ d :: after) vs) :
    MeansItems (before ++ d' :: after) vs := by
  induction before generalizing vs with
  | nil =>
    cases hvs with
    | cons hv hs => exact .cons (h _ hv) hs
  | cons _ before ih =>
    cases hvs with
    | cons hv hs => exact .cons hv (ih hs)

theorem meansMembers_congr {before after : List (List Piece × Phrase)} {key : List Piece}
    (h : ∀ v, Means d v → Means d' v) (hm : MeansMembers (before ++ (key, d) :: after) pairs) :
    MeansMembers (before ++ (key, d') :: after) pairs := by
  induction before generalizing pairs with
  | nil =>
    cases hm with
    | cons hk hv hs => exact .cons hk (h _ hv) hs
  | cons _ before ih =>
    cases hm with
    | cons hk hv hs => exact .cons hk hv (ih hs)

theorem means_reorders (h : Reorders d d') {v : Value} (hv : Means d v) : Means d' v := by
  induction h generalizing v with
  | members h hn =>
    cases hv with
    | object hm hl =>
      obtain ⟨pairs', hperm, hm'⟩ := meansMembers_perm h hm
      rw [keys_of_meansMembers hm] at hn
      exact .object hm' (lastOf_perm hperm hn.of_map hl)
  | item _ ih =>
    cases hv with
    | array hvs => exact .array (meansItems_congr (fun _ => ih) hvs)
  | member _ ih =>
    cases hv with
    | object hm hl => exact .object (meansMembers_congr (fun _ => ih) hm) hl

end values

section decoders

/-- Takes no notice of the order of members. -/
def Indifferent (dec : Decoder α) : Prop :=
  ∀ {d d' : Phrase}, Reorders d d' → ∀ {p : Place} {a : α}, p.origin ≠ .settings → Roomy p 0 →
    dec p d.tree = .ok a → dec p d'.tree = .ok a

theorem indifferent_string : Indifferent .string := by
  intro d d' h p a _ _ ha
  obtain ⟨ps, rfl, -⟩ := (string_tree_iff p d a).mp ha
  cases h

theorem indifferent_value : Indifferent .value := by
  intro d d' h p v _ hp hv
  obtain ⟨hmeans, hn⟩ := (value_tree_iff d hp).mp hv
  exact (value_tree_iff d' hp).mpr ⟨means_reorders h hmeans, nesting_reorders h ▸ hn⟩

theorem indifferent_optional {dec : Decoder α} (hdec : Indifferent dec) :
    Indifferent (.optional dec) := by
  intro d d' h p o ho hp hread
  have hd' : d' ≠ .null := by
    rintro rfl
    cases h
  obtain ⟨rfl, -⟩ | ⟨-, b, rfl, hb⟩ := optional_tree_iff.mp hread
  · cases h
  · exact optional_tree_iff.mpr (.inr ⟨hd', b, rfl, hdec h ho hp hb⟩)

variable {r : Record α} {fs : List (RecordField α)} {a : α}
  {before after : List (List Piece × Phrase)} {key : List Piece}

theorem named_congr :
    Named (before ++ (key, d) :: after) ↔ Named (before ++ (key, d') :: after) := by
  simp only [Named, List.forall_mem_append, List.forall_mem_cons]

theorem known_congr (names : List String) (before after : List (List Piece × Phrase))
    (key : List Piece) (d d' : Phrase) :
    known names (before ++ (key, d) :: after) = known names (before ++ (key, d') :: after) ∨
      ∃ k, known names (before ++ (key, d) :: after) =
          known names before ++ (k, d) :: known names after ∧
        known names (before ++ (key, d') :: after) =
          known names before ++ (k, d') :: known names after := by
  unfold known
  rw [List.filterMap_append, List.filterMap_append, List.filterMap_cons, List.filterMap_cons]
  unfold known?
  cases (text key).filter (· ∈ names) with
  | none => exact .inl rfl
  | some k => exact .inr ⟨k, rfl, rfl⟩

theorem keys_known_congr (names : List String) :
    (known names (before ++ (key, d) :: after)).map (·.1) =
      (known names (before ++ (key, d') :: after)).map (·.1) := by
  obtain heq | ⟨k, hd, hd'⟩ := known_congr names before after key d d'
  · rw [heq]
  · simp only [hd, hd', List.map_append, List.map_cons]

theorem find?_known_congr (names : List String) (name : String) :
    Table.find? (known names (before ++ (key, d) :: after)) name =
        Table.find? (known names (before ++ (key, d') :: after)) name ∨
      Table.find? (known names (before ++ (key, d) :: after)) name = some d ∧
        Table.find? (known names (before ++ (key, d') :: after)) name = some d' := by
  obtain heq | ⟨k, hd, hd'⟩ := known_congr names before after key d d'
  · exact .inl (congrArg (Table.find? · name) heq)
  · rw [hd, hd']
    generalize known names before = front
    induction front with
    | nil =>
      rw [List.nil_append, List.nil_append, Tables.find?_cons, Tables.find?_cons]
      split
      · exact .inr ⟨rfl, rfl⟩
      · exact .inl rfl
    | cons m front ih =>
      rw [List.cons_append, List.cons_append, Tables.find?_cons, Tables.find?_cons]
      split
      · exact .inl rfl
      · exact ih

theorem forall₂_padded_congr {P : RecordField α → Option Tree → Prop} {front back : List Tree}
    {t t' : Tree} (h : ∀ f ∈ fs, P f (some t) → P f (some t')) {n : Nat}
    (hall : List.Forall₂ P fs (padded n (front ++ t :: back))) :
    List.Forall₂ P fs (padded n (front ++ t' :: back)) := by
  induction front generalizing fs n with
  | nil =>
    cases n with
    | zero => exact hall
    | succ n =>
      cases hall with
      | cons hf hrest => exact .cons (h _ List.mem_cons_self hf) hrest
  | cons _ front ih =>
    cases n with
    | zero => exact hall
    | succ n =>
      cases hall with
      | cons hf hrest =>
        exact .cons hf (ih (fun f hfm => h f (List.mem_cons_of_mem _ hfm)) hrest)

/-- A record takes no notice of the order of members if its fields do not. -/
theorem indifferent_record (hf : Lawful fs) (hr : r.slots = fs.map (·.slot))
    (hall : ∀ f ∈ fs, Indifferent f.decode) : Indifferent r.decode := by
  intro d d' h p a ho hp hread
  have hgiven : ∀ {d d' : Phrase} {listed : Bool}, Reorders d d' → Roomy p 1 → ∀ f ∈ fs,
      Holds { p with depth := p.depth + 1 } listed r.initial a f (some d.tree) →
        Holds { p with depth := p.depth + 1 } listed r.initial a f (some d'.tree) := by
    rintro d d' listed h hroom f hfm ⟨hd⟩
    exact .given (hall f hfm h ho (roomy_inner_iff.mpr hroom) hd)
  cases h with
  | @members ms ms' h _ =>
    obtain ⟨hroom, hnamed, hnodup, hholds⟩ := (decode_object_parts_iff hf hr).mp hread
    have hknown : (known (names fs) ms).Perm (known (names fs) ms') := h.filterMap _
    refine (decode_object_parts_iff hf hr).mpr ⟨hroom, fun m hm => hnamed m (h.mem_iff.mpr hm),
      (hknown.map _).nodup_iff.mp hnodup, fun f hfm => ?_⟩
    rw [← find?_perm hknown hnodup]
    exact hholds f hfm
  | @member before after key d d' h =>
    obtain ⟨hroom, hnamed, hnodup, hholds⟩ := (decode_object_parts_iff hf hr).mp hread
    refine (decode_object_parts_iff hf hr).mpr ⟨hroom, named_congr.mp hnamed,
      keys_known_congr (names fs) ▸ hnodup, fun f hfm => ?_⟩
    have hfield := hholds f hfm
    obtain heq | ⟨hd, hd'⟩ := find?_known_congr (names fs) f.name
    · rwa [← heq]
    · rw [hd] at hfield
      rw [hd']
      exact hgiven h hroom f hfm hfield
  | @item before after d d' h =>
    rw [Phrase.tree, trees_eq_map, List.map_append, List.map_cons] at hread ⊢
    rw [decode_listed_iff hf hr ho] at hread ⊢
    obtain ⟨hroom, hlen, hholds⟩ := hread
    rw [List.length_append, List.length_cons] at hlen ⊢
    exact ⟨hroom, hlen, forall₂_padded_congr (hgiven h hroom) hholds⟩

theorem run_reordered {dec : Decoder α} (hdec : Indifferent dec) (h : Reordered d d')
    {data data' : List UInt8} (hd : Spells d data) (hd' : Spells d' data') :
    Decoder.run dec data = .ok a ↔ Decoder.run dec data' = .ok a := by
  have hroom : Roomy ⟨.text, 0⟩ 0 := fun _ => by decide
  rw [run_spelled dec hd, run_spelled dec hd']
  clear hd hd'
  induction h with
  | refl => rfl
  | tail _ h ih =>
    exact ih.trans ⟨hdec h (by decide) hroom, hdec (reorders_symm h) (by decide) hroom⟩

end decoders

section requests

def challengeFields : List (RecordField Challenge) := [
  ⟨"nonce", .optional, .string, fun x c => { c with nonce := x }, (·.nonce), fun _ _ => rfl⟩,
  ⟨"attester-selection", .optional, .optional .value, fun x c => { c with selection := x },
    (·.selection), fun _ _ => rfl⟩]

theorem lawful_challenge : Lawful challengeFields where
  nodup := by decide
  apart := by simp [challengeFields]
  whole a a' h := by
    simp [challengeFields] at h
    obtain ⟨hnonce, hselection⟩ := h
    cases a
    cases a'
    simp_all

theorem indifferent_challenge : Indifferent Challenge.record.decode := by
  refine indifferent_record lawful_challenge rfl ?_
  intro f hf
  obtain rfl | hf := List.mem_cons.mp hf
  · exact indifferent_string
  · cases List.mem_singleton.mp hf
    exact indifferent_optional indifferent_value

theorem ofBody_reordered (h : Reordered d d') {body body' : List UInt8} (hd : Spells d body)
    (hd' : Spells d' body') : Challenge.ofBody body = Challenge.ofBody body' := by
  have hrun : ∀ c, Decoder.run Challenge.record.decode body = .ok c ↔
      Decoder.run Challenge.record.decode body' = .ok c :=
    fun c => run_reordered indifferent_challenge h hd hd'
  unfold Challenge.ofBody
  cases hread : Decoder.run Challenge.record.decode body with
  | ok c => rw [(hrun c).mp hread]
  | error e =>
    cases hread' : Decoder.run Challenge.record.decode body' with
    | ok c => cases hread.symm.trans ((hrun c).mpr hread')
    | error e' => rfl

end requests

end Attestation.Proofs.MemberOrder
