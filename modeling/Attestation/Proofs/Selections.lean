import Attestation.Proofs.RecordFields
import Attestation.Proofs.Targets

namespace Attestation.Proofs.Selections

open CmwRoundTrip CmwGrammar Compositor Json JsonDocuments JsonGrammar JsonMeaning JsonRecords
open JsonValues RecordFields RecordMembers Targets

/-- The selection of a request. A request may also be written as an array. -/
inductive Selects : Phrase → Option Phrase → Prop
  | object {ms : List (List Piece × Phrase)} {o : Option Phrase}
      (h : Last ms "attester-selection" o) : Selects (.object ms) o
  | array (ds : List Phrase) : Selects (.array ds) ds[1]?

/-- What a selection says about an attester. -/
inductive EntryIn (name : String) : Option Phrase → Option Phrase → Prop
  | missing : EntryIn name none none
  | other {d : Phrase} (h : ∀ ms, d ≠ .object ms) : EntryIn name (some d) none
  | object {ms : List (List Piece × Phrase)} {o : Option Phrase} (h : Last ms name o) :
      EntryIn name (some (.object ms)) o

/-- What a request says about an attester. -/
def Entry (d : Phrase) (name : String) (o : Option Phrase) : Prop :=
  ∃ selection, Selects d selection ∧ EntryIn name selection o

def selectionAt (p : Place) (before : Option Value) : Option Phrase → Except Fault (Option Value)
  | none => .ok before
  | some d => Decoder.optional .value p d.tree

section decode

variable {p : Place} {c : Challenge}

theorem selection_of_members {ms : List (List Piece × Phrase)} {o : Option Phrase}
    {seen : List String} {start : Challenge} {result : List String × Challenge}
    (h : Challenge.record.fromMembers p seen start (Phrase.memberTrees ms) = .ok result)
    (hl : Last ms "attester-selection" o) :
    selectionAt p start.selection o = .ok result.2.selection := by
  induction ms generalizing seen start o with
  | nil =>
    cases h
    cases hl with
    | absent => rfl
    | there he => simp at he
  | cons m ms ih =>
    obtain ⟨key, d⟩ := m
    rw [Phrase.memberTrees] at h
    cases hkey : text key with
    | none =>
      rw [hkey] at h
      exact absurd h fromMembers_unnamed
    | some k =>
      rw [hkey] at h
      by_cases hselection : k = "attester-selection"
      · subst hselection
        obtain ⟨_, x, hx, hmore⟩ := (fromMembers_of_iff rfl).mp h
        obtain ⟨e, rfl, hlater⟩ | ⟨hlater, ⟨_, rfl⟩ | ⟨hne, _⟩⟩ := last_cons_iff.mp hl
        · have hrest := ih hmore hlater
          exact hrest
        · exact hx.trans (ih hmore hlater)
        · exact absurd hkey hne
      · have hskip : ∀ {seen' : List String} {start' : Challenge},
            Challenge.record.fromMembers p seen' start' (Phrase.memberTrees ms) = .ok result →
            start'.selection = start.selection →
            selectionAt p start.selection o = .ok result.2.selection := by
          intro seen' start' hmore hsame
          obtain ⟨e, rfl, hlater⟩ | ⟨hlater, ⟨hk, _⟩ | ⟨_, rfl⟩⟩ := last_cons_iff.mp hl
          · have hrest := ih hmore hlater
            exact hrest
          · exact absurd (Option.some.inj (hkey.symm.trans hk)) hselection
          · rw [← hsame]
            exact ih hmore hlater
        by_cases hnonce : k = "nonce"
        · subst hnonce
          obtain ⟨_, x, _, hmore⟩ := (fromMembers_of_iff rfl).mp h
          exact hskip hmore rfl
        · have hfree : Challenge.record.slots.find? (·.name = k) = none := by
            refine find?_slot_eq_none_iff.mpr ?_
            simp [Challenge.record, Slot.optional, Slot.of, hselection, hnonce]
          rw [fromMembers_free hfree (intact_tree d)] at h
          exact hskip h rfl

theorem selection_of_items {ds : List Phrase}
    (h : Challenge.record.fromItems p 0 Challenge.record.initial Challenge.record.slots
      (Phrase.trees ds) true = .ok (c, [])) :
    selectionAt p none ds[1]? = .ok c.selection := by
  match ds with
  | [] =>
    cases h
    rfl
  | [first] =>
    obtain ⟨start, hread, h⟩ := fromItems_cons_iff.mp h
    obtain ⟨_, _, rfl⟩ := (map_ok_iff _ _ _).mp hread
    cases h
    rfl
  | first :: second :: rest =>
    obtain ⟨start, _, h⟩ := fromItems_cons_iff.mp h
    obtain ⟨_, hread, h⟩ := fromItems_cons_iff.mp h
    obtain ⟨x, hx, rfl⟩ := (map_ok_iff _ _ _).mp hread
    obtain ⟨rfl, _⟩ := Prod.mk.inj (Except.ok.inj h)
    exact hx

end decode

theorem means_of_value {d : Phrase} {depth : Nat} {v : Value} (hdepth : depth ≤ maxDepth)
    (h : Decoder.value ⟨.text, depth⟩ d.tree = .ok v) : Means d v ∧ d.nesting ≤ maxDepth := by
  obtain ⟨hmeans, hroom⟩ := (value_tree_iff d fun _ => hdepth).mp h
  exact ⟨hmeans, Nat.le_trans (Nat.le_add_left _ _) (hroom rfl)⟩

theorem nesting_le_of_mem {ms : List (List Piece × Phrase)} {m : List Piece × Phrase}
    (h : m ∈ ms) : m.2.nesting ≤ Phrase.nestingMembers ms := by
  induction ms with
  | nil => cases h
  | cons m' ms ih =>
    rw [Phrase.nestingMembers]
    obtain rfl | h := List.mem_cons.mp h
    · exact Nat.le_max_left _ _
    · exact Nat.le_trans (ih h) (Nat.le_max_right _ _)

theorem mem_of_last {ms : List (List Piece × Phrase)} {name : String} {d : Phrase}
    (h : Last ms name (some d)) : ∃ m ∈ ms, m.2 = d := by
  cases h with
  | there he =>
    rw [he]
    exact ⟨_, List.mem_append_right _ List.mem_cons_self, rfl⟩

theorem exists_entryIn (name : String) (selection : Option Phrase) :
    ∃ o, EntryIn name selection o := by
  match selection with
  | none => exact ⟨none, .missing⟩
  | some (.object ms) =>
    obtain ⟨o, hl⟩ := exists_last ms name
    exact ⟨o, .object hl⟩
  | some .null | some (.bool _) | some (.number _) | some (.string _) | some (.array _) =>
    exact ⟨none, .other nofun⟩

section body

variable {d : Phrase} {body : List UInt8} {c : Challenge}

theorem selects_of_body (hd : Spells d body)
    (hc : Decoder.run Challenge.record.decode body = .ok c) :
    (∃ o, Selects d o) ∧ ∀ o, Selects d o → selectionAt ⟨.text, 1⟩ none o = .ok c.selection := by
  rw [run_spelled _ hd] at hc
  cases d with
  | object ms =>
    obtain ⟨o, hl⟩ := exists_last ms "attester-selection"
    refine ⟨⟨o, .object hl⟩, fun o ho => ?_⟩
    cases ho with
    | object hl =>
      obtain ⟨-, seen, hread, _⟩ := decode_members_iff.mp hc
      exact selection_of_members hread hl
  | array ds =>
    refine ⟨⟨_, .array ds⟩, fun o ho => ?_⟩
    cases ho with
    | array => exact selection_of_items ((decode_items_iff (by decide)).mp hc).2
  | null | bool _ | number _ | string _ => exact absurd hc (decode_leaf nofun nofun)

theorem exists_entry (hd : Spells d body) (hc : Decoder.run Challenge.record.decode body = .ok c)
    (name : String) : ∃ o, Entry d name o := by
  obtain ⟨selection, hs⟩ := (selects_of_body hd hc).1
  obtain ⟨o, ho⟩ := exists_entryIn name selection
  exact ⟨o, selection, hs, ho⟩

theorem entry_means (hd : Spells d body) (hc : Decoder.run Challenge.record.decode body = .ok c)
    {name : String} {o : Option Phrase} (h : Entry d name o) :
    Option.Rel Means o (Value.get? (entries c.selection) name) ∧
      ∀ e, o = some e → e.nesting ≤ maxDepth := by
  obtain ⟨selection, hs, he⟩ := h
  have hread := (selects_of_body hd hc).2 selection hs
  cases he with
  | missing =>
    rw [← Except.ok.inj hread]
    exact ⟨.none, nofun⟩
  | other hnot =>
    refine ⟨?_, nofun⟩
    rw [selectionAt] at hread
    obtain ⟨_, hnone⟩ | ⟨_, v, hsome, hv⟩ := optional_tree_iff.mp hread
    · rw [hnone]
      exact .none
    · obtain ⟨hmeans, _⟩ := means_of_value (by decide) hv
      rw [hsome]
      cases hmeans with
      | object => exact absurd rfl (hnot _)
      | null | bool _ | number _ | string _ | array _ => exact .none
  | object hl =>
    rw [selectionAt] at hread
    obtain ⟨hnull, _⟩ | ⟨_, v, hsome, hv⟩ := optional_tree_iff.mp hread
    · cases hnull
    · obtain ⟨hmeans, hn⟩ := means_of_value (by decide) hv
      rw [hsome]
      cases hmeans with
      | @object _ _ members hms hlast =>
        refine ⟨?_, ?_⟩
        · change Option.Rel Means o (Value.get? members name)
          rw [get?_lastOf hlast]
          exact get?_last hms hl
        · rintro e rfl
          obtain ⟨m, hm, rfl⟩ := mem_of_last hl
          have hle := nesting_le_of_mem hm
          rw [Phrase.nesting] at hn
          omega

end body

end Attestation.Proofs.Selections
