import Attestation.Proofs.CmwRoundTrip
import Attestation.Proofs.Merging

namespace Attestation.Proofs.Labels

open Cmw CmwText CmwRoundTrip Merging

inductive Call where
  | add (label : String) (item : Cmw)
  | get (label : String)

inductive Reply where
  | added
  | refused (e : Token.Error)
  | found (item : Option Cmw)

def perform : Call → StateM Collection Reply
  | .add label item => do
    match ← (Collection.append label item).run with
    | .ok () => return .added
    | .error e => return .refused e
  | .get label => return .found ((← get).get? label)

structure Event where
  call : Call
  reply : Reply
  state : Collection

def run (c : Collection) : List Call → List Event
  | [] => []
  | call :: calls =>
    let x := (perform call).run c
    ⟨call, x.1, x.2⟩ :: run x.2 calls

/-- What a call has added, if it was an addition with success. -/
def addition : Call → Reply → List (String × Cmw)
  | .add label item, .added => [(label, item)]
  | _, _ => []

/-- The labels and items that were added, in order. -/
def added (log : List Event) : List (String × Cmw) := log.flatMap fun e => addition e.call e.reply

/-- The reply that a call gets behind such additions. -/
inductive Answers (items : List (String × Cmw)) : Call → Reply → Prop
  | added {label : String} {item : Cmw} (hl : label ≠ "" ∧ label ≠ kindLabel)
      (hnew : label ∉ items.map (·.1)) : Answers items (.add label item) .added
  | reserved {label : String} {item : Cmw} (hl : label = "" ∨ label = kindLabel) :
      Answers items (.add label item)
        (.refused (.invalidCmw ("reserved or empty label " ++ Text.quoted label)))
  | duplicate {label : String} {item : Cmw} (hl : label ≠ "" ∧ label ≠ kindLabel)
      (hold : label ∈ items.map (·.1)) :
      Answers items (.add label item) (.refused (.duplicateLabel label))
  | found {label : String} {item : Cmw} (h : (label, item) ∈ items) :
      Answers items (.get label) (.found (some item))
  | missing {label : String} (h : label ∉ items.map (·.1)) :
      Answers items (.get label) (.found none)

/-- A collection of a kind that holds such items and nothing else, each under its own label. -/
structure Holds (kind : String) (items : List (String × Cmw)) (c : Collection) : Prop where
  content : c = ⟨kind, items⟩
  labels : c.labels = items.map (·.1)
  unique : c.labels.Nodup
  admitted : ∀ l ∈ c.labels, l ≠ "" ∧ l ≠ kindLabel
  size : c.size = items.length
  found : ∀ label item, c.get? label = some item ↔ (label, item) ∈ items
  missing : ∀ label, c.get? label = none ↔ label ∉ items.map (·.1)

section steps

variable {kind : String} {items : List (String × Cmw)}

theorem get?_eq_some_iff {c : Collection} (hl : c.labels.Nodup) (label : String) (item : Cmw) :
    c.get? label = some item ↔ (label, item) ∈ c.items := by
  constructor
  · intro h
    obtain ⟨m, hm, rfl⟩ := Option.map_eq_some_iff.mp h
    have hlabel : m.1 = label := by simpa using List.find?_some hm
    rw [← hlabel]
    exact List.mem_of_find?_eq_some hm
  · intro h
    exact get?_of_mem hl h

theorem holds_of_labelled (hl : Labelled (items.map (·.1))) : Holds kind items ⟨kind, items⟩ where
  content := rfl
  labels := rfl
  unique := hl.1
  admitted := hl.2
  size := rfl
  found := get?_eq_some_iff (c := ⟨kind, items⟩) hl.1
  missing := get?_eq_none_iff ⟨kind, items⟩

theorem perform_add (c : Collection) (label : String) (item : Cmw) :
    (perform (.add label item)).run c =
      match (Collection.append label item).run c with
      | (.ok (), after) => (.added, after)
      | (.error e, after) => (.refused e, after) := by
  cases h : (Collection.append label item).run c with
  | mk outcome after =>
    have hrun : StateT.run (ExceptT.run (Collection.append label item)) c = (outcome, after) := h
    cases outcome with
    | error e =>
      simp only [perform, StateT.run_bind, hrun]
      rfl
    | ok _ =>
      simp only [perform, StateT.run_bind, hrun]
      rfl

theorem perform_get (c : Collection) (label : String) :
    (perform (.get label)).run c = (.found (c.get? label), c) := rfl

theorem perform_answers (hl : Labelled (items.map (·.1))) (call : Call) :
    ∃ reply, Answers items call reply ∧
      (perform call).run ⟨kind, items⟩ = (reply, ⟨kind, items ++ addition call reply⟩) := by
  have hholds : Holds kind items ⟨kind, items⟩ := holds_of_labelled hl
  cases call with
  | get label =>
    rw [perform_get]
    simp only [addition, List.append_nil]
    cases hget : Collection.get? ⟨kind, items⟩ label with
    | none => exact ⟨_, .missing ((hholds.missing label).mp hget), rfl⟩
    | some item => exact ⟨_, .found ((hholds.found label item).mp hget), rfl⟩
  | add label item =>
    rw [perform_add, append_run]
    by_cases hreserved : label = "" ∨ label = kindLabel
    · rw [if_pos hreserved]
      exact ⟨_, .reserved hreserved, by simp [addition]⟩
    · have hfree := not_or.mp hreserved
      rw [if_neg hreserved]
      by_cases hold : label ∈ items.map (·.1)
      · have hsome : (Collection.get? ⟨kind, items⟩ label).isSome = true := by
          rw [Option.isSome_iff_ne_none, ne_eq, hholds.missing, not_not]
          exact hold
        rw [if_pos hsome]
        exact ⟨_, .duplicate hfree hold, by simp [addition]⟩
      · have hnone : ¬ (Collection.get? ⟨kind, items⟩ label).isSome = true := by
          rw [Option.isSome_iff_ne_none, ne_eq, hholds.missing, not_not]
          exact hold
        rw [if_neg hnone]
        exact ⟨_, .added hfree hold, rfl⟩

theorem labelled_addition (hl : Labelled (items.map (·.1))) {call : Call} {reply : Reply}
    (h : Answers items call reply) : Labelled ((items ++ addition call reply).map (·.1)) := by
  cases h with
  | added hfree hnew =>
    rw [addition, List.map_append]
    exact (labelled_concat hl).mpr ⟨hfree, hnew⟩
  | reserved | duplicate | found | missing => simpa [addition] using hl

end steps

section runs

theorem added_cons (e : Event) (log : List Event) :
    added (e :: log) = addition e.call e.reply ++ added log := List.flatMap_cons

theorem calls_run (c : Collection) (calls : List Call) :
    (run c calls).map Event.call = calls := by
  induction calls generalizing c with
  | nil => rfl
  | cons call calls ih => rw [run, List.map_cons, ih]

/-- Every call is answered from what was there and what has been added since. -/
theorem run_answers {kind : String} {items : List (String × Cmw)}
    (hl : Labelled (items.map (·.1))) (calls : List Call) {before after : List Event} {e : Event}
    (h : run ⟨kind, items⟩ calls = before ++ e :: after) :
    Answers (items ++ added before) e.call e.reply ∧
      Holds kind (items ++ added (before ++ [e])) e.state := by
  induction calls generalizing items before with
  | nil => simp [run] at h
  | cons call calls ih =>
    obtain ⟨reply, hanswers, hperform⟩ :
        ∃ reply, Answers items call reply ∧ (perform call).run ⟨kind, items⟩ = _ :=
      perform_answers hl call
    have hlabelled := labelled_addition hl hanswers
    rw [run, hperform] at h
    cases before with
    | nil =>
      obtain ⟨rfl, -⟩ := List.cons.inj h
      rw [List.nil_append, added_cons]
      simpa [added] using ⟨hanswers, holds_of_labelled hlabelled⟩
    | cons first before =>
      obtain ⟨rfl, hrest⟩ := List.cons.inj h
      have hnext := ih hlabelled hrest
      rw [List.cons_append, added_cons, added_cons, ← List.append_assoc, ← List.append_assoc]
      exact hnext

theorem run_fresh {kind : String} {calls : List Call} {before after : List Event} {e : Event}
    (h : run (.empty kind) calls = before ++ e :: after) :
    Answers (added before) e.call e.reply ∧ Holds kind (added (before ++ [e])) e.state :=
  @run_answers kind [] labelled_nil calls before after e h

theorem run_keeps {kind : String} {calls : List Call} {before after : List Event} {e later : Event}
    (h : run (.empty kind) calls = before ++ e :: after) (hm : later ∈ after) {label : String}
    {item : Cmw} (hget : e.state.get? label = some item) :
    later.state.get? label = some item := by
  obtain ⟨mid, rest, rfl⟩ := List.append_of_mem hm
  have hlater : run (.empty kind) calls = (before ++ e :: mid) ++ later :: rest := by
    rw [h, List.append_assoc, List.cons_append]
  have hadded := ((run_fresh h).2.found label item).mp hget
  apply ((run_fresh hlater).2.found label item).mpr
  -- The log has only become longer, and so have the additions in it.
  have hlog : before ++ e :: mid ++ [later] = (before ++ [e]) ++ (mid ++ [later]) := by simp
  rw [hlog, added, List.flatMap_append]
  exact List.mem_append_left _ hadded

end runs

/-- The collection itself and the collections in it, however deep. -/
inductive Inside : Collection → Collection → Prop
  | self (c : Collection) : Inside c c
  | item {c inner deeper : Collection} {label : String} (hm : (label, inner.toCmw) ∈ c.items)
      (h : Inside deeper inner) : Inside deeper c

theorem wellFormed_inside {c inner : Collection} (h : Inside inner c) (hc : WellFormed c.toCmw) :
    WellFormed inner.toCmw := by
  induction h with
  | self => exact hc
  | item hm _ ih =>
    apply ih
    exact wellFormedItems_iff.mp hc.2 _ hm

/-- An item is added under a label iff the label is neither empty nor reserved nor taken; it stays
under its label whatever else is called, and a refused call changes nothing. No collection that is
read breaks these rules, nor does one inside it. -/
theorem labels_kept :
    (∀ kind calls, (run (.empty kind) calls).map Event.call = calls ∧
      ∀ before e after, run (.empty kind) calls = before ++ e :: after →
        Answers (added before) e.call e.reply ∧ Holds kind (added (before ++ [e])) e.state ∧
        ∀ label item, e.state.get? label = some item →
          ∀ later ∈ after, later.state.get? label = some item) ∧
    ∀ data c, Collection.ofJson data = .ok c →
      ∀ inner, Inside inner c → Holds inner.kind inner.items inner := by
  constructor
  · intro kind calls
    refine ⟨calls_run _ calls, ?_⟩
    intro before e after h
    obtain ⟨hanswers, hholds⟩ := run_fresh h
    refine ⟨hanswers, hholds, ?_⟩
    intro label item hget later hm
    exact run_keeps h hm hget
  · intro data c hread inner hinside
    have hinner := wellFormed_inside hinside (sound_ofJson hread).wellFormed
    exact holds_of_labelled hinner.1

/-- A second item under a label is refused, and the first one stays. -/
theorem labels_kept_taken :
    ∃ before e after, run (.empty "kind") [.add "label" (.record ⟨"text/plain", [1], none⟩),
        .add "label" (.record ⟨"text/plain", [2], none⟩), .get "label"] = before ++ e :: after ∧
      e.reply = .added ∧ ∀ later ∈ after,
        later.state.get? "label" = some (.record ⟨"text/plain", [1], none⟩) := by
  refine ⟨[], _, _, rfl, rfl, ?_⟩
  have hkept := (labels_kept.1 "kind" [.add "label" (.record ⟨"text/plain", [1], none⟩),
    .add "label" (.record ⟨"text/plain", [2], none⟩), .get "label"]).2 [] _ _ rfl
  exact hkept.2.2 "label" _ rfl

end Attestation.Proofs.Labels
