import Attestation.Dialogue

namespace Attestation.Proofs.Worlds

variable {Q : Type} {R : Q → Type} {ε α β : Type}

/-- A question and the answer to it. -/
structure Event (R : Q → Type) where
  question : Q
  reply : R question

/-- The events of a run and its result, whatever the answers are. -/
inductive Runs : Dialogue R α → List (Event R) → α → Prop
  | done (a : α) : Runs (.done a) [] a
  | ask {q : Q} {next : R q → Dialogue R α} {r : R q} {log : List (Event R)} {a : α}
      (h : Runs (next r) log a) : Runs (.ask q next) (⟨q, r⟩ :: log) a

theorem runs_done_iff {a b : α} {log : List (Event R)} :
    Runs (.done a) log b ↔ log = [] ∧ a = b := by
  constructor
  · rintro ⟨⟩
    exact ⟨rfl, rfl⟩
  · rintro ⟨rfl, rfl⟩
    exact .done a

theorem runs_ask_iff {q : Q} {next : R q → Dialogue R α} {log : List (Event R)} {a : α} :
    Runs (.ask q next) log a ↔ ∃ r rest, log = ⟨q, r⟩ :: rest ∧ Runs (next r) rest a := by
  constructor
  · intro h
    cases h with
    | ask h => exact ⟨_, _, rfl, h⟩
  · rintro ⟨r, rest, rfl, h⟩
    exact .ask h

theorem runs_bind_iff {x : Dialogue R α} {f : α → Dialogue R β} {log : List (Event R)} {b : β} :
    Runs (x >>= f) log b ↔
      ∃ a log₁ log₂, log = log₁ ++ log₂ ∧ Runs x log₁ a ∧ Runs (f a) log₂ b := by
  induction x generalizing log with
  | done a =>
    constructor
    · exact fun h => ⟨a, [], log, rfl, .done a, h⟩
    · rintro ⟨a', log₁, log₂, rfl, hx, hf⟩
      obtain ⟨rfl, rfl⟩ := runs_done_iff.mp hx
      exact hf
  | ask q next ih =>
    rw [Dialogue.ask_bind, runs_ask_iff]
    constructor
    · rintro ⟨r, rest, rfl, h⟩
      obtain ⟨a, log₁, log₂, rfl, hx, hf⟩ := (ih r).mp h
      exact ⟨a, ⟨q, r⟩ :: log₁, log₂, rfl, .ask hx, hf⟩
    · rintro ⟨a, log₁, log₂, rfl, hx, hf⟩
      obtain ⟨r, rest, rfl, hnext⟩ := runs_ask_iff.mp hx
      exact ⟨r, rest ++ log₂, rfl, (ih r).mpr ⟨a, rest, log₂, rfl, hnext, hf⟩⟩

theorem runs_part_bind_iff {x : ExceptT ε (Dialogue R) α} {f : α → ExceptT ε (Dialogue R) β}
    {log : List (Event R)} {result : Except ε β} :
    Runs (x >>= f).run log result ↔
      (∃ e, result = .error e ∧ Runs x.run log (.error e)) ∨
        ∃ a log₁ log₂, log = log₁ ++ log₂ ∧ Runs x.run log₁ (.ok a) ∧
          Runs (f a).run log₂ result := by
  constructor
  · intro h
    obtain ⟨r, log₁, log₂, rfl, hx, hf⟩ := runs_bind_iff.mp h
    cases r with
    | error e =>
      obtain ⟨rfl, rfl⟩ := runs_done_iff.mp hf
      rw [List.append_nil]
      exact Or.inl ⟨e, rfl, hx⟩
    | ok a => exact Or.inr ⟨a, log₁, log₂, rfl, hx, hf⟩
  · rintro (⟨e, rfl, hx⟩ | ⟨a, log₁, log₂, rfl, hx, hf⟩)
    · exact runs_bind_iff.mpr ⟨.error e, log, [], (List.append_nil _).symm, hx, .done _⟩
    · exact runs_bind_iff.mpr ⟨.ok a, log₁, log₂, rfl, hx, hf⟩

/-- The answers to all questions. -/
abbrev World (R : Q → Type) := (q : Q) → R q

def Agrees (w : World R) (log : List (Event R)) : Prop := ∀ e ∈ log, e.reply = w e.question

theorem agrees_nil (w : World R) : Agrees w [] := nofun

theorem agrees_cons {w : World R} {e : Event R} {log : List (Event R)} :
    Agrees w (e :: log) ↔ e.reply = w e.question ∧ Agrees w log := List.forall_mem_cons

theorem agrees_append {w : World R} {log₁ log₂ : List (Event R)} :
    Agrees w (log₁ ++ log₂) ↔ Agrees w log₁ ∧ Agrees w log₂ := List.forall_mem_append

/-- No question is answered in two ways. -/
def Consistent (log : List (Event R)) : Prop :=
  ∀ e ∈ log, ∀ e' ∈ log, e.question = e'.question → e = e'

theorem consistent_append {log₁ log₂ : List (Event R)} (h₁ : Consistent log₁)
    (h₂ : Consistent log₂)
    (h : ∀ e ∈ log₁, ∀ e' ∈ log₂, e.question = e'.question → e = e') :
    Consistent (log₁ ++ log₂) := by
  intro e he e' he' heq
  obtain he | he := List.mem_append.mp he <;> obtain he' | he' := List.mem_append.mp he'
  · exact h₁ e he e' he' heq
  · exact h e he e' he' heq
  · exact (h e' he' e he heq.symm).symm
  · exact h₂ e he e' he' heq

theorem consistent_cons {e : Event R} {log : List (Event R)} (h : Consistent log)
    (hnew : ∀ e' ∈ log, e'.question ≠ e.question) : Consistent (e :: log) := by
  intro e₁ h₁ e₂ h₂ heq
  obtain he₁ | hm₁ := List.mem_cons.mp h₁ <;> obtain he₂ | hm₂ := List.mem_cons.mp h₂
  · exact he₁.trans he₂.symm
  · exact absurd (heq.symm.trans (congrArg Event.question he₁)) (hnew e₂ hm₂)
  · exact absurd (heq.trans (congrArg Event.question he₂)) (hnew e₁ hm₁)
  · exact h e₁ hm₁ e₂ hm₂ heq

/-- Events that answer no question in two ways come from a world. -/
theorem exists_agrees [∀ q, Nonempty (R q)] {log : List (Event R)} (h : Consistent log) :
    ∃ w, Agrees w log := by
  have hreply : ∀ q, ∃ r : R q, ∀ e ∈ log, e.question = q → e = ⟨q, r⟩ := by
    intro q
    by_cases hq : ∃ e ∈ log, e.question = q
    · obtain ⟨e, he, rfl⟩ := hq
      exact ⟨e.reply, fun e' he' heq => h e' he' e he heq⟩
    · exact ⟨Classical.choice inferInstance, fun e he heq => absurd ⟨e, he, heq⟩ hq⟩
  obtain ⟨w, hw⟩ := Classical.axiomOfChoice hreply
  refine ⟨w, fun e he => ?_⟩
  obtain ⟨q, r⟩ := e
  have heq : (⟨q, r⟩ : Event R) = ⟨q, w q⟩ := hw q ⟨q, r⟩ he rfl
  injection heq

/-- The result that a dialogue has in a world, and its events. -/
def play (w : World R) : Dialogue R α → α × List (Event R)
  | .done a => (a, [])
  | .ask q next => ((play w (next (w q))).1, ⟨q, w q⟩ :: (play w (next (w q))).2)

theorem run_eq_play (w : World R) (x : Dialogue R α) : x.run (m := Id) w = (play w x).1 := by
  induction x with
  | done a => rfl
  | ask q next ih => exact ih (w q)

theorem play_runs (w : World R) (x : Dialogue R α) : Runs x (play w x).2 (play w x).1 := by
  induction x with
  | done a => exact .done a
  | ask q next ih => exact .ask (ih (w q))

theorem play_agrees (w : World R) (x : Dialogue R α) : Agrees w (play w x).2 := by
  induction x with
  | done a => exact agrees_nil w
  | ask q next ih => exact agrees_cons.mpr ⟨rfl, ih (w q)⟩

theorem play_eq_of_runs {w : World R} {x : Dialogue R α} {log : List (Event R)} {a : α}
    (h : Runs x log a) (hw : Agrees w log) : play w x = (a, log) := by
  induction h with
  | done a => rfl
  | @ask q next r log a h ih =>
    obtain ⟨hr, hlog⟩ := agrees_cons.mp hw
    obtain rfl : r = w q := hr
    rw [play, ih hlog]

end Attestation.Proofs.Worlds
