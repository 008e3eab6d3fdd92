import Attestation.Compositor

namespace Attestation.Proofs.Course

open Compositor

variable {H α β : Type}

/-- A call and the answer to it; no answer means that the deadline came first. -/
structure Event (H : Type) where
  call : Call H
  reply : Option call.Reply

/-- The answers to all calls at all steps. -/
abbrev Environment (H : Type) := (step : Nat) → (c : Call H) → Option c.Reply

namespace Environment

/-- Answers a call and records it. -/
def answer (env : Environment H) (c : Call H) : OptionT (StateM (List (Event H))) c.Reply :=
  OptionT.mk fun log => (env log.length c, log ++ [⟨c, env log.length c⟩])

def runner (env : Environment H) : Runner (StateM (List (Event H))) H := fun _ x =>
  (Dialogue.run (m := OptionT (StateM (List (Event H)))) env.answer x).run

/-- The result of a composition that starts at some step, and its events. -/
def play (env : Environment H) : Nat → Composition H α → Option α × List (Event H)
  | _, .done a => (some a, [])
  | step, .ask c next =>
    match env step c with
    | none => (none, [⟨c, none⟩])
    | some r => ((play env (step + 1) (next r)).1, ⟨c, some r⟩ :: (play env (step + 1) (next r)).2)

theorem play_done (env : Environment H) (step : Nat) (a : α) :
    env.play step (.done a) = (some a, []) := rfl

theorem play_ask_none {env : Environment H} {step : Nat} {c : Call H} (h : env step c = none)
    (next : c.Reply → Composition H α) :
    env.play step (.ask c next) = (none, [⟨c, none⟩]) := by
  rw [play, h]

theorem play_ask_some {env : Environment H} {step : Nat} {c : Call H} {r : c.Reply}
    (h : env step c = some r) (next : c.Reply → Composition H α) :
    env.play step (.ask c next) =
      ((env.play (step + 1) (next r)).1, ⟨c, some r⟩ :: (env.play (step + 1) (next r)).2) := by
  rw [play, h]

/-- A computation goes on at the step to which the events before it lead. -/
theorem play_bind (env : Environment H) (step : Nat) (x : Composition H α)
    (f : α → Composition H β) :
    env.play step (x >>= f) =
      match env.play step x with
      | (none, log) => (none, log)
      | (some a, log) =>
        ((env.play (step + log.length) (f a)).1,
          log ++ (env.play (step + log.length) (f a)).2) := by
  induction x generalizing step with
  | done a => rfl
  | ask c next ih =>
    rw [Dialogue.ask_bind]
    cases hc : env step c with
    | none =>
      rw [play_ask_none hc, play_ask_none hc]
    | some r =>
      rw [play_ask_some hc, play_ask_some hc, ih r (step + 1)]
      obtain ⟨result, log⟩ := env.play (step + 1) (next r)
      cases result with
      | none => rfl
      | some a =>
        have hstep : step + 1 + log.length = step + (log.length + 1) := by omega
        simp only [hstep, List.length_cons, List.cons_append]

theorem runner_eq (env : Environment H) (timeout : Option Nat) (x : Composition H α)
    (log : List (Event H)) :
    (env.runner timeout x).run log =
      ((env.play log.length x).1, log ++ (env.play log.length x).2) := by
  induction x generalizing log with
  | done a =>
    rw [play_done, List.append_nil]
    rfl
  | ask c next ih =>
    cases hc : env log.length c with
    | none =>
      rw [play_ask_none hc]
      simp only [runner, Dialogue.run, answer, OptionT.run, bind, OptionT.bind, OptionT.mk,
        StateT.bind, StateT.run, hc]
      rfl
    | some r =>
      rw [play_ask_some hc]
      have hlen : (log ++ [(⟨c, some r⟩ : Event H)]).length = log.length + 1 := by simp
      have hr := ih r (log ++ [⟨c, some r⟩])
      rw [hlen, List.append_assoc, List.singleton_append] at hr
      simp only [← hr, runner, Dialogue.run, answer, OptionT.run, bind, OptionT.bind, OptionT.mk,
        StateT.bind, StateT.run, hc]

end Environment

/-- Composes from the first step on: the response, and all that was called. A composition on a clock
has the response of one of these runs, by `Clocks.clock_composed`. -/
def composed (env : Environment H) (s : Compositor.Settings) (registry : Registry H)
    (body : List UInt8) : Except Problem Envelope × List (Event H) :=
  (compose env.runner s registry body).run []

theorem composed_refused {env : Environment H} {s : Compositor.Settings} {registry : Registry H}
    {body : List UInt8} {p : Problem} (h : prepare s.listMode registry body = .error p) :
    composed env s registry body = (.error p, []) := by
  unfold composed compose
  rw [h]
  rfl

theorem composed_prepared {env : Environment H} {s : Compositor.Settings} {registry : Registry H}
    {body : List UInt8} {t : Task} (h : prepare s.listMode registry body = .ok t) :
    composed env s registry body =
      (conclude s.timeout t (env.play 0 (collect s.listMode s.fanOut registry t).run).1,
        (env.play 0 (collect s.listMode s.fanOut registry t).run).2) := by
  have hr := env.runner_eq (some s.timeout) (collect s.listMode s.fanOut registry t).run []
  simp only [List.length_nil, List.nil_append] at hr
  unfold composed compose
  rw [h]
  simp only [StateT.run, bind, StateT.bind] at hr ⊢
  rw [hr]
  rfl

/-- The events of a composition and its result, whatever the answers are. -/
inductive Follows : Composition H α → List (Event H) → Option α → Prop
  | done (a : α) : Follows (.done a) [] (some a)
  | cut (c : Call H) (next : c.Reply → Composition H α) :
      Follows (.ask c next) [⟨c, none⟩] none
  | step {c : Call H} {next : c.Reply → Composition H α} {r : c.Reply} {log : List (Event H)}
      {result : Option α} (h : Follows (next r) log result) :
      Follows (.ask c next) (⟨c, some r⟩ :: log) result

theorem play_follows (env : Environment H) (step : Nat) (x : Composition H α) :
    Follows x (env.play step x).2 (env.play step x).1 := by
  induction x generalizing step with
  | done a => exact Follows.done a
  | ask c next ih =>
    cases hc : env step c with
    | none =>
      rw [Environment.play_ask_none hc]
      exact Follows.cut c next
    | some r =>
      rw [Environment.play_ask_some hc]
      exact Follows.step (ih r (step + 1))

theorem play_answered (env : Environment H) (step : Nat) (x : Composition H α) :
    ∀ e ∈ (env.play step x).2, ∃ k, e.reply = env k e.call := by
  induction x generalizing step with
  | done a =>
    intro e he
    rw [Environment.play_done] at he
    exact absurd he List.not_mem_nil
  | ask c next ih =>
    intro e he
    cases hc : env step c with
    | none =>
      rw [Environment.play_ask_none hc] at he
      cases List.mem_singleton.mp he
      exact ⟨step, hc.symm⟩
    | some r =>
      rw [Environment.play_ask_some hc] at he
      obtain rfl | hm := List.mem_cons.mp he
      · exact ⟨step, hc.symm⟩
      · exact ih r (step + 1) e hm

theorem follows_done {a : α} {log : List (Event H)} {result : Option α}
    (h : Follows (.done a) log result) : log = [] ∧ result = some a := by
  cases h
  exact ⟨rfl, rfl⟩

theorem follows_ask {c : Call H} {next : c.Reply → Composition H α} {log : List (Event H)}
    {result : Option α} (h : Follows (.ask c next) log result) :
    (log = [⟨c, none⟩] ∧ result = none) ∨
      ∃ r rest, log = ⟨c, some r⟩ :: rest ∧ Follows (next r) rest result := by
  cases h with
  | cut => exact Or.inl ⟨rfl, rfl⟩
  | step h => exact Or.inr ⟨_, _, rfl, h⟩

theorem follows_bind {x : Composition H α} {f : α → Composition H β} {log : List (Event H)}
    {result : Option β} (h : Follows (x >>= f) log result) :
    (Follows x log none ∧ result = none) ∨
      ∃ a log₁ log₂, log = log₁ ++ log₂ ∧ Follows x log₁ (some a) ∧ Follows (f a) log₂ result := by
  induction x generalizing log with
  | done a => exact Or.inr ⟨a, [], log, rfl, Follows.done a, h⟩
  | ask c next ih =>
    obtain ⟨rfl, rfl⟩ | ⟨r, rest, rfl, hr⟩ := follows_ask h
    · exact Or.inl ⟨Follows.cut c next, rfl⟩
    · obtain ⟨hx, rfl⟩ | ⟨a, log₁, log₂, rfl, hx, hf⟩ := ih r hr
      · exact Or.inl ⟨Follows.step hx, rfl⟩
      · exact Or.inr ⟨a, ⟨c, some r⟩ :: log₁, log₂, rfl, Follows.step hx, hf⟩

/-- Two results without a value that say the same. -/
inductive Ends : Option (Except Problem α) → Option (Except Problem β) → Prop
  | late : Ends none none
  | problem (p : Problem) : Ends (some (.error p)) (some (.error p))

theorem follows_part_bind {x : Part H α} {f : α → Part H β} {log : List (Event H)}
    {result : Option (Except Problem β)} (h : Follows (x >>= f).run log result) :
    (∃ early, Ends early result ∧ Follows x.run log early) ∨
      ∃ a log₁ log₂, log = log₁ ++ log₂ ∧ Follows x.run log₁ (some (.ok a)) ∧
        Follows (f a).run log₂ result := by
  obtain ⟨hx, rfl⟩ | ⟨a, log₁, log₂, rfl, hx, hf⟩ := follows_bind h
  · exact Or.inl ⟨none, Ends.late, hx⟩
  · cases a with
    | error p =>
      obtain ⟨rfl, rfl⟩ := follows_done hf
      rw [List.append_nil]
      exact Or.inl ⟨some (.error p), Ends.problem p, hx⟩
    | ok a => exact Or.inr ⟨a, log₁, log₂, rfl, hx, hf⟩

/-- The question that an event puts to an attester, if any. -/
def Event.question : Event H → Option (H × Query)
  | ⟨.query h q, _⟩ => some (h, q)
  | ⟨.proceed next _, some none⟩ => some (next.attester, .evidence next.request)
  | _ => none

def Event.arrival : Event H → Option (Plan H × EvidenceAnswer)
  | ⟨.proceed _ underWay, some (some (i, a))⟩ => some (underWay.get i, a)
  | ⟨.await underWay, some (i, a)⟩ => some (underWay.get i, a)
  | _ => none

def questions (log : List (Event H)) : List (H × Query) := log.filterMap Event.question

/-- The requests that were answered while others could be under way, in the order of the
answers. -/
def arrivals (log : List (Event H)) : List (Plan H × EvidenceAnswer) :=
  log.filterMap Event.arrival

@[simp] theorem questions_append (log₁ log₂ : List (Event H)) :
    questions (log₁ ++ log₂) = questions log₁ ++ questions log₂ := List.filterMap_append

@[simp] theorem arrivals_append (log₁ log₂ : List (Event H)) :
    arrivals (log₁ ++ log₂) = arrivals log₁ ++ arrivals log₂ := List.filterMap_append

end Attestation.Proofs.Course
