import Attestation.Compositor.Clock
import Attestation.Proofs.Course

namespace Attestation.Proofs.Clocks

open Compositor Course

variable {σ H T α β : Type}

theorem run_follows (answer : (c : Call H) → OptionT (StateM σ) c.Reply) (x : Composition H α)
    (w : σ) : ∃ log, Follows x log ((Dialogue.run answer x).run.run w).1 := by
  induction x generalizing w with
  | done a => exact ⟨[], Follows.done a⟩
  | ask c next ih =>
    simp only [Dialogue.run, OptionT.run, bind, OptionT.bind, OptionT.mk, StateT.bind, StateT.run]
    cases answer c w with
    | mk r w' =>
      cases r with
      | none => exact ⟨[⟨c, none⟩], Follows.cut c next⟩
      | some r =>
        obtain ⟨log, h⟩ := ih r w'
        exact ⟨⟨c, some r⟩ :: log, Follows.step h⟩

theorem play_congr {env₁ env₂ : Environment H} {step : Nat}
    (h : ∀ k c, step ≤ k → env₁ k c = env₂ k c) (x : Composition H α) :
    env₁.play step x = env₂.play step x := by
  induction x generalizing step with
  | done a => rfl
  | ask c next ih =>
    have hstep := h step c (Nat.le_refl step)
    cases hc : env₂ step c with
    | none =>
      rw [hc] at hstep
      rw [Environment.play_ask_none hc, Environment.play_ask_none hstep]
    | some r =>
      have hnext : env₁.play (step + 1) (next r) = env₂.play (step + 1) (next r) :=
        ih r fun k d hk => h k d (Nat.le_of_succ_le hk)
      rw [hc] at hstep
      rw [Environment.play_ask_some hc, Environment.play_ask_some hstep, hnext]

open Classical in
noncomputable def override (env : Environment H) (step : Nat) (c : Call H) (r : c.Reply) :
    Environment H := fun k d =>
  if h : k = step ∧ c = d then some (h.2 ▸ r) else env k d

theorem exists_environment {x : Composition H α} {log : List (Event H)} {result : Option α}
    (h : Follows x log result) (step : Nat) :
    ∃ env : Environment H, env.play step x = (result, log) := by
  induction h generalizing step with
  | done a => exact ⟨fun _ _ => none, rfl⟩
  | cut c next => exact ⟨fun _ _ => none, rfl⟩
  | @step c next r log result _ ih =>
    obtain ⟨env, henv⟩ := ih (step + 1)
    -- The same call may come again, so the answer is bound to its step.
    refine ⟨override env step c r, ?_⟩
    have hc : override env step c r step c = some r := dif_pos ⟨rfl, rfl⟩
    have hlater : ∀ k d, step + 1 ≤ k → override env step c r k d = env k d := by
      intro k d hk
      exact dif_neg fun hd => Nat.ne_of_gt hk hd.1
    rw [Environment.play_ask_some hc, play_congr hlater, henv]

/-- Runs a composition from a clock on, up to a deadline. -/
def runOn (w : World σ H T) (deadline : Option Nat) (x : Composition H α) (c : Clock σ H T) :
    Option α × Clock σ H T :=
  (Dialogue.run (m := OptionT (StateM (Clock σ H T))) (Clock.reply w deadline) x).run c

theorem run_bind_some {x : OptionT (StateM σ) α} {a : α} {c c' : σ} (h : x.run c = (some a, c'))
    (f : α → OptionT (StateM σ) β) : (x >>= f).run c = (f a).run c' := by
  simp only [OptionT.run] at h
  simp only [OptionT.run, bind, OptionT.bind, OptionT.mk, StateT.bind, h]

theorem run_bind_none {x : OptionT (StateM σ) α} {c c' : σ} (h : x.run c = (none, c'))
    (f : α → OptionT (StateM σ) β) : (x >>= f).run c = (none, c') := by
  simp only [OptionT.run] at h
  simp only [OptionT.run, bind, OptionT.bind, OptionT.mk, StateT.bind, h]
  rfl

section runOn

variable {w : World σ H T} {deadline : Option Nat} {c c' : Clock σ H T}

theorem runOn_ask {call : Call H} {r : call.Reply}
    (h : (Clock.reply w deadline call).run c = (some r, c'))
    (next : call.Reply → Composition H α) :
    runOn w deadline (.ask call next) c = runOn w deadline (next r) c' :=
  run_bind_some h _

theorem runOn_bind {x : Composition H α} {a : α} (h : runOn w deadline x c = (some a, c'))
    (f : α → Composition H β) : runOn w deadline (x >>= f) c = runOn w deadline (f a) c' := by
  induction x generalizing c with
  | done b =>
    cases h
    rfl
  | ask call next ih =>
    rw [Dialogue.ask_bind]
    cases hreply : (Clock.reply w deadline call).run c with
    | mk r c₁ =>
      cases r with
      | none => cases (run_bind_none hreply _).symm.trans h
      | some r =>
        rw [runOn_ask hreply] at h ⊢
        exact ih r h

theorem runOn_part_ok {x : Part H α} {v : α} (hx : runOn w deadline x.run c = (some (.ok v), c'))
    (f : α → Part H β) : runOn w deadline (x >>= f).run c = runOn w deadline (f v).run c' :=
  runOn_bind hx (ExceptT.bindCont f)

theorem runOn_part_error {x : Part H α} {p : Problem}
    (hx : runOn w deadline x.run c = (some (.error p), c')) (f : α → Part H β) :
    runOn w deadline (x >>= f).run c = (some (.error p), c') :=
  runOn_bind hx (ExceptT.bindCont f)

theorem compose_prepared {s : Compositor.Settings} {registry : Registry H} {body : List UInt8}
    {t : Task} (h : prepare s.listMode registry body = .ok t) :
    ((compose (Clock.run w) s registry body).run c).1 =
      conclude s.timeout t (runOn w (some (c.now + s.timeout))
        (collect s.listMode s.fanOut registry t).run c).1 := by
  unfold compose
  rw [h]
  rfl

end runOn

/-- The response of a composition on a clock is its response in some environment. -/
theorem clock_composed (w : World σ H T) (s : Compositor.Settings) (registry : Registry H)
    (body : List UInt8) (c : Clock σ H T) :
    ∃ env, ((compose (Clock.run w) s registry body).run c).1 =
      (composed env s registry body).1 := by
  cases ht : prepare s.listMode registry body with
  | error p =>
    refine ⟨fun _ _ => none, ?_⟩
    rw [composed_refused ht]
    unfold compose
    rw [ht]
    rfl
  | ok t =>
    obtain ⟨log, hf⟩ := run_follows (Clock.reply w (some (c.now + s.timeout)))
      (collect s.listMode s.fanOut registry t).run c
    obtain ⟨env, henv⟩ := exists_environment hf 0
    refine ⟨env, ?_⟩
    rw [compose_prepared ht, composed_prepared ht, henv]
    rfl

end Attestation.Proofs.Clocks
