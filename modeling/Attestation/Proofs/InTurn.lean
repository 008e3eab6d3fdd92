import Attestation.Proofs.Collecting

namespace Attestation.Proofs.InTurn

open Compositor Course Scheduling Negotiation Gathering JsonRecords
open Json (Value)

variable {H α β : Type} {env : Environment H} {step m n : Nat}

/-- From a step on, a part of a composition comes to a value, and puts so many questions if it
succeeds. -/
def Comes (env : Environment H) (step : Nat) (x : Part H α) (v : Except Problem α) (n : Nat) :
    Prop :=
  (env.play step x.run).1 = some v ∧ ∀ a, v = .ok a → (env.play step x.run).2.length = n

theorem comes_pure (a : α) : Comes env step (pure a) (.ok a) 0 := ⟨rfl, fun _ _ => rfl⟩

theorem comes_ofExcept (v : Except Problem α) : Comes env step (Compositor.ofExcept v) v 0 :=
  ⟨rfl, fun _ _ => rfl⟩

theorem comes_bind_error {x : Part H α} {p : Problem} (hx : Comes env step x (.error p) m)
    (f : α → Part H β) : Comes env step (x >>= f) (.error p) n := by
  have hplay : env.play step (x >>= f).run = _ :=
    env.play_bind step x.run (ExceptT.bindCont f)
  cases hcourse : env.play step x.run with
  | mk result log =>
    have hvalue := hx.1
    rw [hcourse] at hplay hvalue
    obtain rfl : result = some (.error p) := hvalue
    refine ⟨?_, nofun⟩
    rw [hplay]
    rfl

theorem comes_bind_ok {x : Part H α} {a : α} {f : α → Part H β} {v : Except Problem β}
    (hx : Comes env step x (.ok a) m) (hf : Comes env (step + m) (f a) v n) :
    Comes env step (x >>= f) v (m + n) := by
  have hplay : env.play step (x >>= f).run = _ :=
    env.play_bind step x.run (ExceptT.bindCont f)
  obtain ⟨hvalue, hlength⟩ := hx
  cases hcourse : env.play step x.run with
  | mk result log =>
    rw [hcourse] at hplay hvalue hlength
    obtain rfl : result = some (.ok a) := hvalue
    obtain rfl : log.length = m := hlength a rfl
    rw [Comes, hplay]
    refine ⟨hf.1, fun b hb => ?_⟩
    have hlast : (env.play (step + log.length) (f a).run).2.length = n := hf.2 b hb
    exact List.length_append.trans (congrArg (log.length + ·) hlast)

theorem comes_bind {x : Part H α} {v : Except Problem α} {f : α → Part H β}
    {g : α → Except Problem β} (hx : Comes env step x v m)
    (hf : ∀ a, v = .ok a → Comes env (step + m) (f a) (g a) n) :
    Comes env step (x >>= f) (v >>= g) (m + n) := by
  cases v with
  | error p => exact comes_bind_error hx f
  | ok a => exact comes_bind_ok hx (hf a rfl)

theorem comes_ofExcept_bind {v : Except Problem α} {f : α → Part H β} {g : α → Except Problem β}
    (hf : ∀ a, v = .ok a → Comes env step (f a) (g a) n) :
    Comes env step (Compositor.ofExcept v >>= f) (v >>= g) n := by
  have h : Comes env step (Compositor.ofExcept v >>= f) (v >>= g) (0 + n) :=
    comes_bind (comes_ofExcept v) hf
  rwa [Nat.zero_add] at h

variable {schedule : Schedule} {answers : Nat → H → SubAttester} {registry : Registry H}
  {nonce : List UInt8} {selection : Selection}

theorem comes_ask (hs : schedule.deadline = none) (h : H) (q : Query) :
    Comes (environment schedule answers) step (ask h q) (.ok ((answers step h).answer q)) 1 := by
  have henv : environment schedule answers step (.query h q) =
      some ((answers step h).answer q) := environment_eq hs answers step _
  have hplay := Environment.play_ask_some henv fun answer =>
    (.done (.ok answer) : Composition H (Except Problem q.Answer))
  exact ⟨congrArg Prod.fst hplay, fun _ _ => congrArg (List.length ∘ Prod.snd) hplay⟩

def settleFrom (registry : Registry H) (answers : Nat → H → SubAttester) (nonce : List UInt8)
    (selection : Selection) : (step : Nat) → List String → Except Problem (List (Plan H))
  | _, [] => .ok []
  | step, name :: names => do
    let plan ← settle registry (answers step) nonce selection name
    let plans ← settleFrom registry answers nonce selection (step + 1) names
    return plan :: plans

def itemsFrom (answers : Nat → H → SubAttester) :
    (step : Nat) → List (Plan H) → Except Problem (List Item)
  | _, [] => .ok []
  | step, plan :: plans => do
    let x ← contribution plan ((answers step plan.attester).evidence plan.request)
    let xs ← itemsFrom answers (step + 1) plans
    return x :: xs

theorem comes_negotiate (hs : schedule.deadline = none) (name : String) :
    Comes (environment schedule answers) step (negotiate registry nonce selection name)
      (settle registry (answers step) nonce selection name) 1 := by
  refine comes_ofExcept_bind fun h _ => ?_
  have hlast : ∀ formats, Comes (environment schedule answers) (step + 1)
      (do
        let r ← Compositor.ofExcept (request name nonce formats (Value.get? selection name))
        return (⟨name, h, r⟩ : Plan H))
      (do
        let r ← request name nonce formats (Value.get? selection name)
        return (⟨name, h, r⟩ : Plan H)) 0 :=
    fun formats => comes_ofExcept_bind fun r _ => comes_pure _
  exact comes_bind (comes_ask hs h .formats) fun formats _ => hlast formats

theorem comes_negotiateAll (hs : schedule.deadline = none) (names : List String) :
    Comes (environment schedule answers) step (negotiateAll registry nonce selection names)
      (settleFrom registry answers nonce selection step names) names.length := by
  induction names generalizing step with
  | nil => exact comes_pure []
  | cons name names ih =>
    have hfirst : Comes (environment schedule answers) step
        (negotiate registry nonce selection name) _ 1 := comes_negotiate hs name
    rw [List.length_cons, Nat.add_comm]
    exact comes_bind hfirst fun plan _ => comes_bind ih fun plans _ => comes_pure (plan :: plans)

theorem comes_invokeInTurn (hs : schedule.deadline = none) (plans : List (Plan H)) :
    Comes (environment schedule answers) step (invokeInTurn plans)
      (itemsFrom answers step plans) plans.length := by
  induction plans generalizing step with
  | nil => exact comes_pure []
  | cons plan plans ih =>
    have hfirst : Comes (environment schedule answers) step
        (ask plan.attester (.evidence plan.request)) _ 1 := comes_ask hs _ _
    rw [List.length_cons, Nat.add_comm]
    have hlast : ∀ a, Comes (environment schedule answers) (step + 1)
        (do
          let x ← Compositor.ofExcept (contribution plan a)
          return x :: (← invokeInTurn plans))
        (do
          let x ← contribution plan a
          return x :: (← itemsFrom answers (step + 1) plans)) plans.length :=
      fun a => comes_ofExcept_bind fun x _ => comes_bind ih fun xs _ => comes_pure (x :: xs)
    exact comes_bind hfirst fun a _ => hlast a

theorem names_settleFrom {names : List String} {plans : List (Plan H)}
    (h : settleFrom registry answers nonce selection step names = .ok plans) :
    plans.map (·.name) = names := by
  induction names generalizing step plans with
  | nil =>
    cases h
    rfl
  | cons name names ih =>
    obtain ⟨plan, hplan, h⟩ := (bind_ok_iff _ _ _).mp h
    obtain ⟨plans, hrest, h⟩ := (bind_ok_iff _ _ _).mp h
    cases h
    rw [List.map_cons, ih hrest, (settle_eq_ok_iff.mp hplan).1]

theorem labels_itemsFrom {plans : List (Plan H)} {items : List Item}
    (h : itemsFrom answers step plans = .ok items) :
    items.map (·.1) = plans.map (·.name) := by
  induction plans generalizing step items with
  | nil =>
    cases h
    rfl
  | cons plan plans ih =>
    obtain ⟨x, hx, h⟩ := (bind_ok_iff _ _ _).mp h
    obtain ⟨xs, hrest, h⟩ := (bind_ok_iff _ _ _).mp h
    cases h
    obtain ⟨_, rfl⟩ := contribution_eq_ok_iff.mp hx
    rw [List.map_cons, List.map_cons, ih hrest]
    rfl

/-- The collection for a task: the formats of its targets are asked for at the first steps, and
evidence after that. -/
def collectionFor (registry : Registry H) (answers : Nat → H → SubAttester) (mode : ListMode)
    (t : Task) : Except Problem Cmw.Collection := do
  let names := t.targets mode registry
  let plans ← settleFrom registry answers t.nonce (t.selection.getD []) 0 names
  let items ← itemsFrom answers names.length plans
  merge items

theorem comes_collect (hs : schedule.deadline = none) (mode : ListMode) (t : Task) :
    Comes (environment schedule answers) 0 (collect mode .sequential registry t)
      (collectionFor registry answers mode t)
      ((t.targets mode registry).length + (t.targets mode registry).length) := by
  refine comes_bind (comes_negotiateAll hs _) fun plans hplans => ?_
  have hinvoke : Comes (environment schedule answers) (0 + (t.targets mode registry).length)
      (invokeInTurn plans) _ _ := comes_invokeInTurn hs plans
  have hlength : plans.length = (t.targets mode registry).length := by
    rw [← names_settleFrom hplans, List.length_map]
  rw [hlength, Nat.zero_add] at hinvoke
  rw [Nat.zero_add]
  exact comes_bind hinvoke fun items _ => comes_ofExcept (merge items)

theorem composed_inTurn (hs : schedule.deadline = none) (mode : ListMode) (timeout : Nat)
    (body : List UInt8) :
    (composed (environment schedule answers) ⟨mode, .sequential, timeout⟩ registry body).1 =
      (do
        let t ← prepare mode registry body
        (collectionFor registry answers mode t).map (Envelope.wrap t.nonceText)) := by
  cases ht : prepare mode registry body with
  | error p =>
    rw [composed_refused (s := ⟨mode, .sequential, timeout⟩) ht]
    rfl
  | ok t =>
    have hcollect : Comes (environment schedule answers) 0
        (collect mode .sequential registry t) _ _ := comes_collect hs mode t
    rw [composed_prepared (s := ⟨mode, .sequential, timeout⟩) ht, hcollect.1]
    rfl

end Attestation.Proofs.InTurn
