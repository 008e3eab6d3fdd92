import Attestation.Proofs.Clocks
import Attestation.Proofs.Composing
import Attestation.Proofs.InTurn

namespace Attestation.Proofs.InstantAttesters

open Clocks Compositor Course Scheduling Negotiation Gathering Collecting Composing InTurn
open JsonRecords
open Json (Value)
open TimedAttester (world)

variable {α β : Type}

/-- Whatever it is asked, the attester answers at once. -/
structure Instant (a : TimedAttester) : Prop where
  formats : a.formatsDelay = 0
  evidence : a.evidenceDelay = 0

theorem Instant.delay {a : TimedAttester} (h : Instant a) : ∀ q, a.delay q = 0
  | .formats => h.formats
  | .evidence _ => h.evidence
  | .identity | .options => rfl

abbrev Timed := Clock (List (String × EvidenceRequest)) TimedAttester Nat

structure Idle (now : Nat) (c : Timed) : Prop where
  time : c.now = now
  free : c.underWay = []

def AtOnce (deadline : Option Nat) (now : Nat) (x : Part TimedAttester α) (v : Except Problem α) :
    Prop :=
  ∀ c, Idle now c → ∃ c', Idle now c' ∧ runOn world deadline x.run c = (some v, c')

section parts

variable {deadline : Option Nat} {now step : Nat}

theorem atOnce_ofExcept (v : Except Problem α) :
    AtOnce deadline now (Compositor.ofExcept v) v :=
  fun c hc => ⟨c, hc, rfl⟩

theorem atOnce_pure (a : α) : AtOnce deadline now (pure a) (.ok a) := fun c hc => ⟨c, hc, rfl⟩

theorem atOnce_bind {x : Part TimedAttester α} {v : Except Problem α}
    {f : α → Part TimedAttester β} {g : α → Except Problem β} (hx : AtOnce deadline now x v)
    (hf : ∀ a, v = .ok a → AtOnce deadline now (f a) (g a)) :
    AtOnce deadline now (x >>= f) (v >>= g) := by
  intro c hc
  obtain ⟨c₁, hc₁, hrun⟩ := hx c hc
  cases v with
  | error p => exact ⟨c₁, hc₁, runOn_part_error hrun f⟩
  | ok a =>
    obtain ⟨c₂, hc₂, hlast⟩ := hf a rfl c₁ hc₁
    exact ⟨c₂, hc₂, (runOn_part_ok hrun f).trans hlast⟩

theorem atOnce_ask (hnow : Clock.inTime deadline now = true) {a : TimedAttester} (ha : Instant a)
    (q : Query) :
    AtOnce deadline now (ask a q) (.ok (a.attester.answer q)) := by
  intro c hc
  have hreply : (Clock.reply world deadline (.query a q)).run c =
      (some (a.attester.answer q), { c with world := (world.send c.now a q c.world).2 }) := by
    have htime : Clock.inTime deadline c.now = true := hc.time ▸ hnow
    simp [Clock.reply, Clock.query, world, OptionT.run, OptionT.mk, ha.delay, htime]
  refine ⟨{ c with world := (world.send c.now a q c.world).2 }, ⟨hc.time, hc.free⟩, ?_⟩
  exact runOn_ask hreply fun answer => (.done (.ok answer) : Composition _ (Except Problem _))

structure Busy (now : Nat) (plan : Plan TimedAttester) (c : Timed) : Prop where
  time : c.now = now
  sent : c.underWay = [(plan.attester, plan.request, now)]

variable {plan : Plan TimedAttester} {plans : List (Plan TimedAttester)} {c : Timed}

theorem take_busy (hnow : Clock.inTime deadline now = true) (hc : Busy now plan c) :
    Clock.take world c deadline =
      some (0, evidenceFor TimedAttester.attester plan, { c with underWay := [] }) := by
  simp [Clock.take, Clock.answers, Clock.first, hc.sent, hc.time, world, hnow, evidenceFor,
    SubAttester.answer]

theorem proceed_idle (ha : Instant plan.attester) (hc : Idle now c) :
    ∃ c', Busy now plan c' ∧
      (Clock.reply world deadline (.proceed plan [])).run c = (some none, c') := by
  have htake : Clock.take world c (some c.now) = none := by
    simp [Clock.take, Clock.answers, Clock.first, hc.free]
  have hdue : c.now + plan.attester.delay (.evidence plan.request) = now := by
    rw [ha.delay, hc.time, Nat.add_zero]
  refine ⟨⟨c.now, (plan.attester.name, plan.request) :: c.world,
    c.underWay ++ [(plan.attester, plan.request,
      c.now + plan.attester.delay (.evidence plan.request))]⟩, ⟨hc.time, ?_⟩, ?_⟩
  · rw [hc.free, hdue]
    rfl
  · refine (run_bind_some (a := c) rfl _).trans ?_
    rw [htake]
    rfl

theorem proceed_busy (hc : Busy now plan c) (next : Plan TimedAttester) :
    (Clock.reply world deadline (.proceed next [plan])).run c =
      (some (some (0, evidenceFor TimedAttester.attester plan)), { c with underWay := [] }) := by
  have htake : Clock.take world c (some c.now) =
      some (0, evidenceFor TimedAttester.attester plan, { c with underWay := [] }) :=
    take_busy (decide_eq_true (Nat.le_refl c.now)) ⟨rfl, hc.time ▸ hc.sent⟩
  refine (run_bind_some (a := c) rfl _).trans ?_
  rw [htake]
  rfl

theorem await_busy (hnow : Clock.inTime deadline now = true) (hc : Busy now plan c) :
    (Clock.reply world deadline (.await [plan])).run c =
      (some (0, evidenceFor TimedAttester.attester plan), { c with underWay := [] }) := by
  refine (run_bind_some (a := c) rfl _).trans ?_
  rw [take_busy hnow hc]
  rfl

theorem runOn_busy (hnow : Clock.inTime deadline now = true) (hc : Busy now plan c)
    (plans : List (Plan TimedAttester)) (done : List Item) :
    runOn world deadline (invokeAtOnce plans [plan] done).run c =
      match contribution plan (evidenceFor TimedAttester.attester plan) with
      | .error p => (some (.error p), { c with underWay := [] })
      | .ok x =>
        runOn world deadline (invokeAtOnce plans [] (x :: done)).run { c with underWay := [] } := by
  have htaken : ∀ v : Except Problem Item,
      runOn world deadline
        (match v with
        | .error p => .done (.error p)
        | .ok x => (invokeAtOnce plans [] (x :: done)).run) { c with underWay := [] } =
      match v with
      | .error p => (some (.error p), { c with underWay := [] })
      | .ok x =>
        runOn world deadline (invokeAtOnce plans [] (x :: done)).run { c with underWay := [] } := by
    rintro (p | x)
    · rfl
    · rfl
  cases plans with
  | nil =>
    rw [invokeAtOnce]
    exact (runOn_ask (await_busy hnow hc) _).trans (htaken _)
  | cons next plans =>
    rw [invokeAtOnce]
    exact (runOn_ask (proceed_busy hc next) _).trans (htaken _)

theorem atOnce_invokeAtOnce (hnow : Clock.inTime deadline now = true)
    (hplans : ∀ plan ∈ plans, Instant plan.attester) (step : Nat) (done : List Item) :
    AtOnce deadline now (invokeAtOnce plans [] done)
      ((itemsFrom (fun _ => TimedAttester.attester) step plans).map (done.reverse ++ ·)) := by
  induction plans generalizing step done with
  | nil =>
    rw [invokeAtOnce, itemsFrom, Except.map, List.append_nil]
    exact atOnce_pure done.reverse
  | cons plan plans ih =>
    obtain ⟨hplan, hplans⟩ := List.forall_mem_cons.mp hplans
    intro c hc
    obtain ⟨c₁, hbusy, hsent⟩ := proceed_idle hplan hc
    have hrun : runOn world deadline (invokeAtOnce (plan :: plans) [] done).run c =
        runOn world deadline (invokeAtOnce plans [plan] done).run c₁ := by
      rw [invokeAtOnce]
      exact runOn_ask hsent _
    have hidle : Idle now { c₁ with underWay := [] } := ⟨hbusy.time, rfl⟩
    rw [hrun, runOn_busy hnow hbusy, itemsFrom, evidenceFor]
    cases contribution plan (plan.attester.attester.evidence plan.request) with
    | error p => exact ⟨_, hidle, rfl⟩
    | ok x =>
      obtain ⟨c₂, hc₂, hlast⟩ := ih hplans (step + 1) (x :: done) _ hidle
      refine ⟨c₂, hc₂, hlast.trans ?_⟩
      cases itemsFrom (fun _ => TimedAttester.attester) (step + 1) plans with
      | error p => rfl
      | ok xs => simp [Except.map, bind, Except.bind, pure, Except.pure]

theorem atOnce_invokeInTurn (hnow : Clock.inTime deadline now = true)
    (hplans : ∀ plan ∈ plans, Instant plan.attester) (step : Nat) :
    AtOnce deadline now (invokeInTurn plans)
      (itemsFrom (fun _ => TimedAttester.attester) step plans) := by
  induction plans generalizing step with
  | nil => exact atOnce_pure []
  | cons plan plans ih =>
    obtain ⟨hplan, hplans⟩ := List.forall_mem_cons.mp hplans
    exact atOnce_bind (atOnce_ask hnow hplan _) fun a _ =>
      atOnce_bind (atOnce_ofExcept _) fun x _ =>
        atOnce_bind (ih hplans _) fun xs _ => atOnce_pure (x :: xs)

theorem atOnce_invoke (hnow : Clock.inTime deadline now = true)
    (hplans : ∀ plan ∈ plans, Instant plan.attester) (fanOut : FanOut) (step : Nat) :
    AtOnce deadline now (invoke fanOut plans)
      (itemsFrom (fun _ => TimedAttester.attester) step plans) := by
  cases fanOut with
  | sequential => exact atOnce_invokeInTurn hnow hplans step
  | parallel =>
    have h : AtOnce deadline now (invoke .parallel plans) _ :=
      atOnce_invokeAtOnce hnow hplans step []
    cases hitems : itemsFrom (fun _ => TimedAttester.attester) step plans with
    | error p => rwa [hitems] at h
    | ok items => rwa [hitems] at h

variable {registry : Registry TimedAttester}

theorem atOnce_negotiate (hnow : Clock.inTime deadline now = true)
    (hr : ∀ name a, registry.lookup name = .ok a → Instant a) (nonce : List UInt8)
    (selection : Selection) (name : String) :
    AtOnce deadline now (negotiate registry nonce selection name)
      (settle registry TimedAttester.attester nonce selection name) := by
  refine atOnce_bind (atOnce_ofExcept _) fun a ha => ?_
  have hinstant : Instant a := hr name a (lookup_eq_ok_iff.mp ha)
  have hlast : ∀ formats, AtOnce deadline now
      (do
        let r ← Compositor.ofExcept (request name nonce formats (Value.get? selection name))
        return (⟨name, a, r⟩ : Plan TimedAttester))
      (do
        let r ← request name nonce formats (Value.get? selection name)
        return (⟨name, a, r⟩ : Plan TimedAttester)) :=
    fun formats => atOnce_bind (atOnce_ofExcept _) fun r _ => atOnce_pure _
  exact atOnce_bind (atOnce_ask hnow hinstant .formats) fun formats _ => hlast formats

theorem atOnce_negotiateAll (hnow : Clock.inTime deadline now = true)
    (hr : ∀ name a, registry.lookup name = .ok a → Instant a) (nonce : List UInt8)
    (selection : Selection) (step : Nat) (names : List String) :
    AtOnce deadline now (negotiateAll registry nonce selection names)
      (settleFrom registry (fun _ => TimedAttester.attester) nonce selection step names) := by
  induction names generalizing step with
  | nil => exact atOnce_pure []
  | cons name names ih =>
    exact atOnce_bind (atOnce_negotiate hnow hr nonce selection name) fun plan _ =>
      atOnce_bind (ih _) fun plans _ => atOnce_pure (plan :: plans)

theorem instant_settled (hr : ∀ name a, registry.lookup name = .ok a → Instant a)
    {nonce : List UInt8} {selection : Selection} {names : List String}
    (h : settleFrom registry (fun _ => TimedAttester.attester) nonce selection step names =
      .ok plans) : ∀ plan ∈ plans, Instant plan.attester := by
  induction names generalizing step plans with
  | nil =>
    cases h
    nofun
  | cons name names ih =>
    obtain ⟨plan, hplan, h⟩ := (bind_ok_iff _ _ _).mp h
    obtain ⟨plans, hrest, h⟩ := (bind_ok_iff _ _ _).mp h
    cases h
    have hfound := (settle_eq_ok_iff.mp hplan).2.found
    exact List.forall_mem_cons.mpr ⟨hr _ _ (lookup_eq_ok_iff.mp hfound), ih hrest⟩

theorem atOnce_collect (hnow : Clock.inTime deadline now = true)
    (hr : ∀ name a, registry.lookup name = .ok a → Instant a) (mode : ListMode) (fanOut : FanOut)
    (t : Task) :
    AtOnce deadline now (collect mode fanOut registry t)
      (collectionFor registry (fun _ => TimedAttester.attester) mode t) :=
  atOnce_bind (atOnce_negotiateAll hnow hr _ _ _ _) fun _ hplans =>
    atOnce_bind (atOnce_invoke hnow (instant_settled hr hplans) fanOut _) fun _ _ =>
      atOnce_ofExcept _

end parts

/-- On any clock the response is the one to asking in turn without a deadline. -/
theorem clock_inTurn {registry : Registry TimedAttester}
    (hr : ∀ name a, registry.lookup name = .ok a → Instant a) {schedule : Schedule}
    (hs : schedule.deadline = none) (s : Compositor.Settings) (body : List UInt8) {c : Timed}
    (hc : c.underWay = []) :
    ((compose (Clock.run world) s registry body).run c).1 =
      (composed (steady schedule TimedAttester.attester) ⟨s.listMode, .sequential, s.timeout⟩
        registry body).1 := by
  rw [composed_inTurn hs]
  cases ht : prepare s.listMode registry body with
  | error p =>
    unfold compose
    rw [ht]
    rfl
  | ok t =>
    have hnow : Clock.inTime (some (c.now + s.timeout)) c.now = true :=
      decide_eq_true (Nat.le_add_right _ _)
    obtain ⟨c', _, hrun⟩ := atOnce_collect hnow hr s.listMode s.fanOut t c ⟨rfl, hc⟩
    rw [compose_prepared ht, hrun]
    rfl

end Attestation.Proofs.InstantAttesters
