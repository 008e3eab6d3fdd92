import Attestation.Proofs.Clocks
import Attestation.Proofs.SoleTarget

namespace Attestation.Proofs.AttentiveWorlds

open Clocks Compositor Course Scheduling Negotiation SoleTarget

variable {σ H T α β : Type} {w : World σ H T} {deadline : Option Nat} {h : H} {a : SubAttester}
  {c c' : Clock σ H T}

/-- Asked these questions one after the other from this time on, whoever is addressed answers each
in time, and as the sub-attester does. -/
inductive Attends (w : World σ H T) (deadline : Option Nat) (h : H) (a : SubAttester) :
    List Query → Nat → σ → Prop
  | done (now : Nat) (world : σ) : Attends w deadline h a [] now world
  | asked {q : Query} {qs : List Query} {now time : Nat} {world after : σ}
      (hr : w.receive h q (w.send now h q world).1 (w.send now h q world).2 =
        some (time, a.answer q, after))
      (ht : Clock.inTime deadline (max now time) = true)
      (hq : Attends w deadline h a qs (max now time) after) :
      Attends w deadline h a (q :: qs) now world

theorem runOn_query {q : Query} {time : Nat} {after : σ}
    (hr : w.receive h q (w.send c.now h q c.world).1 (w.send c.now h q c.world).2 =
      some (time, a.answer q, after)) (ht : Clock.inTime deadline (max c.now time) = true) :
    runOn w deadline (ask h q).run c =
      (some (.ok (a.answer q)), { c with now := max c.now time, world := after }) := by
  have hreply : (Clock.reply w deadline (.query h q)).run c =
      (some (a.answer q), { c with now := max c.now time, world := after }) := by
    simp [Clock.reply, Clock.query, OptionT.run, OptionT.mk, hr, ht]
  exact runOn_ask hreply fun answer => (.done (.ok answer) : Composition _ (Except Problem _))

variable {registry : Registry H} {plan : Plan H} {nonce : List UInt8} {selection : Selection}

theorem runOn_negotiate (hp : settle registry (fun _ => a) nonce selection plan.name = .ok plan)
    (hrun : runOn w deadline (ask plan.attester .formats).run c = (some (.ok a.formats), c')) :
    runOn w deadline (negotiateAll registry nonce selection [plan.name]).run c =
      (some (.ok [plan]), c') := by
  obtain ⟨-, hfound, hrequest⟩ := settle_eq_ok_iff.mp hp
  have hone : runOn w deadline (negotiate registry nonce selection plan.name).run c =
      (some (.ok plan), c') := by
    have hlookup : runOn w deadline (Compositor.ofExcept (lookup registry plan.name)).run c =
        (some (.ok plan.attester), c) := by
      rw [hfound]
      rfl
    refine (runOn_part_ok hlookup _).trans ?_
    refine (runOn_part_ok hrun _).trans ?_
    rw [hrequest]
    rfl
  rw [negotiateAll]
  exact (runOn_part_ok hone _).trans rfl

variable {time : Nat} {after : σ}

theorem runOn_invokeAtOnce (hc : c.underWay = [])
    (hr : w.receive plan.attester (.evidence plan.request)
        (w.send c.now plan.attester (.evidence plan.request) c.world).1
        (w.send c.now plan.attester (.evidence plan.request) c.world).2 =
      some (time, a.evidence plan.request, after))
    (ht : Clock.inTime deadline (max c.now time) = true) :
    runOn w deadline (invokeAtOnce [plan] [] []).run c =
      (some ((contribution plan (a.evidence plan.request)).map fun x => [x]),
        ⟨max c.now time, after, []⟩) := by
  let sent : Clock σ H T :=
    ⟨c.now, (w.send c.now plan.attester (.evidence plan.request) c.world).2,
      [(plan.attester, plan.request,
        (w.send c.now plan.attester (.evidence plan.request) c.world).1)]⟩
  have hproceed : (Clock.reply w deadline (.proceed plan [])).run c = (some none, sent) := by
    -- Nothing is under way that could be answered first, so the request is sent.
    have hnone : Clock.take w c (some c.now) = none := by
      simp [Clock.take, Clock.answers, Clock.first, hc]
    refine (run_bind_some (a := c) rfl _).trans ?_
    rw [hnone]
    simp only [hc]
    rfl
  have hawait : (Clock.reply w deadline (.await [plan])).run sent =
      (some (0, a.evidence plan.request), ⟨max c.now time, after, []⟩) := by
    have htake : Clock.take w sent deadline =
        some (0, a.evidence plan.request, ⟨max c.now time, after, []⟩) := by
      simp [Clock.take, Clock.answers, Clock.first, sent, hr, ht]
    refine (run_bind_some (a := sent) rfl _).trans ?_
    rw [htake]
    rfl
  rw [invokeAtOnce]
  refine (runOn_ask hproceed _).trans ?_
  change runOn w deadline (invokeAtOnce [] [plan] []).run sent = _
  rw [invokeAtOnce]
  refine (runOn_ask hawait _).trans ?_
  cases hx : contribution plan (a.evidence plan.request) with
  | error p =>
    simp only [Fin.getElem_fin, List.getElem_cons_zero, Fin.val_zero, hx]
    rfl
  | ok x =>
    simp only [Fin.getElem_fin, List.getElem_cons_zero, Fin.val_zero, hx, List.eraseIdx_zero,
      List.tail_cons, invokeAtOnce]
    rfl

theorem runOn_invoke (fanOut : FanOut) (hc : c.underWay = [])
    (hr : w.receive plan.attester (.evidence plan.request)
        (w.send c.now plan.attester (.evidence plan.request) c.world).1
        (w.send c.now plan.attester (.evidence plan.request) c.world).2 =
      some (time, a.evidence plan.request, after))
    (ht : Clock.inTime deadline (max c.now time) = true) :
    ∃ c', runOn w deadline (invoke fanOut [plan]).run c =
      (some ((contribution plan (a.evidence plan.request)).map fun x => [x]), c') := by
  cases fanOut with
  | parallel => exact ⟨_, runOn_invokeAtOnce hc hr ht⟩
  | sequential =>
    refine ⟨{ c with now := max c.now time, world := after }, ?_⟩
    have hask : runOn w deadline (ask plan.attester (.evidence plan.request)).run c =
        (some (.ok (a.evidence plan.request)), _) := runOn_query hr ht
    rw [invoke, invokeInTurn]
    refine (runOn_part_ok hask _).trans ?_
    cases hx : contribution plan (a.evidence plan.request) with
    | error p => rfl
    | ok x => rfl

/-- A request about one attester, which attends to it, comes on any clock to what it comes to
without a clock. -/
theorem clock_sole {s : Compositor.Settings} {body : List UInt8} {t : Task} {schedule : Schedule}
    (hs : schedule.deadline = none) (hc : c.underWay = [])
    (ht : prepare s.listMode registry body = .ok t)
    (htargets : t.targets s.listMode registry = [plan.name])
    (hplan : settle registry (fun _ => a) t.nonce (t.selection.getD []) plan.name = .ok plan)
    (ha : Attends w (some (c.now + s.timeout)) plan.attester a
      [.formats, .evidence plan.request] c.now c.world) :
    ((compose (Clock.run w) s registry body).run c).1 =
      (composed (environment schedule fun _ _ => a) s registry body).1 := by
  cases ha with
  | @asked _ _ _ time _ after hformats hintime ha =>
    cases ha with
    | asked hevidence hlater _ =>
      let told : Clock σ H T := ⟨max c.now time, after, c.underWay⟩
      have hask : runOn w (some (c.now + s.timeout)) (ask plan.attester .formats).run c =
          (some (.ok a.formats), told) := runOn_query hformats hintime
      have hnegotiate := runOn_negotiate hplan hask
      obtain ⟨c', hinvoke⟩ := runOn_invoke (c := told) s.fanOut hc hevidence hlater
      rw [compose_prepared ht, composed_sole hs ht htargets, hplan, collect, htargets,
        runOn_part_ok hnegotiate]
      change _ = (contribution plan (a.evidence plan.request) >>= fun x => merge [x]).map _
      cases hx : contribution plan (a.evidence plan.request) with
      | error p =>
        rw [hx] at hinvoke
        rw [runOn_part_error hinvoke]
        rfl
      | ok x =>
        rw [hx] at hinvoke
        rw [runOn_part_ok hinvoke]
        rfl

end Attestation.Proofs.AttentiveWorlds
