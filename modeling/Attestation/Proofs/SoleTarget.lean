import Attestation.Proofs.InTurn

namespace Attestation.Proofs.SoleTarget

open Compositor Course Scheduling Negotiation InTurn

variable {H : Type} {schedule : Schedule} {answers : Nat → H → SubAttester} {registry : Registry H}

theorem comes_call {α : Type} {env : Environment H} {step n : Nat} {c : Call H} {r : c.Reply}
    {next : c.Reply → Composition H (Except Problem α)} {v : Except Problem α}
    (hr : env step c = some r) (hn : Comes env (step + 1) (ExceptT.mk (next r)) v n) :
    Comes env step (ExceptT.mk (.ask c next)) v (n + 1) := by
  have hplay : env.play step (.ask c next) = _ := Environment.play_ask_some hr next
  obtain ⟨hvalue, hlength⟩ := hn
  refine ⟨?_, fun a ha => ?_⟩
  · exact (congrArg Prod.fst hplay).trans hvalue
  · have hlog := congrArg (fun x => x.2.length) hplay
    exact hlog.trans (congrArg (· + 1) (hlength a ha))

theorem comes_invokeAtOnce (hs : schedule.deadline = none) (step : Nat) (plan : Plan H) :
    Comes (environment schedule answers) step (invokeAtOnce [plan] [] [])
      (do
        let x ← contribution plan ((answers (step + 1) plan.attester).evidence plan.request)
        return [x]) 2 := by
  have hsent : environment schedule answers step (.proceed plan []) = some none := by
    rw [environment_eq hs, reply]
    have hearly : schedule.early step 0 = none := by
      cases h : schedule.early step 0 with
      | none => rfl
      | some i => exact i.elim0
    exact congrArg (fun i => some (Option.map (pick (answers step) []) i)) hearly
  have hfirst : schedule.first (step + 1) 0 = 0 := Fin.ext (by omega)
  have hanswered : environment schedule answers (step + 1) (.await [plan]) =
      some (0, (answers (step + 1) plan.attester).evidence plan.request) := by
    rw [environment_eq hs, reply]
    simp only [List.length_nil, hfirst]
    rfl
  rw [invokeAtOnce]
  refine comes_call hsent ?_
  change Comes _ _ (invokeAtOnce [] [plan] []) _ 1
  rw [invokeAtOnce]
  refine comes_call hanswered ?_
  cases hx : contribution plan ((answers (step + 1) plan.attester).evidence plan.request) with
  | error p =>
    simp only [Fin.getElem_fin, List.getElem_cons_zero, Fin.val_zero, hx]
    exact ⟨rfl, fun _ h => by cases h⟩
  | ok x =>
    simp only [Fin.getElem_fin, List.getElem_cons_zero, Fin.val_zero, hx, List.eraseIdx_zero,
      List.tail_cons, invokeAtOnce]
    exact comes_pure [x]

def evidenceStep : FanOut → Nat
  | .sequential => 1
  | .parallel => 2

theorem comes_invoke (hs : schedule.deadline = none) (fanOut : FanOut) (plan : Plan H) :
    ∃ n, Comes (environment schedule answers) 1 (invoke fanOut [plan])
      (do
        let x ← contribution plan
          ((answers (evidenceStep fanOut) plan.attester).evidence plan.request)
        return [x]) n := by
  cases fanOut with
  | sequential => exact ⟨1, comes_invokeInTurn hs [plan]⟩
  | parallel => exact ⟨2, comes_invokeAtOnce hs 1 plan⟩

theorem comes_collect_sole (hs : schedule.deadline = none) {mode : ListMode} {t : Task}
    {name : String} (htargets : t.targets mode registry = [name]) (fanOut : FanOut) :
    ∃ n, Comes (environment schedule answers) 0 (collect mode fanOut registry t)
      (do
        let plan ← settle registry (answers 0) t.nonce (t.selection.getD []) name
        let x ← contribution plan
          ((answers (evidenceStep fanOut) plan.attester).evidence plan.request)
        merge [x]) n := by
  have hnegotiate : Comes (environment schedule answers) 0
      (negotiateAll registry t.nonce (t.selection.getD []) [name]) _ 1 :=
    comes_negotiateAll hs [name]
  rw [settleFrom] at hnegotiate
  rw [collect, htargets]
  cases hplan : settle registry (answers 0) t.nonce (t.selection.getD []) name with
  | error p =>
    rw [hplan] at hnegotiate
    exact ⟨0, comes_bind_error hnegotiate _⟩
  | ok plan =>
    rw [hplan] at hnegotiate
    obtain ⟨n, hinvoke⟩ : ∃ n, Comes (environment schedule answers) 1 (invoke fanOut [plan]) _ n :=
      comes_invoke hs fanOut plan
    have hmerge := comes_bind hinvoke fun items _ => comes_ofExcept (merge items)
    rw [bind_assoc] at hmerge
    exact ⟨_, comes_bind_ok hnegotiate hmerge⟩

/-- What a request comes to that is about one target. -/
theorem composed_sole (hs : schedule.deadline = none) {s : Compositor.Settings} {body : List UInt8}
    {t : Task} {name : String} (ht : prepare s.listMode registry body = .ok t)
    (htargets : t.targets s.listMode registry = [name]) :
    (composed (environment schedule answers) s registry body).1 =
      (do
        let plan ← settle registry (answers 0) t.nonce (t.selection.getD []) name
        let x ← contribution plan
          ((answers (evidenceStep s.fanOut) plan.attester).evidence plan.request)
        merge [x]).map (Envelope.wrap t.nonceText) := by
  obtain ⟨n, hvalue, _⟩ : ∃ n, Comes (environment schedule answers) 0
      (collect s.listMode s.fanOut registry t) _ n := comes_collect_sole hs htargets s.fanOut
  rw [composed_prepared ht, hvalue]
  rfl

end Attestation.Proofs.SoleTarget
