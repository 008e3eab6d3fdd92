import Attestation.Proofs.Course

namespace Attestation.Proofs.Scheduling

open Compositor Course

variable {H α : Type}

/-- What the attesters do not decide. -/
structure Schedule where
  /-- Which one of `n` requests under way is answered before another one is sent, if any. -/
  early (step n : Nat) : Option (Fin n)
  /-- Which one of `n + 1` requests under way is answered first. -/
  first (step n : Nat) : Fin (n + 1)
  /-- The step at which the deadline passes, if it does. -/
  deadline : Option Nat

/-- All requests are sent, then the last one of those under way is answered first. -/
def lastFirst : Schedule := ⟨fun _ _ => none, fun _ n => Fin.last n, none⟩

def pick (attesters : H → SubAttester) (plans : List (Plan H)) (i : Fin plans.length) :
    Fin plans.length × EvidenceAnswer :=
  (i, (attesters (plans.get i).attester).evidence (plans.get i).request)

def reply (s : Schedule) (attesters : H → SubAttester) (step : Nat) :
    (c : Call H) → Option c.Reply
  | .query h q => some ((attesters h).answer q)
  | .proceed _ underWay => some ((s.early step underWay.length).map (pick attesters underWay))
  | .await [] => none
  | .await (plan :: plans) => some (pick attesters (plan :: plans) (s.first step plans.length))

/-- Attesters, which may answer differently at each step, on a schedule. -/
def environment (s : Schedule) (answers : Nat → H → SubAttester) : Environment H := fun step c =>
  if s.deadline = some step then none else reply s (answers step) step c

theorem environment_eq {s : Schedule} (hs : s.deadline = none) (answers : Nat → H → SubAttester)
    (step : Nat) (c : Call H) : environment s answers step c = reply s (answers step) step c := by
  rw [environment, hs, if_neg (Option.some_ne_none step).symm]

theorem environment_none {s : Schedule} (hs : s.deadline = none) {answers : Nat → H → SubAttester}
    {step : Nat} {c : Call H} (h : environment s answers step c = none) : c = .await [] := by
  rw [environment_eq hs] at h
  match c, h with
  | .await [], _ => rfl

/-- The attesters gave all the answers, and gave them in time. -/
structure Answers (attesters : H → SubAttester) (log : List (Event H)) : Prop where
  timely : ∀ c, (⟨c, none⟩ : Event H) ∈ log → c = .await []
  query : ∀ h q a, (⟨.query h q, some a⟩ : Event H) ∈ log → a = (attesters h).answer q
  arrival : ∀ x ∈ arrivals log, x.2 = (attesters x.1.attester).evidence x.1.request

theorem answers_append {attesters : H → SubAttester} {log₁ log₂ : List (Event H)}
    (h : Answers attesters (log₁ ++ log₂)) : Answers attesters log₁ ∧ Answers attesters log₂ := by
  constructor
  · exact ⟨fun c hc => h.timely c (List.mem_append_left _ hc),
      fun b q a hq => h.query b q a (List.mem_append_left _ hq),
      fun x hx => h.arrival x (by
        rw [arrivals_append]
        exact List.mem_append_left _ hx)⟩
  · exact ⟨fun c hc => h.timely c (List.mem_append_right _ hc),
      fun b q a hq => h.query b q a (List.mem_append_right _ hq),
      fun x hx => h.arrival x (by
        rw [arrivals_append]
        exact List.mem_append_right _ hx)⟩

theorem reply_query {s : Schedule} {attesters : H → SubAttester} {step : Nat} {h : H} {q : Query}
    {a : q.Answer} (hr : reply s attesters step (.query h q) = some a) :
    a = (attesters h).answer q :=
  (Option.some.inj hr).symm

theorem reply_arrival {s : Schedule} {attesters : H → SubAttester} {step : Nat} {e : Event H}
    {x : Plan H × EvidenceAnswer} (hr : e.reply = reply s attesters step e.call)
    (hx : e.arrival = some x) : x.2 = (attesters x.1.attester).evidence x.1.request := by
  match e, hr, hx with
  | ⟨.proceed _ underWay, some (some (i, a))⟩, hr, hx =>
    obtain ⟨j, _, hj⟩ := Option.map_eq_some_iff.mp (Option.some.inj hr).symm
    cases hj
    cases hx
    rfl
  | ⟨.await (plan :: plans), some (i, a)⟩, hr, hx =>
    cases Option.some.inj hr
    cases hx
    rfl

theorem play_answers {s : Schedule} (hs : s.deadline = none) (attesters : H → SubAttester)
    (step : Nat) (x : Composition H α) :
    Answers attesters ((environment s fun _ => attesters).play step x).2 := by
  have hreply : ∀ e ∈ ((environment s fun _ => attesters).play step x).2,
      ∃ k, e.reply = reply s attesters k e.call := by
    intro e he
    obtain ⟨k, hk⟩ := play_answered _ step x e he
    rw [environment_eq hs] at hk
    exact ⟨k, hk⟩
  refine ⟨?_, ?_, ?_⟩
  · intro c hc
    obtain ⟨k, hk⟩ := play_answered _ step x _ hc
    exact environment_none hs hk.symm
  · intro h q a hq
    obtain ⟨k, hk⟩ := hreply _ hq
    exact reply_query hk.symm
  · intro x hx
    obtain ⟨e, he, hax⟩ := List.mem_filterMap.mp hx
    obtain ⟨k, hk⟩ := hreply e he
    exact reply_arrival hk hax

end Attestation.Proofs.Scheduling
