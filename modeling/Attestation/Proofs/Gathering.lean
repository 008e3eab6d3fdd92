import Mathlib.Data.List.Perm.Basic
import Attestation.Proofs.Course

namespace Attestation.Proofs.Gathering

open Compositor Course

variable {H : Type}

/-- The item of an answer that is a success. -/
def item (x : Plan H × EvidenceAnswer) : Item :=
  (x.1.name, ⟨x.1.request.contentType, x.2.evidence, none⟩)

/-- The problem of an answer that is a failure. -/
def refusal (name error : String) : Problem :=
  .internal s!"failed to get attestation report from {name}: {error}"

theorem contribution_eq_ok_iff {plan : Plan H} {a : EvidenceAnswer} {x : Item} :
    contribution plan a = .ok x ↔ a.status.result = true ∧ x = item (plan, a) := by
  unfold contribution
  constructor
  · intro h
    split at h
    · rename_i ha
      exact ⟨ha, (Except.ok.inj h).symm⟩
    · cases h
  · rintro ⟨ha, rfl⟩
    exact if_pos ha

theorem contribution_eq_error_iff {plan : Plan H} {a : EvidenceAnswer} {p : Problem} :
    contribution plan a = .error p ↔
      a.status.result = false ∧ p = refusal plan.name a.status.error := by
  unfold contribution
  constructor
  · intro h
    split at h
    · cases h
    · rename_i ha
      exact ⟨Bool.eq_false_iff.mpr ha, (Except.error.inj h).symm⟩
  · rintro ⟨ha, rfl⟩
    exact if_neg (Bool.eq_false_iff.mp ha)

def Successes (answered : List (Plan H × EvidenceAnswer)) : Prop :=
  ∀ x ∈ answered, x.2.status.result = true

theorem successes_nil : Successes ([] : List (Plan H × EvidenceAnswer)) :=
  fun _ hx => absurd hx List.not_mem_nil

theorem successes_cons {x : Plan H × EvidenceAnswer} {answered : List (Plan H × EvidenceAnswer)} :
    Successes (x :: answered) ↔ x.2.status.result = true ∧ Successes answered :=
  List.forall_mem_cons

/-- What comes of some items and of the answers after them, in their order. -/
inductive Outcome (items : List Item) :
    List (Plan H × EvidenceAnswer) → Option (Except Problem (List Item)) → Prop
  | complete {answered} (h : Successes answered) :
      Outcome items answered (some (.ok (items ++ answered.map item)))
  | failed {answered plan a} (h : Successes answered) (ha : a.status.result = false) :
      Outcome items (answered ++ [(plan, a)]) (some (.error (refusal plan.name a.status.error)))
  | late {answered} (h : Successes answered) : Outcome items answered none

theorem outcome_cons {items : List Item} {x : Plan H × EvidenceAnswer}
    {answered : List (Plan H × EvidenceAnswer)} {result : Option (Except Problem (List Item))}
    (hx : x.2.status.result = true) (h : Outcome (items ++ [item x]) answered result) :
    Outcome items (x :: answered) result := by
  cases h with
  | complete h =>
    rw [List.append_assoc, List.singleton_append, ← List.map_cons]
    exact Outcome.complete (successes_cons.mpr ⟨hx, h⟩)
  | failed h ha =>
    rw [← List.cons_append]
    exact Outcome.failed (successes_cons.mpr ⟨hx, h⟩) ha
  | late h => exact Outcome.late (successes_cons.mpr ⟨hx, h⟩)

theorem outcome_failed {items : List Item} {plan : Plan H} {a : EvidenceAnswer} {p : Problem}
    (h : contribution plan a = .error p) : Outcome items [(plan, a)] (some (.error p)) := by
  obtain ⟨ha, rfl⟩ := contribution_eq_error_iff.mp h
  have ho : Outcome items ([] ++ [(plan, a)]) _ := Outcome.failed successes_nil ha
  exact ho

/-- An answer that is waited for alone. -/
def turn (x : Plan H × EvidenceAnswer) : Event H :=
  ⟨.query x.1.attester (.evidence x.1.request), some x.2⟩

def evidenceOf (plan : Plan H) : H × Query := (plan.attester, .evidence plan.request)

theorem questions_turn (answered : List (Plan H × EvidenceAnswer)) :
    questions (answered.map turn) = (answered.map (·.1)).map evidenceOf := by
  rw [questions, List.filterMap_map, List.map_map]
  exact congrFun List.filterMap_eq_map answered

theorem invokeInTurn_cons (plan : Plan H) (plans : List (Plan H)) :
    (invokeInTurn (plan :: plans)).run =
      .ask (.query plan.attester (.evidence plan.request)) fun a =>
        match contribution plan a with
        | .error p => .done (.error p)
        | .ok x => (do return x :: (← invokeInTurn plans) : Part H (List Item)).run := by
  rw [invokeInTurn]
  refine congrArg (Dialogue.ask (Call.query plan.attester (.evidence plan.request))) ?_
  funext a
  simp only [Dialogue.bind, ExceptT.bindCont]
  cases contribution plan a <;> rfl

theorem invokeInTurn_follows {plans : List (Plan H)} {log : List (Event H)}
    {result : Option (Except Problem (List Item))}
    (h : Follows (invokeInTurn plans).run log result) :
    ∃ answered rest, plans = answered.map (·.1) ++ rest ∧ Outcome [] answered result ∧
      ((log = answered.map turn ∧ result ≠ none ∧ ∀ items, result = some (.ok items) → rest = []) ∨
        ∃ plan rest', rest = plan :: rest' ∧ result = none ∧
          log = answered.map turn ++ [⟨.query plan.attester (.evidence plan.request), none⟩]) := by
  induction plans generalizing log result with
  | nil =>
    obtain ⟨rfl, rfl⟩ := follows_done h
    exact ⟨[], [], rfl, Outcome.complete successes_nil, Or.inl ⟨rfl, nofun, fun _ _ => rfl⟩⟩
  | cons plan plans ih =>
    rw [invokeInTurn_cons] at h
    obtain ⟨rfl, rfl⟩ | ⟨a, rest, rfl, hr⟩ := follows_ask h
    · exact ⟨[], plan :: plans, rfl, Outcome.late successes_nil,
        Or.inr ⟨plan, plans, rfl, rfl, rfl⟩⟩
    cases hc : contribution plan a with
    | error p =>
      rw [hc] at hr
      obtain ⟨rfl, rfl⟩ := follows_done hr
      exact ⟨[(plan, a)], plans, rfl, outcome_failed hc, Or.inl ⟨rfl, nofun, nofun⟩⟩
    | ok x =>
      rw [hc] at hr
      obtain ⟨ha, rfl⟩ := contribution_eq_ok_iff.mp hc
      obtain ⟨_, ⟨⟩ | ⟨p⟩, hm⟩ | ⟨items, log₁, log₂, rfl, hm, hd⟩ := follows_part_bind hr
      · obtain ⟨answered, left, rfl, ho, ⟨_, hn, _⟩ | ⟨next, left', rfl, _, rfl⟩⟩ := ih hm
        · exact absurd rfl hn
        · cases ho with
          | late hs =>
            exact ⟨(plan, a) :: answered, next :: left', rfl,
              Outcome.late (successes_cons.mpr ⟨ha, hs⟩), Or.inr ⟨next, left', rfl, rfl, rfl⟩⟩
      · obtain ⟨answered, left, rfl, ho, ⟨rfl, _, _⟩ | ⟨_, _, _, hn, _⟩⟩ := ih hm
        · cases ho with
          | @failed answered next b hs hb =>
            refine ⟨(plan, a) :: (answered ++ [(next, b)]), left, rfl, ?_,
              Or.inl ⟨rfl, nofun, nofun⟩⟩
            rw [← List.cons_append]
            exact Outcome.failed (successes_cons.mpr ⟨ha, hs⟩) hb
        · cases hn
      · obtain ⟨rfl, rfl⟩ := follows_done hd
        obtain ⟨answered, left, rfl, ho, ⟨rfl, _, hall⟩ | ⟨_, _, _, hn, _⟩⟩ := ih hm
        · cases ho with
          | complete hs =>
            refine ⟨(plan, a) :: answered, left, rfl,
              Outcome.complete (successes_cons.mpr ⟨ha, hs⟩), Or.inl ⟨?_, nofun, ?_⟩⟩
            · rw [List.append_nil]
              rfl
            · intro _ _
              exact hall _ rfl
        · cases hn

theorem invokeInTurn_calls {plans : List (Plan H)} {log : List (Event H)}
    {result : Option (Except Problem (List Item))}
    (h : Follows (invokeInTurn plans).run log result) :
    ∀ e ∈ log, ∃ a r, e.call = .query a (.evidence r) := by
  have hturn : ∀ answered : List (Plan H × EvidenceAnswer), ∀ e ∈ answered.map turn,
      ∃ a r, e.call = .query a (.evidence r) := by
    intro answered e he
    obtain ⟨x, _, rfl⟩ := List.mem_map.mp he
    exact ⟨_, _, rfl⟩
  obtain ⟨answered, _, _, _, ⟨rfl, _⟩ | ⟨plan, _, _, _, rfl⟩⟩ := invokeInTurn_follows h
  · exact hturn answered
  · intro e he
    obtain he | he := List.mem_append.mp he
    · exact hturn answered e he
    · cases List.mem_singleton.mp he
      exact ⟨_, _, rfl⟩

theorem append_eq_append_cons {α : Type} {xs ys pre post : List α} {e : α} (he : e ∉ xs)
    (h : xs ++ ys = pre ++ e :: post) : ∃ mid, pre = xs ++ mid ∧ ys = mid ++ e :: post := by
  obtain ⟨mid, hpre, hys⟩ | ⟨mid, hxs, hmid⟩ := List.append_eq_append_iff.mp h
  · exact ⟨mid, hpre, hys⟩
  · cases mid with
    | nil =>
      rw [List.append_nil] at hxs
      exact ⟨[], by rw [hxs, List.append_nil], hmid.symm⟩
    | cons y mid =>
      cases hmid
      exact absurd (hxs ▸ List.mem_append_right _ List.mem_cons_self) he

theorem singleton_eq_append_cons {α : Type} {mid post : List α} {e e' : α}
    (h : [e'] = mid ++ e :: post) : e' = e ∧ post = [] := by
  cases mid with
  | nil =>
    obtain ⟨he, hpost⟩ := List.cons.inj h
    exact ⟨he, hpost.symm⟩
  | cons x mid =>
    have hnil := (List.cons.inj h).2
    exact absurd hnil.symm (List.append_ne_nil_of_right_ne_nil _ (List.cons_ne_nil _ _))

theorem success_of_mem_turn {answered : List (Plan H × EvidenceAnswer)} (hs : Successes answered)
    {h : H} {r : EvidenceRequest} {a : EvidenceAnswer}
    (he : (⟨.query h (.evidence r), some a⟩ : Event H) ∈ answered.map turn) :
    a.status.result = true := by
  obtain ⟨x, hx, heq⟩ := List.mem_map.mp he
  cases heq
  exact hs x hx

theorem invokeInTurn_failure {plans : List (Plan H)} {log pre post : List (Event H)}
    {result : Option (Except Problem (List Item))}
    (h : Follows (invokeInTurn plans).run log result) {b : H} {r : EvidenceRequest}
    {a : EvidenceAnswer} (hlog : log = pre ++ ⟨.query b (.evidence r), some a⟩ :: post)
    (ha : a.status.result = false) : post = [] := by
  have hno : ∀ answered, Successes answered →
      (⟨.query b (.evidence r), some a⟩ : Event H) ∉ answered.map turn := by
    intro answered hs he
    rw [success_of_mem_turn hs he] at ha
    cases ha
  obtain ⟨answered, rest, _, ho, ⟨rfl, hn, _⟩ | ⟨plan, _, _, rfl, rfl⟩⟩ := invokeInTurn_follows h
  · cases ho with
    | complete hs =>
      exact absurd (hlog ▸ List.mem_append_right _ List.mem_cons_self) (hno answered hs)
    | @failed answered plan b hs hb =>
      rw [List.map_append] at hlog
      obtain ⟨mid, _, hmid⟩ := append_eq_append_cons (hno answered hs) hlog
      exact (singleton_eq_append_cons hmid).2
    | late _ => exact absurd rfl hn
  · cases ho with
    | late hs =>
      obtain ⟨mid, _, hmid⟩ := append_eq_append_cons (hno answered hs) hlog
      cases (singleton_eq_append_cons hmid).1

theorem invokeInTurn_reaches {plans : List (Plan H)} {log : List (Event H)}
    {result : Option (Except Problem (List Item))}
    (h : Follows (invokeInTurn plans).run log result) (hlog : ∀ e ∈ log, e.reply ≠ none) :
    (∃ pre b r a, log = pre ++ [⟨.query b (.evidence r), some a⟩] ∧ a.status.result = false) ∨
      questions log = plans.map evidenceOf := by
  obtain ⟨answered, rest, rfl, ho, ⟨rfl, hn, hall⟩ | ⟨plan, _, _, rfl, rfl⟩⟩ :=
    invokeInTurn_follows h
  · cases ho with
    | complete hs =>
      apply Or.inr
      rw [questions_turn, hall _ rfl, List.append_nil]
    | @failed answered plan a hs ha =>
      refine Or.inl ⟨answered.map turn, plan.attester, plan.request, a, ?_, ha⟩
      rw [List.map_append]
      rfl
    | late _ => exact absurd rfl hn
  · exact absurd rfl (hlog _ (List.mem_append_right _ (List.mem_singleton_self _)))

/-- How far the plans that wait to be sent, and those that are under way, have come. -/
structure Progress (waiting underWay : List (Plan H)) (log : List (Event H))
    (result : Option (Except Problem (List Item))) (answered : List (Plan H × EvidenceAnswer))
    (sent unsent unanswered : List (Plan H)) : Prop where
  order : waiting = sent ++ unsent
  asked : questions log = sent.map evidenceOf
  each : (answered.map (·.1) ++ unanswered).Perm (underWay ++ sent)
  whole : ∀ items, result = some (.ok items) → unsent = [] ∧ unanswered = []
  cut : result = none → ∃ c, (⟨c, none⟩ : Event H) ∈ log ∧ c ≠ .await []

theorem progress_complete {plans : List (Plan H)} {log : List (Event H)} {items : List Item}
    {answered : List (Plan H × EvidenceAnswer)} {sent unsent unanswered : List (Plan H)}
    (h : Progress plans [] log (some (.ok items)) answered sent unsent unanswered) :
    sent = plans ∧ (answered.map (·.1)).Perm plans := by
  obtain ⟨rfl, rfl⟩ := h.whole items rfl
  have hsent : sent = plans := by rw [h.order, List.append_nil]
  have heach := h.each
  rw [List.append_nil, List.nil_append, hsent] at heach
  exact ⟨hsent, heach⟩

theorem progress_arrival {waiting underWay : List (Plan H)} {e : Event H} {log : List (Event H)}
    {result : Option (Except Problem (List Item))} {answered : List (Plan H × EvidenceAnswer)}
    {sent unsent unanswered : List (Plan H)} {i : Fin underWay.length} (a : EvidenceAnswer)
    (hq : e.question = none)
    (h : Progress waiting (underWay.eraseIdx i) log result answered sent unsent unanswered) :
    Progress waiting underWay (e :: log) result ((underWay.get i, a) :: answered) sent unsent
      unanswered where
  order := h.order
  asked := by
    rw [questions, List.filterMap_cons_none hq]
    exact h.asked
  each := by
    have hperm : (underWay.get i :: underWay.eraseIdx i).Perm underWay :=
      List.getElem_cons_eraseIdx_perm i.isLt
    exact (h.each.cons (underWay.get i)).trans (hperm.append_right sent)
  whole := h.whole
  cut := fun hr => by
    obtain ⟨c, hc, hne⟩ := h.cut hr
    exact ⟨c, List.mem_cons_of_mem _ hc, hne⟩

def AtOnce (waiting underWay : List (Plan H)) (done : List Item) (log : List (Event H))
    (result : Option (Except Problem (List Item))) : Prop :=
  Outcome done.reverse (arrivals log) result ∧
    ∃ sent unsent unanswered,
      Progress waiting underWay log result (arrivals log) sent unsent unanswered

/-- An answer that arrives either ends the course or leaves one plan less under way. -/
theorem atOnce_arrival {waiting underWay : List (Plan H)} {done : List Item} {e : Event H}
    {log : List (Event H)} {result : Option (Except Problem (List Item))}
    {i : Fin underWay.length} {a : EvidenceAnswer}
    (ih : ∀ x log, Follows (invokeAtOnce waiting (underWay.eraseIdx i) (x :: done)).run log result →
      AtOnce waiting (underWay.eraseIdx i) (x :: done) log result)
    (hq : e.question = none) (ha : e.arrival = some (underWay.get i, a))
    (h : Follows (match contribution (underWay.get i) a with
      | .error p => .done (.error p)
      | .ok x => (invokeAtOnce waiting (underWay.eraseIdx i) (x :: done)).run) log result) :
    AtOnce waiting underWay done (e :: log) result := by
  cases hc : contribution (underWay.get i) a with
  | error p =>
    rw [hc] at h
    obtain ⟨rfl, rfl⟩ := follows_done h
    rw [AtOnce, arrivals, List.filterMap_cons_some ha]
    refine ⟨outcome_failed hc, [], waiting, underWay.eraseIdx i, progress_arrival a hq ?_⟩
    exact ⟨rfl, rfl, by rw [List.append_nil]; exact List.Perm.refl _, nofun, nofun⟩
  | ok x =>
    rw [hc] at h
    obtain ⟨hs, rfl⟩ := contribution_eq_ok_iff.mp hc
    obtain ⟨ho, sent, unsent, unanswered, hp⟩ := ih _ _ h
    rw [AtOnce, arrivals, List.filterMap_cons_some ha]
    rw [List.reverse_cons] at ho
    exact ⟨outcome_cons hs ho, sent, unsent, unanswered, progress_arrival a hq hp⟩

/-- At once, each plan is sent at most once and answered at most once, and the items come in the
order of the answers. -/
theorem invokeAtOnce_follows {waiting underWay : List (Plan H)} {done : List Item}
    {log : List (Event H)} {result : Option (Except Problem (List Item))}
    (h : Follows (invokeAtOnce waiting underWay done).run log result) :
    AtOnce waiting underWay done log result := by
  -- Sending moves a plan from the waiting ones to those under way, an answer takes it from there;
  -- so both sides of `Progress.each` grow by the same plan.
  induction waiting, underWay, done using invokeAtOnce.induct generalizing log with
  | case1 done =>
    rw [invokeAtOnce] at h
    obtain ⟨rfl, rfl⟩ := follows_done h
    refine ⟨?_, [], [], [], rfl, rfl, List.Perm.refl _, fun _ _ => ⟨rfl, rfl⟩, nofun⟩
    have ho : Outcome done.reverse _ _ := Outcome.complete (successes_nil (H := H))
    rwa [List.map_nil, List.append_nil] at ho
  | case2 plan plans done ih =>
    rw [invokeAtOnce] at h
    obtain ⟨rfl, rfl⟩ | ⟨⟨i, a⟩, rest, rfl, hr⟩ := follows_ask h
    · refine ⟨Outcome.late successes_nil, [], [], plan :: plans, rfl, rfl, ?_, nofun, ?_⟩
      · rw [List.append_nil]
        exact List.Perm.refl _
      · exact fun _ => ⟨_, List.mem_singleton_self _, nofun⟩
    · exact atOnce_arrival (fun x log hx => ih i x hx) rfl rfl hr
  | case3 next rest underWay done ih₁ ih₂ =>
    rw [invokeAtOnce] at h
    obtain ⟨rfl, rfl⟩ | ⟨_ | ⟨i, a⟩, log, rfl, hr⟩ := follows_ask h
    · refine ⟨Outcome.late successes_nil, [], next :: rest, underWay, rfl, rfl, ?_, nofun, ?_⟩
      · rw [List.append_nil]
        exact List.Perm.refl _
      · exact fun _ => ⟨_, List.mem_singleton_self _, nofun⟩
    · obtain ⟨ho, sent, unsent, unanswered, hp⟩ := ih₁ hr
      refine ⟨ho, next :: sent, unsent, unanswered, congrArg (next :: ·) hp.order,
        congrArg (evidenceOf next :: ·) hp.asked, ?_, hp.whole, ?_⟩
      · have heach := hp.each
        rwa [List.append_assoc, List.singleton_append] at heach
      · intro hc
        obtain ⟨c, hm, hne⟩ := hp.cut hc
        exact ⟨c, List.mem_cons_of_mem _ hm, hne⟩
    · exact atOnce_arrival (fun x log hx => ih₂ i x hx) rfl rfl hr

def Arranged (fanOut : FanOut) (plans : List (Plan H)) (log : List (Event H))
    (answered : List (Plan H × EvidenceAnswer)) : Prop :=
  match fanOut with
  | .sequential => answered.map (·.1) <+: plans
  | .parallel => answered = arrivals log

theorem invoke_follows {fanOut : FanOut} {plans : List (Plan H)} {log : List (Event H)}
    {result : Option (Except Problem (List Item))}
    (h : Follows (invoke fanOut plans).run log result) :
    ∃ answered sent unsent unanswered, Outcome [] answered result ∧
      Progress plans [] log result answered sent unsent unanswered ∧
      Arranged fanOut plans log answered ∧ ∀ x ∈ answered, turn x ∈ log ∨ x ∈ arrivals log := by
  cases fanOut with
  | parallel =>
    obtain ⟨ho, sent, unsent, unanswered, hp⟩ := invokeAtOnce_follows h
    exact ⟨arrivals log, sent, unsent, unanswered, ho, hp, rfl, fun _ hx => Or.inr hx⟩
  | sequential =>
    obtain ⟨answered, rest, rfl, ho, ⟨rfl, hn, hall⟩ | ⟨plan, rest, rfl, rfl, rfl⟩⟩ :=
      invokeInTurn_follows h
    · refine ⟨answered, answered.map (·.1), rest, [], ho, ⟨rfl, questions_turn answered, ?_, ?_,
        fun hr => absurd hr hn⟩, List.prefix_append _ _,
        fun x hx => Or.inl (List.mem_map_of_mem hx)⟩
      · rw [List.append_nil]
        exact List.Perm.refl _
      · exact fun items hr => ⟨hall items hr, rfl⟩
    · refine ⟨answered, answered.map (·.1) ++ [plan], rest, [plan], ho, ⟨?_, ?_, ?_, nofun, ?_⟩,
        List.prefix_append _ _, ?_⟩
      · rw [List.append_assoc, List.singleton_append]
      · rw [questions_append, questions_turn, List.map_append]
        rfl
      · exact List.Perm.refl _
      · exact fun _ => ⟨_, List.mem_append_right _ (List.mem_singleton_self _), nofun⟩
      · exact fun x hx => Or.inl (List.mem_append_left _ (List.mem_map_of_mem hx))

end Attestation.Proofs.Gathering
