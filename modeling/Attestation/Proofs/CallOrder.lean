import Attestation.Mock
import Attestation.Proofs.Collecting
import Attestation.Proofs.EvidenceRequests
import Attestation.Proofs.Targets

namespace Attestation.Proofs.CallOrder

open Compositor Course Scheduling Negotiation Gathering Merging Collecting Targets
  EvidenceRequests
open Json (Value)

variable {H : Type} {registry : Registry H}

def formatsCalls (log : List (Event H)) : List H :=
  (questions log).filterMap fun x =>
    match x.2 with
    | .formats => some x.1
    | _ => none

/-- The attesters that were asked for evidence, in order, with the requests. -/
def evidenceCalls (log : List (Event H)) : List (H × EvidenceRequest) :=
  (questions log).filterMap fun x =>
    match x.2 with
    | .evidence r => some (x.1, r)
    | _ => none

@[simp] theorem formatsCalls_append (log₁ log₂ : List (Event H)) :
    formatsCalls (log₁ ++ log₂) = formatsCalls log₁ ++ formatsCalls log₂ := by
  rw [formatsCalls, questions_append, List.filterMap_append]
  rfl

@[simp] theorem evidenceCalls_append (log₁ log₂ : List (Event H)) :
    evidenceCalls (log₁ ++ log₂) = evidenceCalls log₁ ++ evidenceCalls log₂ := by
  rw [evidenceCalls, questions_append, List.filterMap_append]
  rfl

theorem formatsCalls_told (settled : List (Plan H × FormatsAnswer)) :
    formatsCalls (settled.map told) = settled.map (·.1.attester) := by
  rw [formatsCalls, questions_told, List.filterMap_map]
  exact congrFun List.filterMap_eq_map settled

theorem evidenceCalls_told (settled : List (Plan H × FormatsAnswer)) :
    evidenceCalls (settled.map told) = [] := by
  rw [evidenceCalls, questions_told, List.filterMap_map]
  exact List.filterMap_eq_nil_iff.mpr fun _ _ => rfl

theorem formatsCalls_sent {log : List (Event H)} {sent : List (Plan H)}
    (h : questions log = sent.map evidenceOf) : formatsCalls log = [] := by
  rw [formatsCalls, h, List.filterMap_map]
  exact List.filterMap_eq_nil_iff.mpr fun _ _ => rfl

theorem evidenceCalls_sent {log : List (Event H)} {sent : List (Plan H)}
    (h : questions log = sent.map evidenceOf) :
    evidenceCalls log = sent.map fun plan => (plan.attester, plan.request) := by
  rw [evidenceCalls, h, List.filterMap_map]
  exact congrFun List.filterMap_eq_map sent

/-- The calls are one for each of these names, in their order. -/
def CallsOf (registry : Registry H) (names : List String) (calls : List H) : Prop :=
  names.map registry.lookup = calls.map .ok

/-- The requests of all these names were settled in their order, and nothing else was done. -/
def AllSettled (registry : Registry H) (nonce : List UInt8) (selection : Selection)
    (names : List String) (log : List (Event H)) : Prop :=
  ∃ settled : List (Plan H × FormatsAnswer), names = settled.map (·.1.name) ∧
    log = settled.map told ∧ ∀ x ∈ settled, Settled registry nonce selection x.1 x.2

theorem callsOf_settled {nonce : List UInt8} {selection : Selection}
    {settled : List (Plan H × FormatsAnswer)}
    (h : ∀ x ∈ settled, Settled registry nonce selection x.1 x.2) :
    CallsOf registry (settled.map (·.1.name)) (settled.map (·.1.attester)) := by
  rw [CallsOf, List.map_map, List.map_map]
  exact List.map_congr_left fun x hx => lookup_eq_ok_iff.mp (h x hx).found

theorem not_allSettled_of_stops {nonce : List UInt8} {selection : Selection}
    {settled : List (Plan H × FormatsAnswer)} {name : String} {rest : List String}
    {stop log₁ log₂ : List (Event H)} {α : Type} {result : Option (Except Problem α)}
    (hs : Stops registry nonce selection name stop result)
    (hlog : settled.map told ++ stop = log₁ ++ log₂) :
    ¬ AllSettled registry nonce selection (settled.map (·.1.name) ++ name :: rest) log₁ := by
  rintro ⟨others, hnames, rfl, hall⟩
  -- The names that were settled before fall away on both sides, up to the one that stops.
  induction settled generalizing others with
  | nil =>
    obtain ⟨x, others, rfl, rfl, -⟩ := List.map_eq_cons_iff.mp hnames.symm
    obtain ⟨hfound, hreq⟩ := hall x List.mem_cons_self
    cases hs with
    | unknown _ => cases hlog
    | late _ => cases hlog
    | @refused h formats p hl hr =>
      cases hfound.symm.trans hl
      have he := (List.cons.inj hlog).1
      cases he
      rw [hreq] at hr
      cases hr
  | cons y settled ih =>
    obtain ⟨x, others, rfl, -, hnames⟩ := List.map_eq_cons_iff.mp hnames.symm
    exact ih others hnames.symm (fun z hz => hall z (List.mem_cons_of_mem _ hz))
      (List.cons.inj hlog).2

/-- The discipline of a course with these targets and this response. -/
structure Orderly (fanOut : FanOut) (registry : Registry H) (nonce : List UInt8)
    (selection : Selection) (targets : List String) (response : Except Problem Envelope)
    (log : List (Event H)) : Prop where
  /-- No other attester is called. -/
  inside : ∀ x ∈ questions log, ∃ name ∈ targets, registry.lookup name = .ok x.1
  formats : ∃ names, names <+: targets ∧ CallsOf registry names (formatsCalls log)
  evidence : ∃ names, names <+: targets ∧ CallsOf registry names ((evidenceCalls log).map (·.1))
  /-- All requests are settled before the first one is sent. -/
  settledFirst : ∀ pre e post h r, log = pre ++ e :: post → e.question = some (h, .evidence r) →
    ∃ first more, pre = first ++ more ∧ AllSettled registry nonce selection targets first
  unsettled : (¬ ∃ first more, log = first ++ more ∧
    AllSettled registry nonce selection targets first) → evidenceCalls log = []
  clientError : ∀ p, response = .error p → p.status < 500 → evidenceCalls log = []
  sameNonce : ∀ x ∈ evidenceCalls log, x.2.nonce = nonce
  /-- One after the other means that no call is made while another one is under way. -/
  alone : fanOut = .sequential → ∀ e ∈ log, ∃ h q, e.call = .query h q
  lastFails : fanOut = .sequential → ∀ pre h r a post,
    log = pre ++ ⟨.query h (.evidence r), some a⟩ :: post → a.status.result = false → post = []
  /-- One after the other, nothing but a failure or the deadline keeps a target from being
  asked. -/
  reaches : fanOut = .sequential →
    (∃ first more, log = first ++ more ∧ AllSettled registry nonce selection targets first) →
    (∀ e ∈ log, e.reply ≠ none) →
    (∃ pre h r a, log = pre ++ [⟨.query h (.evidence r), some a⟩] ∧ a.status.result = false) ∨
      CallsOf registry targets ((evidenceCalls log).map (·.1))
  complete : ∀ e, response = .ok e → CallsOf registry targets (formatsCalls log) ∧
    CallsOf registry targets ((evidenceCalls log).map (·.1))

theorem question_of_query {e : Event H} {h : H} {q : Query} (hc : e.call = .query h q) :
    e.question = some (h, q) := by
  obtain ⟨c, r⟩ := e
  cases hc
  rfl

theorem evidenceCalls_eq_nil {log : List (Event H)}
    (h : ∀ e ∈ log, ∃ a, e.call = .query a .formats) : evidenceCalls log = [] := by
  apply List.filterMap_eq_nil_iff.mpr
  intro x hx
  obtain ⟨e, he, hx⟩ := List.mem_filterMap.mp hx
  obtain ⟨a, hc⟩ := h e he
  rw [question_of_query hc] at hx
  cases hx
  rfl

theorem stops_calls {nonce : List UInt8} {selection : Selection} {name : String}
    {log : List (Event H)} {α : Type} {result : Option (Except Problem α)}
    (h : Stops registry nonce selection name log result) :
    ∀ e ∈ log, ∃ a, registry.lookup name = .ok a ∧ e.call = .query a .formats := by
  intro e he
  cases h with
  | unknown _ => cases he
  | late hl | refused hl _ =>
    cases List.mem_singleton.mp he
    exact ⟨_, lookup_eq_ok_iff.mp hl, rfl⟩

theorem told_calls {nonce : List UInt8} {selection : Selection}
    {settled : List (Plan H × FormatsAnswer)}
    (h : ∀ x ∈ settled, Settled registry nonce selection x.1 x.2) :
    ∀ e ∈ settled.map told, ∃ name ∈ settled.map (·.1.name), ∃ a,
      registry.lookup name = .ok a ∧ e.call = .query a .formats := by
  intro e he
  obtain ⟨x, hx, rfl⟩ := List.mem_map.mp he
  exact ⟨x.1.name, List.mem_map_of_mem hx, x.1.attester, lookup_eq_ok_iff.mp (h x hx).found, rfl⟩

theorem orderly_of_stops {fanOut : FanOut} {nonce : List UInt8} {selection : Selection}
    {settled : List (Plan H × FormatsAnswer)} {name : String} {rest : List String}
    {stop : List (Event H)} {α : Type} {result : Option (Except Problem α)}
    {response : Except Problem Envelope}
    (hall : ∀ x ∈ settled, Settled registry nonce selection x.1 x.2)
    (hs : Stops registry nonce selection name stop result)
    (hresponse : ∀ e, response ≠ .ok e) :
    Orderly fanOut registry nonce selection (settled.map (·.1.name) ++ name :: rest) response
      (settled.map told ++ stop) := by
  have hcalls : ∀ e ∈ settled.map told ++ stop,
      ∃ n ∈ settled.map (·.1.name) ++ name :: rest, ∃ a,
        registry.lookup n = .ok a ∧ e.call = .query a .formats := by
    intro e he
    obtain he | he := List.mem_append.mp he
    · obtain ⟨n, hn, hx⟩ := told_calls hall e he
      exact ⟨n, List.mem_append_left _ hn, hx⟩
    · exact ⟨name, List.mem_append_right _ List.mem_cons_self, stops_calls hs e he⟩
  have hformats : ∀ e ∈ settled.map told ++ stop, ∃ a, e.call = .query a .formats := by
    intro e he
    obtain ⟨_, _, a, _, hc⟩ := hcalls e he
    exact ⟨a, hc⟩
  have hnone := evidenceCalls_eq_nil hformats
  -- All that is said about requests for evidence holds because there are none.
  have hno : ∀ e ∈ settled.map told ++ stop, ∀ h r, e.question ≠ some (h, .evidence r) := by
    intro e he h r hq
    obtain ⟨a, hc⟩ := hformats e he
    rw [question_of_query hc] at hq
    cases hq
  constructor
  case inside =>
    intro x hx
    obtain ⟨e, he, hx⟩ := List.mem_filterMap.mp hx
    obtain ⟨n, hn, a, hl, hc⟩ := hcalls e he
    rw [question_of_query hc] at hx
    cases hx
    exact ⟨n, hn, hl⟩
  case formats =>
    have hsettled := callsOf_settled hall
    rw [formatsCalls_append, formatsCalls_told]
    obtain hq | ⟨a, hl, hq⟩ := stops_questions hs
    · refine ⟨settled.map (·.1.name), List.prefix_append _ _, ?_⟩
      rwa [formatsCalls, hq, List.filterMap_nil, List.append_nil]
    · refine ⟨settled.map (·.1.name) ++ [name], ⟨rest, by simp⟩, ?_⟩
      rw [formatsCalls, hq, CallsOf, List.map_append, List.map_append, hsettled]
      exact congrArg (_ ++ [·]) (lookup_eq_ok_iff.mp hl)
  case evidence =>
    refine ⟨[], List.nil_prefix, ?_⟩
    rw [hnone]
    rfl
  case settledFirst =>
    intro pre e post h r hlog hq
    exact absurd hq (hno e (hlog ▸ List.mem_append_right _ List.mem_cons_self) h r)
  case unsettled => exact fun _ => hnone
  case clientError => exact fun _ _ _ => hnone
  case sameNonce =>
    rw [hnone]
    exact fun x hx => absurd hx List.not_mem_nil
  case alone =>
    intro _ e he
    obtain ⟨a, hc⟩ := hformats e he
    exact ⟨a, _, hc⟩
  case lastFails =>
    intro _ pre h r a post hlog _
    exact absurd rfl (hno _ (hlog ▸ List.mem_append_right _ List.mem_cons_self) h r)
  case reaches =>
    rintro _ ⟨first, more, hlog, hfirst⟩
    exact absurd hfirst (not_allSettled_of_stops hs hlog)
  case complete => exact fun e he => absurd he (hresponse e)

theorem internal_of_gathered {timeout : Nat} {t : Task}
    {answered : List (Plan H × EvidenceAnswer)}
    {gathered : Option (Except Problem (List Item))} (ho : Outcome [] answered gathered)
    {p : Problem} (h : conclude timeout t (gathered.map (· >>= merge)) = .error p) :
    ¬ p.status < 500 := by
  cases ho with
  | late _ =>
    cases h
    exact Nat.lt_irrefl 500
  | failed _ _ =>
    cases h
    exact Nat.lt_irrefl 500
  | complete _ =>
    rw [List.nil_append] at h
    cases hm : merge (answered.map item) with
    | ok c =>
      change (merge (answered.map item)).map _ = _ at h
      rw [hm] at h
      cases h
    | error q =>
      change (merge (answered.map item)).map _ = _ at h
      rw [hm] at h
      cases h
      obtain ⟨detail, rfl⟩ := merge_error_internal hm
      exact Nat.lt_irrefl 500

theorem gathered_of_ok {timeout : Nat} {t : Task}
    {gathered : Option (Except Problem (List Item))} {e : Envelope}
    (h : conclude timeout t (gathered.map (· >>= merge)) = .ok e) :
    ∃ items, gathered = some (.ok items) := by
  match gathered, h with
  | some (.ok items), _ => exact ⟨items, rfl⟩

theorem orderly_of_gathered {fanOut : FanOut} {nonce : List UInt8} {selection : Selection}
    {settled : List (Plan H × FormatsAnswer)} {log : List (Event H)}
    {gathered : Option (Except Problem (List Item))} {timeout : Nat} {t : Task}
    (hall : ∀ x ∈ settled, Settled registry nonce selection x.1 x.2)
    (hi : Follows (invoke fanOut (settled.map (·.1))).run log gathered) :
    Orderly fanOut registry nonce selection (settled.map (·.1.name))
      (conclude timeout t (gathered.map (· >>= merge))) (settled.map told ++ log) := by
  obtain ⟨answered, sent, unsent, unanswered, ho, hp, _, _⟩ := invoke_follows hi
  have hplan : ∀ plan ∈ sent, ∃ x ∈ settled, x.1 = plan := by
    intro plan hplan
    have hm : plan ∈ settled.map (·.1) := hp.order ▸ List.mem_append_left _ hplan
    exact List.mem_map.mp hm
  have hcalls : evidenceCalls (settled.map told ++ log) =
      sent.map fun plan => (plan.attester, plan.request) := by
    rw [evidenceCalls_append, evidenceCalls_told, evidenceCalls_sent hp.asked, List.nil_append]
  have hformats : formatsCalls (settled.map told ++ log) = settled.map (·.1.attester) := by
    rw [formatsCalls_append, formatsCalls_told, formatsCalls_sent hp.asked, List.append_nil]
  have hsettled : AllSettled registry nonce selection (settled.map (·.1.name))
      (settled.map told) := ⟨settled, rfl, rfl, hall⟩
  have hnames : settled.map (·.1.name) = sent.map (·.name) ++ unsent.map (·.name) := by
    rw [← List.map_append, ← hp.order, List.map_map]
    rfl
  have hsent : CallsOf registry (sent.map (·.name)) (sent.map (·.attester)) := by
    rw [CallsOf, List.map_map, List.map_map]
    apply List.map_congr_left
    intro plan hm
    obtain ⟨x, hx, rfl⟩ := hplan plan hm
    exact lookup_eq_ok_iff.mp (hall x hx).found
  have hfst : (evidenceCalls (settled.map told ++ log)).map (·.1) = sent.map (·.attester) := by
    rw [hcalls, List.map_map]
    rfl
  have htold : ∀ {e : Event H} {h : H} {r : EvidenceRequest},
      e.question = some (h, .evidence r) → e ∉ settled.map told := by
    intro e h r hq he
    obtain ⟨x, _, rfl⟩ := List.mem_map.mp he
    cases hq
  constructor
  case inside =>
    intro x hx
    rw [questions_append] at hx
    obtain hx | hx := List.mem_append.mp hx
    · rw [questions_told] at hx
      obtain ⟨y, hy, rfl⟩ := List.mem_map.mp hx
      exact ⟨y.1.name, List.mem_map_of_mem hy, lookup_eq_ok_iff.mp (hall y hy).found⟩
    · rw [hp.asked] at hx
      obtain ⟨plan, hm, rfl⟩ := List.mem_map.mp hx
      obtain ⟨y, hy, rfl⟩ := hplan plan hm
      exact ⟨y.1.name, List.mem_map_of_mem hy, lookup_eq_ok_iff.mp (hall y hy).found⟩
  case formats => exact ⟨_, List.prefix_refl _, hformats ▸ callsOf_settled hall⟩
  case evidence => exact ⟨sent.map (·.name), ⟨_, hnames.symm⟩, hfst ▸ hsent⟩
  case settledFirst =>
    intro pre e post h r hlog hq
    obtain ⟨more, rfl, _⟩ := append_eq_append_cons (htold hq) hlog
    exact ⟨_, more, rfl, hsettled⟩
  case unsettled => exact fun hn => absurd ⟨_, log, rfl, hsettled⟩ hn
  case clientError => exact fun p hr hlt => absurd hlt (internal_of_gathered ho hr)
  case sameNonce =>
    intro x hx
    rw [hcalls] at hx
    obtain ⟨plan, hm, rfl⟩ := List.mem_map.mp hx
    obtain ⟨y, hy, rfl⟩ := hplan plan hm
    obtain ⟨_, _, _, hr⟩ := request_eq_ok_iff.mp (hall y hy).request
    exact congrArg EvidenceRequest.nonce hr
  case alone =>
    rintro rfl e he
    obtain he | he := List.mem_append.mp he
    · obtain ⟨_, _, a, _, hc⟩ := told_calls hall e he
      exact ⟨a, _, hc⟩
    · obtain ⟨a, r, hc⟩ := invokeInTurn_calls hi e he
      exact ⟨a, _, hc⟩
  case lastFails =>
    rintro rfl pre h r a post hlog ha
    obtain ⟨mid, _, hmid⟩ := append_eq_append_cons (htold rfl) hlog
    exact invokeInTurn_failure hi hmid ha
  case reaches =>
    rintro rfl _ hreply
    obtain ⟨pre, h, r, a, rfl, ha⟩ | hq :=
      invokeInTurn_reaches hi fun e he => hreply e (List.mem_append_right _ he)
    · exact Or.inl ⟨settled.map told ++ pre, h, r, a, (List.append_assoc ..).symm, ha⟩
    · apply Or.inr
      rw [evidenceCalls_append, evidenceCalls_told, evidenceCalls_sent hq, List.nil_append,
        List.map_map, List.map_map]
      exact callsOf_settled hall
  case complete =>
    intro e he
    obtain ⟨items, rfl⟩ := gathered_of_ok he
    have hwhole := (progress_complete hp).1
    rw [hwhole, List.map_map] at hsent
    rw [hfst, hwhole]
    exact ⟨hformats ▸ callsOf_settled hall, hsent⟩

/-- Every run of a composition is orderly: no call is made for a request that is refused, and the
calls for any other one keep to its targets, their order, and its nonce. -/
theorem composed_orderly (hnames : registry.names.Nodup) (env : Environment H)
    (s : Compositor.Settings) (body : List UInt8) :
    (∀ p, prepare s.listMode registry body = .error p →
      composed env s registry body = (.error p, [])) ∧
    ∀ t, prepare s.listMode registry body = .ok t →
      decodeNonce (Challenge.ofBody body).nonce = .ok t.nonce ∧
      (t.targets s.listMode registry).Pairwise (· < ·) ∧
      (∀ name, name ∈ t.targets s.listMode registry ↔
        IsTarget s.listMode registry (Challenge.ofBody body).selection name) ∧
      Orderly s.fanOut registry t.nonce (t.selection.getD []) (t.targets s.listMode registry)
        (composed env s registry body).1 (composed env s registry body).2 := by
  refine ⟨fun p hp => composed_refused hp, fun t ht => ?_⟩
  obtain ⟨hn, _, hd, _⟩ := prepare_eq_ok_iff.mp ht
  refine ⟨hn ▸ hd, targets_ascending hnames ht, mem_targets_iff ht, ?_⟩
  rw [composed_prepared ht]
  obtain ⟨settled, hall, ⟨name, rest, stop, htargets, hlog, hs⟩ |
    ⟨log, gathered, htargets, hlog, hi, hr⟩⟩ := collect_stages (play_follows env 0
      (collect s.listMode s.fanOut registry t).run)
  · rw [hlog, htargets]
    exact orderly_of_stops hall hs fun _ => conclude_of_stops hs
  · rw [hlog, htargets, hr]
    exact orderly_of_gathered hall hi

/-- The deadline passes when one of two requests has been sent. -/
theorem composed_orderly_pair :
    let registry := Mock.registry [("a", ⟨"x", [1]⟩), ("b", ⟨"y", [2, 3]⟩)]
    let course := composed (environment { lastFirst with deadline := some 3 } fun _ => id)
      ⟨.selected, .parallel, 0⟩ registry pairRequest
    registry.names.Nodup ∧
      Orderly .parallel registry [1] [("a", .object [("content-type", .string "x")]), ("b", .null)]
        ["a", "b"] course.1 course.2 := by
  intro registry course
  have hnames : registry.names.Nodup := by decide
  obtain ⟨-, -, -, horderly⟩ := (composed_orderly hnames
    (environment { lastFirst with deadline := some 3 } fun _ => id) ⟨.selected, .parallel, 0⟩
    pairRequest).2 pairTask (prepare_pairRequest (List.cons_ne_nil _ _))
  exact ⟨hnames, horderly⟩

end Attestation.Proofs.CallOrder
