import Attestation.Mock
import Attestation.Proofs.Composing

namespace Attestation.Proofs.ModeAgreement

open Compositor Course Scheduling Negotiation Gathering Merging Collecting Composing Targets CmwText
  SelectionOrder
open Cmw (Collection)

variable {H : Type} {registry : Registry H} {attesters : H → SubAttester}

theorem get?_perm {c d : Collection} (hl : c.labels.Nodup) (hp : c.items.Perm d.items)
    (label : String) : c.get? label = d.get? label := by
  have hlabels : c.labels.Perm d.labels := hp.map Prod.fst
  by_cases hm : label ∈ c.labels
  · obtain ⟨x, hx, rfl⟩ := List.mem_map.mp hm
    rw [get?_of_mem hl hx, get?_of_mem (hlabels.nodup_iff.mp hl) (hp.mem_iff.mp hx)]
  · have hd : label ∉ d.labels := fun h => hm (hlabels.mem_iff.mpr h)
    rw [(get?_eq_none_iff c label).mpr hm, (get?_eq_none_iff d label).mpr hd]

theorem answered_eq_map {answered : List (Plan H × EvidenceAnswer)}
    (he : ∀ x ∈ answered, x.2 = evidenceFor attesters x.1) :
    answered = (answered.map (·.1)).map fun plan => (plan, evidenceFor attesters plan) := by
  rw [List.map_map]
  refine (List.map_id answered).symm.trans (List.map_congr_left fun x hx => ?_)
  exact Prod.ext rfl (he x hx)

theorem items_perm {xs ys : List (Plan H × EvidenceAnswer)}
    (hxs : ∀ x ∈ xs, x.2 = evidenceFor attesters x.1)
    (hys : ∀ y ∈ ys, y.2 = evidenceFor attesters y.1) (hp : (xs.map (·.1)).Perm (ys.map (·.1))) :
    (collectionOf xs).items.Perm (collectionOf ys).items := by
  have hanswered : xs.Perm ys := by
    rw [answered_eq_map hxs, answered_eq_map hys]
    exact hp.map _
  exact (hanswered.map item).map _

theorem targets_sorted {mode : ListMode} {body : List UInt8} {t : Task}
    (ht : prepare mode registry body = .ok t) :
    (t.targets mode registry).Pairwise (· ≤ ·) := by
  cases mode with
  | all => exact sortNames_sorted registry.names
  | selected =>
    rw [targets_selected ht]
    exact (ascending_entries body).imp fun h =>
      String.not_lt.mp fun h' => String.lt_irrefl _ (String.lt_trans h h')

/-- The plan to which an attester gives no evidence. -/
def Fails (attesters : H → SubAttester) (plan : Plan H) : Prop :=
  (evidenceFor attesters plan).status.result = false

def failure (attesters : H → SubAttester) (plan : Plan H) : Problem :=
  refusal plan.name (evidenceFor attesters plan).status.error

variable {schedule : Schedule} {s : Compositor.Settings} {body : List UInt8} {t : Task}

theorem composed_failure (hs : schedule.deadline = none)
    (ht : prepare s.listMode registry body = .ok t) {plans : List (Plan H)}
    (hplans : plansOf s.listMode registry attesters t = .ok plans) {plan : Plan H}
    (hplan : plan ∈ plans) (hf : Fails attesters plan) :
    ∃ answered failing, Arranged s.fanOut plans
        (composed (steady schedule attesters) s registry body).2 (answered ++ [failing]) ∧
      (∀ x ∈ answered, ¬ Fails attesters x.1) ∧ failing.1 ∈ plans ∧ Fails attesters failing.1 ∧
      (composed (steady schedule attesters) s registry body).1 =
        .error (failure attesters failing.1) := by
  obtain ⟨result, hc, hresult⟩ := composed_collected hs attesters ht
  rw [hplans] at hc
  cases hc with
  | @complete _ answered _ he hsucc hp =>
    obtain ⟨x, hx, rfl⟩ := List.mem_map.mp (hp.mem_iff.mpr hplan)
    rw [Fails, ← he x hx, hsucc x hx] at hf
    cases hf
  | @failed _ answered failing a ha he hsucc hfail hm =>
    have hlast : a = evidenceFor attesters failing :=
      he (failing, a) (List.mem_append_right _ (List.mem_singleton_self _))
    refine ⟨answered, (failing, a), ha, ?_, hm, ?_, ?_⟩
    · intro x hx hxf
      rw [Fails, ← he x (List.mem_append_left _ hx), hsucc x hx] at hxf
      cases hxf
    · rw [Fails, ← hlast]
      exact hfail
    · rw [hresult, failure, ← hlast]
      rfl

theorem exists_envelope_congr {s₁ s₂ : Schedule} (h₁ : s₁.deadline = none)
    (h₂ : s₂.deadline = none) {mode : ListMode} {f₁ f₂ : FanOut} {timeout : Nat} {e : Envelope}
    (h : (composed (steady s₁ attesters) ⟨mode, f₁, timeout⟩ registry body).1 = .ok e) :
    ∃ e, (composed (steady s₂ attesters) ⟨mode, f₂, timeout⟩ registry body).1 = .ok e := by
  obtain ⟨t, plans, answered, ht, hplans, _, hp, hsucc, he, hl, _⟩ := composed_ok h₁ h
  refine exists_composed_ok h₂ ht hplans ?_ ?_
  · intro plan hplan
    obtain ⟨x, hx, rfl⟩ := List.mem_map.mp (hp.mem_iff.mpr hplan)
    rw [← he x hx]
    exact hsucc x hx
  · exact labelled_perm (labels_perm hp) hl

theorem composed_problem (hs : schedule.deadline = none)
    (ht : prepare s.listMode registry body = .ok t) {p : Problem}
    (hp : plansOf s.listMode registry attesters t = .error p) :
    (composed (steady schedule attesters) s registry body).1 = .error p := by
  obtain ⟨result, hc, hresult⟩ := composed_collected hs attesters ht
  rw [hp] at hc
  cases hc
  exact hresult

theorem inTurn_first_failure {mode : ListMode} {timeout : Nat} (hs : schedule.deadline = none)
    (ht : prepare mode registry body = .ok t) {plans : List (Plan H)}
    (hplans : plansOf mode registry attesters t = .ok plans) {plan : Plan H}
    (hplan : plan ∈ plans) (hf : Fails attesters plan) :
    ∃ before plan after, plans = before ++ plan :: after ∧
      (∀ x ∈ before, ¬ Fails attesters x) ∧ Fails attesters plan ∧
      (composed (steady schedule attesters) ⟨mode, .sequential, timeout⟩ registry body).1 =
        .error (failure attesters plan) := by
  obtain ⟨before, failing, ha, hall, _, hfail, hresponse⟩ :=
    composed_failure (s := ⟨mode, .sequential, timeout⟩) hs ht hplans hplan hf
  have hprefix : (before ++ [failing]).map (·.1) <+: plans := ha
  obtain ⟨after, rfl⟩ := hprefix
  refine ⟨before.map (·.1), failing.1, after, ?_, List.forall_mem_map.mpr hall, hfail, hresponse⟩
  rw [List.map_append, List.append_assoc]
  rfl

theorem inTurn_labels {mode : ListMode} (ht : prepare mode registry body = .ok t)
    {plans : List (Plan H)} (hplans : plansOf mode registry attesters t = .ok plans)
    {answered : List (Plan H × EvidenceAnswer)} (ha : answered.map (·.1) <+: plans)
    (hp : (answered.map (·.1)).Perm plans) (hl : Labelled (collectionOf answered).labels) :
    (collectionOf answered).labels.Pairwise (· < ·) := by
  -- A prefix that is a permutation is the whole list.
  have hall : answered.map (·.1) = plans := ha.eq_of_length hp.length_eq
  have hlabels : (collectionOf answered).labels = t.targets mode registry := by
    rw [labels_collectionOf, ← (settleAll_eq_ok_iff.mp hplans).1, ← hall, List.map_map]
    rfl
  rw [hlabels] at hl ⊢
  exact pairwise_lt_of_le (targets_sorted ht) hl.1

/-- Two envelopes hold the same records under the same labels, one in the order of the answers,
the other one in the order of the names. -/
theorem envelopes_agree {s₁ s₂ : Schedule} (h₁ : s₁.deadline = none) (h₂ : s₂.deadline = none)
    {mode : ListMode} {timeout : Nat} {e₁ e₂ : Envelope}
    (he₁ : (composed (steady s₁ attesters) ⟨mode, .parallel, timeout⟩ registry body).1 = .ok e₁)
    (he₂ : (composed (steady s₂ attesters) ⟨mode, .sequential, timeout⟩ registry body).1 =
      .ok e₂) :
    ∃ c₁ c₂, e₁.collection = .ok c₁ ∧ e₂.collection = .ok c₂ ∧ c₁.kind = c₂.kind ∧
      (∀ label, c₁.get? label = c₂.get? label) ∧
      c₁.labels = (arrivals (composed (steady s₁ attesters) ⟨mode, .parallel, timeout⟩ registry
        body).2).map (·.1.name) ∧
      c₂.labels.Pairwise (· < ·) := by
  obtain ⟨t, plans, xs, ht, hplans, hx, hpx, _, hex, hlx, _, hcx⟩ := composed_ok h₁ he₁
  obtain ⟨t', plans', ys, ht', hplans', hy, hpy, _, hey, hly, _, hcy⟩ := composed_ok h₂ he₂
  cases ht.symm.trans ht'
  cases hplans.symm.trans hplans'
  have hitems := items_perm hex hey (hpx.trans hpy.symm)
  refine ⟨collectionOf xs, collectionOf ys, hcx, hcy, rfl, get?_perm hlx.1 hitems, ?_, ?_⟩
  · rw [labels_collectionOf]
    exact congrArg (List.map fun x => x.1.name) hx
  · exact inTurn_labels ht hplans hy hpy hly

/-- Both ways of asking give an envelope for the same requests, with the same records under the
same labels: in the order of the answers, or of the names. They tell the same problem when there
is one before evidence is asked for, and else the problem of an attester that failed: one after
the other, of the first one. -/
theorem modes_agree {s₁ s₂ : Schedule} (h₁ : s₁.deadline = none) (h₂ : s₂.deadline = none)
    (attesters : H → SubAttester) (mode : ListMode) (timeout : Nat) (registry : Registry H)
    (body : List UInt8) :
    let atOnce := composed (steady s₁ attesters) ⟨mode, .parallel, timeout⟩ registry body
    let inTurn := composed (steady s₂ attesters) ⟨mode, .sequential, timeout⟩ registry body
    ((∃ e, atOnce.1 = .ok e) ↔ ∃ e, inTurn.1 = .ok e) ∧
    (∀ e₁ e₂, atOnce.1 = .ok e₁ → inTurn.1 = .ok e₂ →
      ∃ c₁ c₂, e₁.collection = .ok c₁ ∧ e₂.collection = .ok c₂ ∧ c₁.kind = c₂.kind ∧
        (∀ label, c₁.get? label = c₂.get? label) ∧
        c₁.labels = (arrivals atOnce.2).map (·.1.name) ∧ c₂.labels.Pairwise (· < ·)) ∧
    (∀ p, prepare mode registry body = .error p → atOnce.1 = .error p ∧ inTurn.1 = .error p) ∧
    ∀ t, prepare mode registry body = .ok t →
      (∀ p, plansOf mode registry attesters t = .error p →
        atOnce.1 = .error p ∧ inTurn.1 = .error p) ∧
      ∀ plans, plansOf mode registry attesters t = .ok plans →
        plans.map (·.name) = t.targets mode registry ∧
        ((t.targets mode registry).Pairwise (· ≤ ·)) ∧
        ((∃ plan ∈ plans, Fails attesters plan) →
          (∃ plan ∈ plans, Fails attesters plan ∧ atOnce.1 = .error (failure attesters plan)) ∧
          ∃ before plan after, plans = before ++ plan :: after ∧
            (∀ x ∈ before, ¬ Fails attesters x) ∧ Fails attesters plan ∧
            inTurn.1 = .error (failure attesters plan)) := by
  intro atOnce inTurn
  refine ⟨⟨?_, ?_⟩, ?_, ?_, ?_⟩
  · rintro ⟨e, he⟩
    exact exists_envelope_congr h₁ h₂ he
  · rintro ⟨e, he⟩
    exact exists_envelope_congr h₂ h₁ he
  · exact fun e₁ e₂ he₁ he₂ => envelopes_agree h₁ h₂ he₁ he₂
  · intro p hp
    have hp₁ : atOnce = (.error p, []) := composed_refused (s := ⟨mode, .parallel, timeout⟩) hp
    have hp₂ : inTurn = (.error p, []) := composed_refused (s := ⟨mode, .sequential, timeout⟩) hp
    exact ⟨congrArg Prod.fst hp₁, congrArg Prod.fst hp₂⟩
  · intro t ht
    refine ⟨?_, ?_⟩
    · intro p hp
      exact ⟨composed_problem (s := ⟨mode, .parallel, timeout⟩) h₁ ht hp,
        composed_problem (s := ⟨mode, .sequential, timeout⟩) h₂ ht hp⟩
    intro plans hplans
    refine ⟨(settleAll_eq_ok_iff.mp hplans).1, targets_sorted ht, ?_⟩
    rintro ⟨plan, hplan, hf⟩
    obtain ⟨_, x, _, _, hm, hxf, hx⟩ :=
      composed_failure (s := ⟨mode, .parallel, timeout⟩) h₁ ht hplans hplan hf
    exact ⟨⟨x.1, hm, hxf, hx⟩, inTurn_first_failure h₂ ht hplans hplan hf⟩

/-- Two attesters that answer in descending order when they are asked at once. -/
theorem modes_agree_pair :
    let registry := Mock.registry [("a", ⟨"x", [1]⟩), ("b", ⟨"y", [2, 3]⟩)]
    lastFirst.deadline = none ∧
      ∃ e, (composed (steady lastFirst id) ⟨.selected, .parallel, 0⟩ registry pairRequest).1 =
        .ok e := by
  intro registry
  have hs : lastFirst.deadline = none := rfl
  have hturn : ∃ e, (composed (steady lastFirst id) ⟨.selected, .sequential, 0⟩ registry
      pairRequest).1 = .ok e := by
    rw [composed_prepared (s := ⟨.selected, .sequential, 0⟩)
      (prepare_pairRequest (List.cons_ne_nil _ _))]
    exact ⟨_, rfl⟩
  exact ⟨hs, (modes_agree hs hs id .selected 0 registry pairRequest).1.mpr hturn⟩

end Attestation.Proofs.ModeAgreement
