import Attestation.Proofs.Collecting
import Attestation.Proofs.Targets

namespace Attestation.Proofs.Composing

open Compositor Course Scheduling Negotiation Gathering Merging Collecting Targets CmwText
open Cmw (Collection)

variable {H : Type} {schedule : Schedule} {attesters : H → SubAttester} {s : Compositor.Settings}
  {registry : Registry H} {body : List UInt8} {t : Task}

def collectionOf (answered : List (Plan H × EvidenceAnswer)) : Collection :=
  ⟨Envelope.kind, records (answered.map item)⟩

theorem labels_collectionOf (answered : List (Plan H × EvidenceAnswer)) :
    (collectionOf answered).labels = answered.map (·.1.name) := by
  rw [collectionOf, Collection.labels, labels_records, List.map_map]
  rfl

theorem exists_of_mem_labels {answered : List (Plan H × EvidenceAnswer)} {name : String}
    (h : name ∈ (collectionOf answered).labels) : ∃ x ∈ answered, x.1.name = name := by
  rw [labels_collectionOf] at h
  exact List.mem_map.mp h

theorem labels_perm {answered : List (Plan H × EvidenceAnswer)} {plans : List (Plan H)}
    (h : (answered.map (·.1)).Perm plans) :
    (collectionOf answered).labels.Perm (plans.map (·.name)) := by
  have hnames := h.map (·.name)
  rw [List.map_map] at hnames
  rwa [labels_collectionOf]

theorem get?_collectionOf {answered : List (Plan H × EvidenceAnswer)}
    (hl : (collectionOf answered).labels.Nodup) {x : Plan H × EvidenceAnswer}
    (hx : x ∈ answered) :
    (collectionOf answered).get? x.1.name = some (.record (item x).2) :=
  get?_of_mem hl (List.mem_map_of_mem (List.mem_map_of_mem hx))

theorem envelope_of_merge {answered : List (Plan H × EvidenceAnswer)} {timeout : Nat}
    {e : Envelope} (h : conclude timeout t (some (merge (answered.map item))) = .ok e) :
    Labelled (collectionOf answered).labels ∧
      e = Envelope.wrap t.nonceText (collectionOf answered) ∧
      e.collection = .ok (collectionOf answered) := by
  cases hm : merge (answered.map item) with
  | error p =>
    rw [hm] at h
    cases h
  | ok c =>
    rw [hm] at h
    cases h
    have hread := collection_wrap hm t.nonceText
    obtain ⟨hl, rfl⟩ := merge_eq_ok_iff.mp hm
    refine ⟨?_, rfl, hread⟩
    rw [labels_collectionOf]
    rwa [List.map_map] at hl

theorem composed_gathered {env : Environment H} {e : Envelope}
    (h : (composed env s registry body).1 = .ok e) :
    ∃ t plans answered, prepare s.listMode registry body = .ok t ∧
      plans.map (·.name) = t.targets s.listMode registry ∧
      (∀ plan ∈ plans, registry.lookup plan.name = .ok plan.attester) ∧
      (answered.map (·.1)).Perm plans ∧ Successes answered ∧
      (∀ x ∈ answered, turn x ∈ (composed env s registry body).2 ∨
        x ∈ arrivals (composed env s registry body).2) ∧
      Labelled (collectionOf answered).labels ∧ e.collection = .ok (collectionOf answered) := by
  cases ht : prepare s.listMode registry body with
  | error p =>
    rw [composed_refused ht] at h
    cases h
  | ok t =>
    rw [composed_prepared ht] at h ⊢
    have hf := play_follows env 0 (collect s.listMode s.fanOut registry t).run
    generalize env.play 0 (collect s.listMode s.fanOut registry t).run = course at h hf ⊢
    obtain ⟨result, log⟩ := course
    simp only at h hf ⊢
    obtain ⟨settled, hall, ⟨_, _, _, _, _, hs⟩ | ⟨log₂, gathered, hnames, rfl, hi, rfl⟩⟩ :=
      collect_stages hf
    · exact absurd h (conclude_of_stops hs)
    · obtain ⟨answered, sent, unsent, unanswered, ho, hp, _, hx⟩ := invoke_follows hi
      cases ho with
      | failed _ _ => cases h
      | late _ => cases h
      | complete hsucc =>
        obtain ⟨hl, _, hread⟩ := envelope_of_merge h
        have hperm := (progress_complete hp).2
        refine ⟨t, settled.map (·.1), answered, rfl, ?_, ?_, hperm, hsucc, ?_, hl, hread⟩
        · rw [hnames, List.map_map]
          rfl
        · intro plan hplan
          obtain ⟨x, hx, rfl⟩ := List.mem_map.mp hplan
          exact lookup_eq_ok_iff.mp (hall x hx).found
        · intro x hm
          rw [arrivals_append]
          exact (hx x hm).imp (List.mem_append_right _) (List.mem_append_right _)

/-- The attesters always answer alike. -/
abbrev steady (schedule : Schedule) (attesters : H → SubAttester) : Environment H :=
  environment schedule fun _ => attesters

theorem composed_collected (hs : schedule.deadline = none) (attesters : H → SubAttester)
    (ht : prepare s.listMode registry body = .ok t) :
    ∃ result,
      Collected s.fanOut attesters (composed (steady schedule attesters) s registry body).2
        (plansOf s.listMode registry attesters t) result ∧
      (composed (steady schedule attesters) s registry body).1 = conclude s.timeout t result := by
  rw [composed_prepared ht]
  exact ⟨_, collect_answers (play_answers hs attesters 0 _) (play_follows _ 0 _), rfl⟩

theorem composed_ok (hs : schedule.deadline = none) {e : Envelope}
    (h : (composed (steady schedule attesters) s registry body).1 = .ok e) :
    ∃ t plans answered, prepare s.listMode registry body = .ok t ∧
      plansOf s.listMode registry attesters t = .ok plans ∧
      Arranged s.fanOut plans (composed (steady schedule attesters) s registry body).2 answered ∧
      (answered.map (·.1)).Perm plans ∧ Successes answered ∧
      (∀ x ∈ answered, x.2 = evidenceFor attesters x.1) ∧
      Labelled (collectionOf answered).labels ∧
      e = Envelope.wrap t.nonceText (collectionOf answered) ∧
      e.collection = .ok (collectionOf answered) := by
  cases ht : prepare s.listMode registry body with
  | error p =>
    rw [composed_refused ht] at h
    cases h
  | ok t =>
    obtain ⟨result, hc, hresult⟩ := composed_collected hs attesters ht
    rw [hresult] at h
    cases hplans : plansOf s.listMode registry attesters t with
    | error p =>
      rw [hplans] at hc
      cases hc
      cases h
    | ok plans =>
      rw [hplans] at hc
      cases hc with
      | failed => cases h
      | @complete _ answered ha he hsucc hp =>
        obtain ⟨hl, he', hread⟩ := envelope_of_merge h
        exact ⟨t, plans, answered, rfl, hplans, ha, hp, hsucc, he, hl, he', hread⟩

/-- When every target is settled and gives evidence under a label there is an envelope. -/
theorem exists_composed_ok (hs : schedule.deadline = none)
    (ht : prepare s.listMode registry body = .ok t) {plans : List (Plan H)}
    (hplans : plansOf s.listMode registry attesters t = .ok plans)
    (hall : ∀ plan ∈ plans, (evidenceFor attesters plan).status.result = true)
    (hl : Labelled (plans.map (·.name))) :
    ∃ e, (composed (steady schedule attesters) s registry body).1 = .ok e := by
  obtain ⟨result, hc, hresult⟩ := composed_collected hs attesters ht
  rw [hplans] at hc
  cases hc with
  | @failed _ answered plan a _ he _ hf hm =>
    -- The answer is that of the attester, which does not fail.
    have ha : a = evidenceFor attesters plan :=
      he (plan, a) (List.mem_append_right _ (List.mem_singleton_self _))
    rw [ha, hall plan hm] at hf
    cases hf
  | @complete _ answered _ _ _ hp =>
    have hlabels := labelled_perm (labels_perm hp).symm hl
    have hm : merge (answered.map item) = .ok (collectionOf answered) := by
      refine merge_eq_ok_iff.mpr ⟨?_, rfl⟩
      rw [List.map_map]
      rwa [labels_collectionOf] at hlabels
    rw [hm] at hresult
    exact ⟨_, hresult⟩

end Attestation.Proofs.Composing
