import Attestation.Mock
import Attestation.Proofs.Composing
import Attestation.Proofs.Coupling

namespace Attestation.Proofs.Secrecy

open Compositor Course Scheduling Gathering Merging Collecting Composing Targets Coupling
open Cmw (Collection)

variable {H K : Type} {r₁ : Registry H} {r₂ : Registry K} {answers₁ : Nat → H → SubAttester}
  {answers₂ : Nat → K → SubAttester}

theorem merge_alike {xs ys : List Item} (h : SameLabels xs ys) :
    Alike (fun _ _ => True) (merge xs) (merge ys) := by
  cases hx : merge xs with
  | error p =>
    rw [merge_error_congr h hx]
    exact Alike.problem p
  | ok c =>
    cases hy : merge ys with
    | error p =>
      rw [merge_error_congr (Eq.symm h) hy] at hx
      cases hx
    | ok d => exact Alike.value trivial

theorem invoke_coupled {s : Schedule} {fanOut : FanOut} {ps : List (Plan H)} {qs : List (Plan K)}
    (h : List.Forall₂ (PlanAkin answers₁ answers₂) ps qs) :
    Coupled (environment s answers₁) (environment s answers₂) (Alike SameLabels)
      (invoke fanOut ps).run (invoke fanOut qs).run := by
  cases fanOut with
  | sequential => exact invokeInTurn_coupled h
  | parallel => exact invokeAtOnce_coupled h List.Forall₂.nil rfl

theorem targets_congr (hnames : r₁.names = r₂.names) (mode : ListMode) (t : Task) :
    t.targets mode r₁ = t.targets mode r₂ := by
  unfold Task.targets
  rw [hnames]

theorem prepare_congr (hnames : r₁.names = r₂.names) (mode : ListMode) (body : List UInt8) :
    prepare mode r₁ body = prepare mode r₂ body := by
  rw [prepare_eq, prepare_eq, hnames]

theorem collect_coupled (h : RegistryAkin answers₁ answers₂ r₁ r₂) (s : Schedule)
    (mode : ListMode) (fanOut : FanOut) (t : Task) :
    Coupled (environment s answers₁) (environment s answers₂) (Alike fun _ _ => True)
      (collect mode fanOut r₁ t).run (collect mode fanOut r₂ t).run := by
  unfold collect
  rw [targets_congr h.names]
  apply coupled_part_bind (negotiateAll_coupled h _ _ _)
  intro ps qs hpq
  apply coupled_part_bind (invoke_coupled hpq)
  intro xs ys hxy
  exact coupled_done (merge_alike hxy)

theorem conclude_alike {timeout : Nat} {t : Task} {P : Collection → Collection → Prop}
    {x y : Option (Except Problem Collection)} (h : Option.Rel (Alike P) x y) (p : Problem) :
    conclude timeout t x = .error p ↔ conclude timeout t y = .error p := by
  cases h with
  | none => exact Iff.rfl
  | some h =>
    cases h with
    | problem q => exact Iff.rfl
    | value _ => exact ⟨nofun, nofun⟩

/-- Attesters that differ in nothing but the bytes of their evidence make no difference to the
problem of a request that fails. An envelope holds, under the names of the targets and no others,
evidence that attesters of these names gave in its course. -/
theorem failures_show_no_evidence (h : RegistryAkin answers₁ answers₂ r₁ r₂) (schedule : Schedule)
    (s : Compositor.Settings) (body : List UInt8) :
    (∀ p, (composed (environment schedule answers₁) s r₁ body).1 = .error p ↔
      (composed (environment schedule answers₂) s r₂ body).1 = .error p) ∧
    ∀ e, (composed (environment schedule answers₁) s r₁ body).1 = .ok e →
      ∃ coll, e.collection = .ok coll ∧ coll.labels.Nodup ∧
        (∀ name, name ∈ coll.labels ↔
          IsTarget s.listMode r₁ (Challenge.ofBody body).selection name) ∧
        ∀ name, IsTarget s.listMode r₁ (Challenge.ofBody body).selection name →
          ∃ plan a, plan.name = name ∧ r₁.lookup name = .ok plan.attester ∧
            (turn (plan, a) ∈ (composed (environment schedule answers₁) s r₁ body).2 ∨
              (plan, a) ∈ arrivals (composed (environment schedule answers₁) s r₁ body).2) ∧
            a.status.result = true ∧
            coll.get? name = some (.record ⟨plan.request.contentType, a.evidence, none⟩) := by
  refine ⟨?_, ?_⟩
  · intro p
    cases ht : prepare s.listMode r₁ body with
    | error q =>
      rw [composed_refused ht, composed_refused (prepare_congr h.names _ _ ▸ ht)]
    | ok t =>
      rw [composed_prepared ht, composed_prepared (prepare_congr h.names _ _ ▸ ht)]
      exact conclude_alike (collect_coupled h schedule s.listMode s.fanOut t 0).2 p
  · intro e he
    obtain ⟨t, plans, answered, ht, hnames, hfound, hp, hsucc, hx, hl, hread⟩ :=
      composed_gathered he
    have hlabels := labels_perm hp
    rw [hnames] at hlabels
    have htarget : ∀ name, name ∈ (collectionOf answered).labels ↔
        IsTarget s.listMode r₁ (Challenge.ofBody body).selection name := fun name =>
      hlabels.mem_iff.trans (mem_targets_iff ht name)
    refine ⟨collectionOf answered, hread, hl.1, htarget, ?_⟩
    intro name hname
    rw [← htarget] at hname
    obtain ⟨x, hmem, rfl⟩ := exists_of_mem_labels hname
    have hplan : x.1 ∈ plans := hp.mem_iff.mp (List.mem_map_of_mem hmem)
    exact ⟨x.1, x.2, rfl, hfound x.1 hplan, hx x hmem, hsucc x hmem, get?_collectionOf hl.1 hmem⟩

/-- The deadline passes when one of two attesters has given evidence. -/
theorem failures_show_no_evidence_pair :
    let r₁ := Mock.registry [("a", ⟨"x", [1]⟩), ("b", ⟨"y", [2, 3]⟩)]
    let r₂ := Mock.registry [("a", ⟨"x", []⟩), ("b", ⟨"y", [4]⟩)]
    RegistryAkin (fun _ => id) (fun _ => id) r₁ r₂ ∧
      (composed (environment { lastFirst with deadline := some 3 } fun _ => id)
        ⟨.selected, .sequential, 0⟩ r₂ pairRequest).1 =
        .error (.internal "evidence collection timed out after 0s") := by
  intro r₁ r₂
  have hakin : RegistryAkin (fun _ => id) (fun _ => id) r₁ r₂ := by
    refine ⟨rfl, fun name => ?_⟩
    by_cases ha : name = "a"
    · subst ha
      refine Or.inr ⟨_, _, rfl, rfl, fun _ => ⟨rfl, fun r => ?_⟩⟩
      by_cases hr : r.contentType = "x"
      · simp [Mock.subAttester, hr, EvidenceAnswer.success]
      · simp [Mock.subAttester, hr]
    · by_cases hb : name = "b"
      · subst hb
        refine Or.inr ⟨_, _, rfl, rfl, fun _ => ⟨rfl, fun r => ?_⟩⟩
        by_cases hr : r.contentType = "y"
        · simp [Mock.subAttester, hr, EvidenceAnswer.success]
        · simp [Mock.subAttester, hr]
      · refine Or.inl ⟨.notFound name, ?_, ?_⟩ <;>
          simp [r₁, r₂, Mock.registry, Mock.lookup, Table.find?, Ne.symm ha, Ne.symm hb]
  have hstopped : (composed (environment { lastFirst with deadline := some 3 } fun _ => id)
      ⟨.selected, .sequential, 0⟩ r₁ pairRequest).1 =
      .error (.internal "evidence collection timed out after 0s") := by
    rw [composed_prepared (s := ⟨.selected, .sequential, 0⟩)
      (prepare_pairRequest (List.cons_ne_nil _ _))]
    rfl
  exact ⟨hakin, ((failures_show_no_evidence hakin _ _ pairRequest).1 _).mp hstopped⟩

end Attestation.Proofs.Secrecy
