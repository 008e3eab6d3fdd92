import Mathlib.Data.List.Forall2
import Attestation.Proofs.Negotiation
import Attestation.Proofs.Gathering
import Attestation.Proofs.Merging

namespace Attestation.Proofs.Coupling

open Compositor Course Scheduling Negotiation Gathering Merging
open Json (Value)

variable {H K α β γ δ : Type}

/-- Equal problems, or related values. -/
inductive Alike (P : α → β → Prop) : Except Problem α → Except Problem β → Prop
  | problem (p : Problem) : Alike P (.error p) (.error p)
  | value {a : α} {b : β} (h : P a b) : Alike P (.ok a) (.ok b)

/-- At all steps the two computations have as many events and related results. -/
def Coupled (env₁ : Environment H) (env₂ : Environment K) (R : α → β → Prop)
    (x : Composition H α) (y : Composition K β) : Prop :=
  ∀ step, (env₁.play step x).2.length = (env₂.play step y).2.length ∧
    Option.Rel R (env₁.play step x).1 (env₂.play step y).1

section

variable {env₁ : Environment H} {env₂ : Environment K} {R : α → β → Prop} {S : γ → δ → Prop}

theorem coupled_done {a : α} {b : β} (h : R a b) : Coupled env₁ env₂ R (.done a) (.done b) :=
  fun _ => ⟨rfl, Option.Rel.some h⟩

theorem coupled_bind {x : Composition H α} {y : Composition K β} {f : α → Composition H γ}
    {g : β → Composition K δ} (hx : Coupled env₁ env₂ R x y)
    (hf : ∀ a b, R a b → Coupled env₁ env₂ S (f a) (g b)) :
    Coupled env₁ env₂ S (x >>= f) (y >>= g) := by
  intro step
  obtain ⟨hlen, hrel⟩ := hx step
  -- Equal lengths let the second computations start at the same step.
  rw [Environment.play_bind, Environment.play_bind]
  generalize env₁.play step x = p at hlen hrel ⊢
  generalize env₂.play step y = q at hlen hrel ⊢
  obtain ⟨a, log₁⟩ := p
  obtain ⟨b, log₂⟩ := q
  simp only at hlen hrel
  cases hrel with
  | none => exact ⟨hlen, Option.Rel.none⟩
  | @some a b h =>
    obtain ⟨hlen', hrel⟩ := hf a b h (step + log₁.length)
    simp only [← hlen, List.length_append, hlen']
    exact ⟨trivial, hrel⟩

theorem coupled_ask {c : Call H} {d : Call K} {T : c.Reply → d.Reply → Prop}
    {f : c.Reply → Composition H α} {g : d.Reply → Composition K β}
    (hreply : ∀ step, Option.Rel T (env₁ step c) (env₂ step d))
    (hf : ∀ r q, T r q → Coupled env₁ env₂ R (f r) (g q)) :
    Coupled env₁ env₂ R (.ask c f) (.ask d g) := by
  intro step
  have hrel := hreply step
  cases hc : env₁ step c with
  | none =>
    cases hd : env₂ step d with
    | none =>
      rw [Environment.play_ask_none hc, Environment.play_ask_none hd]
      exact ⟨rfl, Option.Rel.none⟩
    | some q =>
      rw [hc, hd] at hrel
      cases hrel
  | some r =>
    cases hd : env₂ step d with
    | none =>
      rw [hc, hd] at hrel
      cases hrel
    | some q =>
      rw [hc, hd] at hrel
      cases hrel with
      | some h =>
        obtain ⟨hlen, hresult⟩ := hf r q h (step + 1)
        rw [Environment.play_ask_some hc, Environment.play_ask_some hd]
        exact ⟨congrArg (· + 1) hlen, hresult⟩

theorem coupled_part_bind {P : α → β → Prop} {Q : γ → δ → Prop} {x : Part H α} {y : Part K β}
    {f : α → Part H γ} {g : β → Part K δ} (hx : Coupled env₁ env₂ (Alike P) x.run y.run)
    (hf : ∀ a b, P a b → Coupled env₁ env₂ (Alike Q) (f a).run (g b).run) :
    Coupled env₁ env₂ (Alike Q) (x >>= f).run (y >>= g).run := by
  apply coupled_bind hx
  intro a b hab
  cases hab with
  | problem p => exact coupled_done (Alike.problem p)
  | value h => exact hf _ _ h

end

variable {s : Schedule} {answers₁ : Nat → H → SubAttester} {answers₂ : Nat → K → SubAttester}

/-- Attesters that tell the same formats, and fail alike when they are asked for evidence. -/
def Akin (answers₁ : Nat → H → SubAttester) (answers₂ : Nat → K → SubAttester) (h : H) (k : K) :
    Prop :=
  ∀ step, (answers₁ step h).formats = (answers₂ step k).formats ∧
    ∀ r, ((answers₁ step h).evidence r).status = ((answers₂ step k).evidence r).status

def PlanAkin (answers₁ : Nat → H → SubAttester) (answers₂ : Nat → K → SubAttester) (p : Plan H)
    (q : Plan K) : Prop :=
  p.name = q.name ∧ p.request = q.request ∧ Akin answers₁ answers₂ p.attester q.attester

structure RegistryAkin (answers₁ : Nat → H → SubAttester) (answers₂ : Nat → K → SubAttester)
    (r₁ : Registry H) (r₂ : Registry K) : Prop where
  names : r₁.names = r₂.names
  lookup : ∀ name, (∃ e, r₁.lookup name = .error e ∧ r₂.lookup name = .error e) ∨
    ∃ h k, r₁.lookup name = .ok h ∧ r₂.lookup name = .ok k ∧ Akin answers₁ answers₂ h k

theorem environment_rel {c : Call H} {d : Call K} {T : c.Reply → d.Reply → Prop} {step : Nat}
    (h : Option.Rel T (reply s (answers₁ step) step c) (reply s (answers₂ step) step d)) :
    Option.Rel T (environment s answers₁ step c) (environment s answers₂ step d) := by
  unfold environment
  by_cases hs : s.deadline = some step
  · rw [if_pos hs, if_pos hs]
    exact Option.Rel.none
  · rw [if_neg hs, if_neg hs]
    exact h

theorem lookup_alike {r₁ : Registry H} {r₂ : Registry K}
    (h : RegistryAkin answers₁ answers₂ r₁ r₂) (name : String) :
    Alike (Akin answers₁ answers₂) (lookup r₁ name) (lookup r₂ name) := by
  unfold Compositor.lookup
  obtain ⟨e, h₁, h₂⟩ | ⟨a, b, h₁, h₂, hab⟩ := h.lookup name
  · rw [h₁, h₂]
    exact Alike.problem _
  · rw [h₁, h₂]
    exact Alike.value hab

theorem negotiate_coupled {r₁ : Registry H} {r₂ : Registry K}
    (h : RegistryAkin answers₁ answers₂ r₁ r₂) (nonce : List UInt8) (selection : Selection)
    (name : String) :
    Coupled (environment s answers₁) (environment s answers₂)
      (Alike (PlanAkin answers₁ answers₂)) (negotiate r₁ nonce selection name).run
      (negotiate r₂ nonce selection name).run := by
  rw [negotiate_run, negotiate_run]
  have hl := lookup_alike h name
  generalize lookup r₁ name = x at hl ⊢
  generalize lookup r₂ name = y at hl ⊢
  cases hl with
  | problem p => exact coupled_done (Alike.problem p)
  | @value a b hab =>
    refine coupled_ask (c := .query a .formats) (d := .query b .formats)
      (T := fun f g : FormatsAnswer => f = g) ?_ ?_
    · intro step
      refine environment_rel (c := .query a .formats) (d := .query b .formats) ?_
      exact Option.Rel.some (hab step).1
    · rintro formats _ rfl
      cases request name nonce formats (Value.get? selection name) with
      | error p => exact coupled_done (Alike.problem p)
      | ok r => exact coupled_done (Alike.value ⟨rfl, rfl, hab⟩)

theorem negotiateAll_coupled {r₁ : Registry H} {r₂ : Registry K}
    (h : RegistryAkin answers₁ answers₂ r₁ r₂) (nonce : List UInt8) (selection : Selection)
    (names : List String) :
    Coupled (environment s answers₁) (environment s answers₂)
      (Alike (List.Forall₂ (PlanAkin answers₁ answers₂)))
      (negotiateAll r₁ nonce selection names).run (negotiateAll r₂ nonce selection names).run := by
  induction names with
  | nil => exact coupled_done (Alike.value List.Forall₂.nil)
  | cons name names ih =>
    rw [negotiateAll, negotiateAll]
    apply coupled_part_bind (negotiate_coupled h nonce selection name)
    intro p q hpq
    apply coupled_part_bind ih
    intro ps qs hpqs
    exact coupled_done (Alike.value (List.Forall₂.cons hpq hpqs))

def SameLabels (xs ys : List Item) : Prop := xs.map (·.1) = ys.map (·.1)

theorem contribution_alike {p : Plan H} {q : Plan K} {a b : EvidenceAnswer}
    (hname : p.name = q.name) (hstatus : a.status = b.status) :
    Alike (fun x y : Item => x.1 = y.1) (contribution p a) (contribution q b) := by
  unfold contribution
  rw [hname, hstatus]
  by_cases h : b.status.result = true
  · rw [if_pos h, if_pos h]
    exact Alike.value rfl
  · rw [if_neg h, if_neg h]
    exact Alike.problem _

theorem invokeInTurn_coupled {ps : List (Plan H)} {qs : List (Plan K)}
    (h : List.Forall₂ (PlanAkin answers₁ answers₂) ps qs) :
    Coupled (environment s answers₁) (environment s answers₂) (Alike SameLabels)
      (invokeInTurn ps).run (invokeInTurn qs).run := by
  induction h with
  | nil => exact coupled_done (Alike.value rfl)
  | @cons p q ps qs hpq _ ih =>
    obtain ⟨hname, hreq, hakin⟩ := hpq
    rw [invokeInTurn_cons, invokeInTurn_cons]
    refine coupled_ask (T := fun a b => EvidenceAnswer.status a = EvidenceAnswer.status b) ?_ ?_
    · intro step
      refine environment_rel (Option.Rel.some ?_)
      rw [hreq]
      exact (hakin step).2 q.request
    · intro a b hab
      have hc := contribution_alike hname hab
      generalize contribution p a = x at hc ⊢
      generalize contribution q b = y at hc ⊢
      cases hc with
      | problem p => exact coupled_done (Alike.problem p)
      | value hxy =>
        apply coupled_part_bind ih
        intro xs ys hxys
        exact coupled_done (Alike.value (List.cons_eq_cons.mpr ⟨hxy, hxys⟩))

theorem forall₂_eraseIdx {R : α → β → Prop} {xs : List α} {ys : List β}
    (h : List.Forall₂ R xs ys) (i : Nat) : List.Forall₂ R (xs.eraseIdx i) (ys.eraseIdx i) := by
  induction h generalizing i with
  | nil => exact List.Forall₂.nil
  | cons hxy hrest ih =>
    cases i with
    | zero => exact hrest
    | succ i => exact List.Forall₂.cons hxy (ih i)

theorem forall₂_getElem {R : α → β → Prop} {xs : List α} {ys : List β}
    (h : List.Forall₂ R xs ys) {i : Fin xs.length} {j : Fin ys.length} (hij : i.val = j.val) :
    R (xs.get i) (ys.get j) := by
  obtain ⟨i, hi⟩ := i
  obtain ⟨j, hj⟩ := j
  cases hij
  exact h.get hi hj

def ArrivalAkin {n m : Nat} (x : Fin n × EvidenceAnswer) (y : Fin m × EvidenceAnswer) : Prop :=
  x.1.val = y.1.val ∧ x.2.status = y.2.status

theorem pick_akin {ps : List (Plan H)} {qs : List (Plan K)}
    (h : List.Forall₂ (PlanAkin answers₁ answers₂) ps qs) (step : Nat) {i : Fin ps.length}
    {j : Fin qs.length} (hij : i.val = j.val) :
    ArrivalAkin (pick (answers₁ step) ps i) (pick (answers₂ step) qs j) := by
  obtain ⟨_, hreq, hakin⟩ := forall₂_getElem h hij
  refine ⟨hij, ((hakin step).2 (ps.get i).request).trans ?_⟩
  rw [hreq]
  rfl

theorem early_akin {n m : Nat} (h : n = m) (step : Nat) :
    Option.Rel (fun i j => i.val = j.val) (s.early step n) (s.early step m) := by
  subst h
  cases s.early step n with
  | none => exact Option.Rel.none
  | some i => exact Option.Rel.some rfl

theorem first_akin {n m : Nat} (h : n = m) (step : Nat) :
    (s.first step n).val = (s.first step m).val := by
  subst h
  rfl

theorem arrival_coupled {waiting underWay : List (Plan H)} {waiting' underWay' : List (Plan K)}
    {done done' : List Item} {i : Fin underWay.length} {j : Fin underWay'.length}
    {a b : EvidenceAnswer} (hu : List.Forall₂ (PlanAkin answers₁ answers₂) underWay underWay')
    (hab : ArrivalAkin (i, a) (j, b))
    (ih : ∀ x y : Item, x.1 = y.1 →
      List.Forall₂ (PlanAkin answers₁ answers₂) (underWay.eraseIdx i) (underWay'.eraseIdx j) →
      Coupled (environment s answers₁) (environment s answers₂) (Alike SameLabels)
        (invokeAtOnce waiting (underWay.eraseIdx i) (x :: done)).run
        (invokeAtOnce waiting' (underWay'.eraseIdx j) (y :: done')).run) :
    Coupled (environment s answers₁) (environment s answers₂) (Alike SameLabels)
      (match contribution (underWay.get i) a with
        | .error p => .done (.error p)
        | .ok x => (invokeAtOnce waiting (underWay.eraseIdx i) (x :: done)).run)
      (match contribution (underWay'.get j) b with
        | .error p => .done (.error p)
        | .ok x => (invokeAtOnce waiting' (underWay'.eraseIdx j) (x :: done')).run) := by
  obtain ⟨hij, hstatus⟩ := hab
  have hname : (underWay.get i).name = (underWay'.get j).name := (forall₂_getElem hu hij).1
  have herase : List.Forall₂ (PlanAkin answers₁ answers₂) (underWay.eraseIdx i)
      (underWay'.eraseIdx j) := by
    have h := forall₂_eraseIdx hu i
    rwa [hij] at h ⊢
  have hc := contribution_alike hname hstatus
  generalize contribution (underWay.get i) a = x at hc ⊢
  generalize contribution (underWay'.get j) b = y at hc ⊢
  cases hc with
  | problem p => exact coupled_done (Alike.problem p)
  | value hxy => exact ih _ _ hxy herase

theorem invokeAtOnce_coupled {waiting underWay : List (Plan H)} {waiting' underWay' : List (Plan K)}
    {done done' : List Item} (hw : List.Forall₂ (PlanAkin answers₁ answers₂) waiting waiting')
    (hu : List.Forall₂ (PlanAkin answers₁ answers₂) underWay underWay')
    (hd : SameLabels done done') :
    Coupled (environment s answers₁) (environment s answers₂) (Alike SameLabels)
      (invokeAtOnce waiting underWay done).run (invokeAtOnce waiting' underWay' done').run := by
  -- Both runs have as many plans under way, so the schedule picks the same place in both.
  induction waiting, underWay, done using invokeAtOnce.induct
    generalizing waiting' underWay' done' with
  | case1 done =>
    cases hw
    cases hu
    rw [invokeAtOnce, invokeAtOnce]
    refine coupled_done (Alike.value ?_)
    rw [SameLabels, List.map_reverse, List.map_reverse, hd]
  | case2 plan plans done ih =>
    cases hw
    obtain ⟨plan', plans', hp, hps, rfl⟩ := List.forall₂_cons_left_iff.mp hu
    rw [invokeAtOnce, invokeAtOnce]
    refine coupled_ask (c := .await (plan :: plans)) (d := .await (plan' :: plans'))
      (T := ArrivalAkin) ?_ ?_
    · intro step
      refine environment_rel (c := .await (plan :: plans)) (d := .await (plan' :: plans')) ?_
      exact Option.Rel.some (pick_akin hu step (first_akin hps.length_eq step))
    · rintro ⟨i, a⟩ ⟨j, b⟩ hab
      exact arrival_coupled hu hab fun x y hxy herase =>
        ih i x List.Forall₂.nil herase (List.cons_eq_cons.mpr ⟨hxy, hd⟩)
  | case3 next rest underWay done ih₁ ih₂ =>
    obtain ⟨next', rest', hnext, hrest, rfl⟩ := List.forall₂_cons_left_iff.mp hw
    rw [invokeAtOnce, invokeAtOnce]
    refine coupled_ask (c := .proceed next underWay) (d := .proceed next' underWay')
      (T := Option.Rel ArrivalAkin) ?_ ?_
    · intro step
      refine environment_rel (c := .proceed next underWay) (d := .proceed next' underWay') ?_
      apply Option.Rel.some
      have hearly := early_akin (s := s) hu.length_eq step
      generalize s.early step underWay.length = x at hearly ⊢
      generalize s.early step underWay'.length = y at hearly ⊢
      cases hearly with
      | none => exact Option.Rel.none
      | some hij => exact Option.Rel.some (pick_akin hu step hij)
    · rintro r q hrq
      cases hrq with
      | none =>
        exact ih₁ hrest (List.rel_append hu (List.Forall₂.cons hnext List.Forall₂.nil)) hd
      | @some x y hab =>
        exact arrival_coupled hu hab fun x y hxy herase =>
          ih₂ _ x hw herase (List.cons_eq_cons.mpr ⟨hxy, hd⟩)

end Attestation.Proofs.Coupling
