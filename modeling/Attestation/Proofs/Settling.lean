import Mathlib.Data.List.Induction
import Mathlib.Data.List.Nodup
import Attestation.Proofs.Trials

namespace Attestation.Proofs.Settling

open Plugin Worlds Loading Trials

section files

variable (w : World) (l : Loader)

/-- A file does not end a load that has handled those before it. -/
def Settles (before : List Candidate) (c : Candidate) : Prop :=
  Skipped w l c ∨ ∃ i, Reports w l c i ∧ ∀ c' ∈ before, ∀ i', Reports w l c' i' → i'.name ≠ i.name

def AllSettle (cs : List Candidate) : Prop :=
  ∀ before c after, cs = before ++ c :: after → Settles w l before c

/-- A file ends a load that has handled those before it. -/
inductive Refuses (before : List Candidate) (c : Candidate) : Error → Prop
  | fails {e : Error} (h : Fails w l c e) : Refuses before c e
  | duplicate {i i' : Identity} {c' : Candidate} (h : Reports w l c i) (hm : c' ∈ before)
      (h' : Reports w l c' i') (hn : i'.name = i.name) :
      Refuses before c (.duplicateName i.name c'.path c.path)

/-- The plugins of files that are all passed over or report an identity, one for each of the
latter. -/
inductive Reported : List Candidate → List Loaded → Prop
  | nil : Reported [] []
  | skipped {c : Candidate} {cs : List Candidate} {ps : List Loaded} (h : Skipped w l c)
      (hs : Reported cs ps) : Reported (c :: cs) ps
  | reports {c : Candidate} {cs : List Candidate} {i : Identity} {ps : List Loaded}
      (h : Reports w l c i) (hs : Reported cs ps) : Reported (c :: cs) (⟨c.path, i⟩ :: ps)

end files

variable {w : World} {l : Loader} {cs : List Candidate} {ps : List Loaded}

section settling

theorem allSettle_of_append {ds : List Candidate} (h : AllSettle w l (cs ++ ds)) :
    AllSettle w l cs := by
  rintro before c after rfl
  exact h before c (after ++ ds) (by simp)

theorem reported_append {cs ds : List Candidate} {qs : List Loaded} (h : Reported w l cs ps)
    (h' : Reported w l ds qs) : Reported w l (cs ++ ds) (ps ++ qs) := by
  induction h with
  | nil => exact h'
  | skipped h _ ih => exact .skipped h ih
  | reports h _ ih => exact .reports h ih

theorem mem_reported_iff (h : Reported w l cs ps) {p : Loaded} :
    p ∈ ps ↔ ∃ c ∈ cs, Reports w l c p.identity ∧ p.path = c.path := by
  induction h with
  | nil => simp
  | skipped h _ ih =>
    rw [ih]
    constructor
    · rintro ⟨c, hc, hp⟩
      exact ⟨c, List.mem_cons_of_mem _ hc, hp⟩
    · rintro ⟨c, hc, hp, hpath⟩
      obtain rfl | hc := List.mem_cons.mp hc
      · exact (skipped_reports h hp).elim
      · exact ⟨c, hc, hp, hpath⟩
  | @reports c cs i ps h _ ih =>
    rw [List.mem_cons, ih]
    constructor
    · rintro (rfl | ⟨c', hc, hp⟩)
      · exact ⟨c, List.mem_cons_self, h, rfl⟩
      · exact ⟨c', List.mem_cons_of_mem _ hc, hp⟩
    · rintro ⟨c', hc, hp, hpath⟩
      obtain rfl | hc := List.mem_cons.mp hc
      · obtain ⟨path, identity⟩ := p
        cases reports_unique h hp
        cases hpath
        exact Or.inl rfl
      · exact Or.inr ⟨c', hc, hp, hpath⟩

theorem reported_split {cs ds : List Candidate} (h : Reported w l (cs ++ ds) ps) :
    ∃ ps₁ ps₂, ps = ps₁ ++ ps₂ ∧ Reported w l cs ps₁ ∧ Reported w l ds ps₂ := by
  induction cs generalizing ps with
  | nil => exact ⟨[], ps, rfl, .nil, h⟩
  | cons c cs ih =>
    cases h with
    | skipped h hs =>
      obtain ⟨ps₁, ps₂, rfl, h₁, h₂⟩ := ih hs
      exact ⟨ps₁, ps₂, rfl, .skipped h h₁, h₂⟩
    | reports h hs =>
      obtain ⟨ps₁, ps₂, rfl, h₁, h₂⟩ := ih hs
      exact ⟨_ :: ps₁, ps₂, rfl, .reports h h₁, h₂⟩

def nameOf (p : Loaded) : String := p.identity.name

theorem allSettle_iff :
    AllSettle w l cs ↔ ∃ ps, Reported w l cs ps ∧ (ps.map nameOf).Nodup := by
  constructor
  · intro h
    -- From the end, since a file settles by what stands before it.
    induction cs using List.reverseRecOn with
    | nil => exact ⟨[], .nil, List.nodup_nil⟩
    | append_singleton cs c ih =>
      obtain ⟨ps, hps, hn⟩ := ih (allSettle_of_append h)
      obtain hskip | ⟨i, hi, hnew⟩ := h cs c [] rfl
      · have hall := reported_append hps (.skipped hskip .nil)
        rw [List.append_nil] at hall
        exact ⟨ps, hall, hn⟩
      · refine ⟨ps ++ [⟨c.path, i⟩], reported_append hps (.reports hi .nil), ?_⟩
        rw [List.map_append, List.nodup_append]
        refine ⟨hn, List.nodup_singleton _, ?_⟩
        intro name hname name' hname'
        obtain ⟨p, hp, rfl⟩ := List.mem_map.mp hname
        obtain ⟨c', hc', hreports, -⟩ := (mem_reported_iff hps).mp hp
        cases List.mem_singleton.mp hname'
        exact hnew c' hc' p.identity hreports
  · rintro ⟨ps, hps, hn⟩ before c after rfl
    obtain ⟨ps₁, ps₂, rfl, h₁, h₂⟩ := reported_split hps
    cases h₂ with
    | skipped h _ => exact Or.inl h
    | @reports _ _ i _ h _ =>
      refine Or.inr ⟨i, h, ?_⟩
      intro c' hc' i' hi'
      have hmem : (⟨c'.path, i'⟩ : Loaded) ∈ ps₁ :=
        (mem_reported_iff h₁).mpr ⟨c', hc', hi', rfl⟩
      rw [List.map_append, List.nodup_append] at hn
      exact hn.2.2 _ (List.mem_map_of_mem hmem) _ (List.mem_map_of_mem List.mem_cons_self)

theorem refuses_settles {before : List Candidate} {c : Candidate} {e : Error}
    (h : Refuses w l before c e) (h' : Settles w l before c) : False := by
  cases h with
  | fails h =>
    obtain hskip | ⟨i, hi, -⟩ := h'
    · exact fails_skipped h hskip
    · exact fails_reports h hi
  | duplicate h hm hi hn =>
    obtain hskip | ⟨i, hi', hnew⟩ := h'
    · exact skipped_reports hskip h
    · cases reports_unique h hi'
      exact hnew _ hm _ hi hn

theorem refuses_unique {before : List Candidate} {c : Candidate} {e e' : Error}
    (hb : AllSettle w l before) (h : Refuses w l before c e) (h' : Refuses w l before c e') :
    e = e' := by
  cases h with
  | fails h =>
    cases h' with
    | fails h' => exact fails_unique h h'
    | duplicate h' _ _ _ => exact (fails_reports h h').elim
  | @duplicate _ i c₁ h hm h₁ hn =>
    cases h' with
    | fails h' => exact (fails_reports h' h).elim
    | @duplicate _ i' c₂ h' hm' h₂ hn' =>
      cases reports_unique h h'
      obtain ⟨ps, hps, hnodup⟩ := allSettle_iff.mp hb
      have hp₁ : (⟨c₁.path, i⟩ : Loaded) ∈ ps := (mem_reported_iff hps).mpr ⟨c₁, hm, h₁, rfl⟩
      have hp₂ : (⟨c₂.path, i'⟩ : Loaded) ∈ ps := (mem_reported_iff hps).mpr ⟨c₂, hm', h₂, rfl⟩
      have heq := List.inj_on_of_nodup_map hnodup hp₁ hp₂ (hn.trans hn'.symm)
      rw [(Loaded.mk.inj heq).1]

theorem first_unsettled {before before' after after' : List Candidate} {c c' : Candidate}
    (heq : before ++ c :: after = before' ++ c' :: after') (hb : AllSettle w l before)
    (hb' : AllSettle w l before') (hc : ¬ Settles w l before c)
    (hc' : ¬ Settles w l before' c') : before = before' ∧ c = c' ∧ after = after' := by
  -- If one part were longer, the file behind the other one would stand in it, and settle.
  obtain ⟨mid, rfl, hmid⟩ | ⟨mid, rfl, hmid⟩ := List.append_eq_append_iff.mp heq
  · cases mid with
    | nil =>
      cases hmid
      exact ⟨(List.append_nil _).symm, rfl, rfl⟩
    | cons d mid =>
      cases hmid
      exact absurd (hb' before c mid rfl) hc
  · cases mid with
    | nil =>
      cases hmid
      exact ⟨List.append_nil _, rfl, rfl⟩
    | cons d mid =>
      cases hmid
      exact absurd (hb before' c' mid rfl) hc'

end settling

end Attestation.Proofs.Settling
