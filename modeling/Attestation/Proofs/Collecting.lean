import Attestation.Proofs.Gathering
import Attestation.Proofs.Merging
import Attestation.Proofs.Negotiation

namespace Attestation.Proofs.Collecting

open Compositor Course Scheduling Negotiation Gathering Merging

variable {H : Type} {mode : ListMode} {fanOut : FanOut} {registry : Registry H} {t : Task}

def negotiation (mode : ListMode) (registry : Registry H) (t : Task) : Part H (List (Plan H)) :=
  negotiateAll registry t.nonce (t.selection.getD []) (t.targets mode registry)

theorem collect_follows {log : List (Event H)} {result : Option (Except Problem Cmw.Collection)}
    (h : Follows (collect mode fanOut registry t).run log result) :
    (∃ early, Ends early result ∧ Follows (negotiation mode registry t).run log early) ∨
      ∃ plans log₁ log₂ gathered, log = log₁ ++ log₂ ∧
        Follows (negotiation mode registry t).run log₁ (some (.ok plans)) ∧
        Follows (invoke fanOut plans).run log₂ gathered ∧
        result = gathered.map (· >>= merge) := by
  obtain hn | ⟨plans, log₁, log₂, rfl, hn, hr⟩ := follows_part_bind h
  · exact Or.inl hn
  · refine Or.inr ⟨plans, log₁, log₂, ?_⟩
    obtain ⟨_, ⟨⟩ | ⟨p⟩, hi⟩ | ⟨items, log₂, log₃, rfl, hi, hm⟩ := follows_part_bind hr
    · exact ⟨none, rfl, hn, hi, rfl⟩
    · exact ⟨some (.error p), rfl, hn, hi, rfl⟩
    · obtain ⟨rfl, rfl⟩ := follows_done hm
      rw [List.append_nil]
      exact ⟨some (.ok items), rfl, hn, hi, rfl⟩

/-- A course up to the name at which its negotiation stops, or through all of its negotiation. -/
theorem collect_stages {log : List (Event H)} {result : Option (Except Problem Cmw.Collection)}
    (h : Follows (collect mode fanOut registry t).run log result) :
    ∃ settled : List (Plan H × FormatsAnswer),
      (∀ x ∈ settled, Settled registry t.nonce (t.selection.getD []) x.1 x.2) ∧
      ((∃ name rest stop, t.targets mode registry = settled.map (·.1.name) ++ name :: rest ∧
          log = settled.map told ++ stop ∧
          Stops registry t.nonce (t.selection.getD []) name stop result) ∨
        ∃ log₂ gathered, t.targets mode registry = settled.map (·.1.name) ∧
          log = settled.map told ++ log₂ ∧
          Follows (invoke fanOut (settled.map (·.1))).run log₂ gathered ∧
          result = gathered.map (· >>= merge)) := by
  obtain ⟨early, he, hn⟩ | ⟨plans, log₁, log₂, gathered, rfl, hn, hi, hr⟩ := collect_follows h
  · obtain ⟨settled, hall, ⟨_, _, rfl⟩ | ⟨name, rest, stop, hnames, rfl, hs⟩⟩ :=
      negotiateAll_follows hn
    · cases he
    · exact ⟨settled, hall, Or.inl ⟨name, rest, stop, hnames, rfl, stops_ends hs he⟩⟩
  · obtain ⟨settled, hall, ⟨hnames, rfl, hc⟩ | ⟨_, _, _, _, _, hs⟩⟩ := negotiateAll_follows hn
    · cases hc
      exact ⟨settled, hall, Or.inr ⟨log₂, gathered, hnames, rfl, hi, hr⟩⟩
    · exact absurd hs not_stops_ok

theorem conclude_of_stops {nonce : List UInt8} {selection : Selection} {name : String}
    {log : List (Event H)} {result : Option (Except Problem Cmw.Collection)}
    (hs : Stops registry nonce selection name log result) {timeout : Nat} {t : Task}
    {e : Envelope} : conclude timeout t result ≠ .ok e := by
  cases hs <;> nofun

/-- What attesters come to whose answers do not change. -/
def plansOf (mode : ListMode) (registry : Registry H) (attesters : H → SubAttester) (t : Task) :
    Except Problem (List (Plan H)) :=
  (t.targets mode registry).mapM (settle registry attesters t.nonce (t.selection.getD []))

def evidenceFor (attesters : H → SubAttester) (plan : Plan H) : EvidenceAnswer :=
  (attesters plan.attester).evidence plan.request

theorem answered_eq {attesters : H → SubAttester} {log : List (Event H)}
    (hlog : Answers attesters log) {x : Plan H × EvidenceAnswer}
    (hx : turn x ∈ log ∨ x ∈ arrivals log) : x.2 = evidenceFor attesters x.1 := by
  obtain hx | hx := hx
  · exact hlog.query _ _ _ hx
  · exact hlog.arrival x hx

theorem arrivals_negotiation {log : List (Event H)}
    {result : Option (Except Problem (List (Plan H)))}
    (h : Follows (negotiation mode registry t).run log result) : arrivals log = [] := by
  have htold : ∀ settled : List (Plan H × FormatsAnswer), arrivals (settled.map told) = [] := by
    intro settled
    rw [arrivals, List.filterMap_map]
    exact List.filterMap_eq_nil_iff.mpr fun _ _ => rfl
  obtain ⟨settled, _, ⟨_, rfl, _⟩ | ⟨_, _, stop, _, rfl, hs⟩⟩ := negotiateAll_follows h
  · exact htold settled
  · rw [arrivals_append, htold]
    cases hs <;> rfl

/-- What comes of collecting from attesters whose answers do not change, without a deadline. -/
inductive Collected (fanOut : FanOut) (attesters : H → SubAttester) (log : List (Event H)) :
    Except Problem (List (Plan H)) → Option (Except Problem Cmw.Collection) → Prop
  | refused (p : Problem) : Collected fanOut attesters log (.error p) (some (.error p))
  | complete {plans answered} (ha : Arranged fanOut plans log answered)
      (he : ∀ x ∈ answered, x.2 = evidenceFor attesters x.1) (hs : Successes answered)
      (hp : (answered.map (·.1)).Perm plans) :
      Collected fanOut attesters log (.ok plans) (some (merge (answered.map item)))
  | failed {plans answered plan a} (ha : Arranged fanOut plans log (answered ++ [(plan, a)]))
      (he : ∀ x ∈ answered ++ [(plan, a)], x.2 = evidenceFor attesters x.1)
      (hs : Successes answered) (hf : a.status.result = false) (hm : plan ∈ plans) :
      Collected fanOut attesters log (.ok plans)
        (some (.error (refusal plan.name a.status.error)))

theorem collect_answers {attesters : H → SubAttester} {log : List (Event H)}
    {result : Option (Except Problem Cmw.Collection)} (hlog : Answers attesters log)
    (h : Follows (collect mode fanOut registry t).run log result) :
    Collected fanOut attesters log (plansOf mode registry attesters t) result := by
  have hplans : ∀ {log' result'}, Answers attesters log' →
      Follows (negotiation mode registry t).run log' result' →
      result' = some (plansOf mode registry attesters t) := fun hl hn => negotiateAll_settles hl hn
  obtain ⟨_, ⟨⟩ | ⟨p⟩, hn⟩ | ⟨plans, log₁, log₂, gathered, rfl, hn, hi, rfl⟩ :=
    collect_follows h
  · cases hplans hlog hn
  · rw [← Option.some.inj (hplans hlog hn)]
    exact Collected.refused p
  · obtain ⟨hlog₁, hlog₂⟩ := answers_append hlog
    rw [← Option.some.inj (hplans hlog₁ hn)]
    obtain ⟨answered, sent, unsent, unanswered, ho, hp, ha, hx⟩ := invoke_follows hi
    have he : ∀ x ∈ answered, x.2 = evidenceFor attesters x.1 := fun x hm =>
      answered_eq hlog₂ (hx x hm)
    have harr : Arranged fanOut plans (log₁ ++ log₂) answered := by
      cases fanOut with
      | sequential => exact ha
      | parallel =>
        rw [Arranged, arrivals_append, arrivals_negotiation hn]
        exact ha
    cases ho with
    | complete hs => exact Collected.complete harr he hs (progress_complete hp).2
    | @failed answered plan a hs hf =>
      refine Collected.failed harr he hs hf ?_
      have hmem : plan ∈ [] ++ sent := hp.each.subset (by simp)
      rw [hp.order]
      exact List.mem_append_left _ hmem
    | late _ =>
      obtain ⟨c, hc, hne⟩ := hp.cut rfl
      exact absurd (hlog₂.timely c hc) hne

end Attestation.Proofs.Collecting
