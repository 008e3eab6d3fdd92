import Attestation.Proofs.JsonRecords
import Attestation.Proofs.Scheduling

namespace Attestation.Proofs.Negotiation

open Compositor Course JsonRecords Scheduling
open Json (Value)

variable {H α : Type} {registry : Registry H} {nonce : List UInt8} {selection : Selection}

theorem lookup_eq_ok_iff {name : String} {h : H} :
    lookup registry name = .ok h ↔ registry.lookup name = .ok h := by
  unfold lookup
  cases registry.lookup name with
  | ok a => exact ⟨fun hl => congrArg Except.ok (Except.ok.inj hl),
      fun hl => congrArg Except.ok (Except.ok.inj hl)⟩
  | error e => exact ⟨nofun, nofun⟩

structure Settled (registry : Registry H) (nonce : List UInt8) (selection : Selection)
    (plan : Plan H) (formats : FormatsAnswer) : Prop where
  found : lookup registry plan.name = .ok plan.attester
  request : request plan.name nonce formats (Value.get? selection plan.name) = .ok plan.request

def told (x : Plan H × FormatsAnswer) : Event H := ⟨.query x.1.attester .formats, some x.2⟩

/-- The events of a negotiation that comes to no request, and its result. -/
inductive Stops (registry : Registry H) (nonce : List UInt8) (selection : Selection)
    (name : String) : List (Event H) → Option (Except Problem α) → Prop
  | unknown {p : Problem} (h : lookup registry name = .error p) :
      Stops registry nonce selection name [] (some (.error p))
  | late {h : H} (hl : lookup registry name = .ok h) :
      Stops registry nonce selection name [⟨.query h .formats, none⟩] none
  | refused {h : H} {formats : FormatsAnswer} {p : Problem} (hl : lookup registry name = .ok h)
      (hr : request name nonce formats (Value.get? selection name) = .error p) :
      Stops registry nonce selection name [⟨.query h .formats, some formats⟩] (some (.error p))

theorem stops_ends {β : Type} {name : String} {log : List (Event H)}
    {early : Option (Except Problem α)} {result : Option (Except Problem β)}
    (h : Stops registry nonce selection name log early) (he : Ends early result) :
    Stops registry nonce selection name log result := by
  cases h with
  | unknown hl =>
    cases he
    exact Stops.unknown hl
  | late hl =>
    cases he
    exact Stops.late hl
  | refused hl hr =>
    cases he
    exact Stops.refused hl hr

theorem not_stops_ok {name : String} {log : List (Event H)} {a : α} :
    ¬ Stops registry nonce selection name log (some (.ok a)) := by
  intro h
  cases h

theorem negotiate_run (registry : Registry H) (nonce : List UInt8) (selection : Selection)
    (name : String) :
    (negotiate registry nonce selection name).run =
      match lookup registry name with
      | .error p => .done (.error p)
      | .ok h => .ask (.query h .formats) fun formats =>
          .done ((request name nonce formats (Value.get? selection name)).map
            fun r => ⟨name, h, r⟩) := by
  unfold negotiate
  cases lookup registry name with
  | error p => rfl
  | ok h =>
    refine congrArg (Dialogue.ask (Call.query h .formats)) ?_
    funext formats
    simp only [Dialogue.bind, ExceptT.bindCont]
    cases request name nonce formats (Value.get? selection name) <;> rfl

theorem negotiate_follows {name : String} {log : List (Event H)}
    {result : Option (Except Problem (Plan H))}
    (h : Follows (negotiate registry nonce selection name).run log result) :
    (∃ plan formats, plan.name = name ∧ Settled registry nonce selection plan formats ∧
        log = [told (plan, formats)] ∧ result = some (.ok plan)) ∨
      Stops registry nonce selection name log result := by
  rw [negotiate_run] at h
  cases hl : lookup registry name with
  | error p =>
    rw [hl] at h
    obtain ⟨rfl, rfl⟩ := follows_done h
    exact Or.inr (Stops.unknown hl)
  | ok a =>
    rw [hl] at h
    obtain ⟨rfl, rfl⟩ | ⟨formats, rest, rfl, hr⟩ := follows_ask h
    · exact Or.inr (Stops.late hl)
    · obtain ⟨rfl, rfl⟩ := follows_done hr
      cases hq : request name nonce formats (Value.get? selection name) with
      | error p => exact Or.inr (Stops.refused hl hq)
      | ok r => exact Or.inl ⟨⟨name, a, r⟩, formats, rfl, ⟨hl, hq⟩, rfl, rfl⟩

theorem negotiateAll_follows {names : List String} {log : List (Event H)}
    {result : Option (Except Problem (List (Plan H)))}
    (h : Follows (negotiateAll registry nonce selection names).run log result) :
    ∃ settled : List (Plan H × FormatsAnswer),
      (∀ x ∈ settled, Settled registry nonce selection x.1 x.2) ∧
      ((names = settled.map (·.1.name) ∧ log = settled.map told ∧
          result = some (.ok (settled.map (·.1)))) ∨
        ∃ name rest stop, names = settled.map (·.1.name) ++ name :: rest ∧
          log = settled.map told ++ stop ∧ Stops registry nonce selection name stop result) := by
  induction names generalizing log result with
  | nil =>
    obtain ⟨rfl, rfl⟩ := follows_done h
    exact ⟨[], fun _ hx => absurd hx List.not_mem_nil, Or.inl ⟨rfl, rfl, rfl⟩⟩
  | cons name names ih =>
    rw [negotiateAll] at h
    obtain ⟨early, he, hn⟩ | ⟨plan, log₁, log₂, rfl, hn, hr⟩ := follows_part_bind h
    · obtain ⟨_, _, _, _, _, rfl⟩ | hs := negotiate_follows hn
      · cases he
      · exact ⟨[], fun _ hx => absurd hx List.not_mem_nil,
          Or.inr ⟨name, names, log, rfl, rfl, stops_ends hs he⟩⟩
    · obtain ⟨plan, formats, rfl, hset, rfl, hc⟩ | hs := negotiate_follows hn
      · cases hc
        have hcons : ∀ {settled : List (Plan H × FormatsAnswer)},
            (∀ x ∈ settled, Settled registry nonce selection x.1 x.2) →
            ∀ x ∈ (plan, formats) :: settled, Settled registry nonce selection x.1 x.2 :=
          fun hall => List.forall_mem_cons.mpr ⟨hset, hall⟩
        obtain ⟨early, he, hm⟩ | ⟨plans, log₂, log₃, rfl, hm, hd⟩ := follows_part_bind hr
        · obtain ⟨settled, hall, ⟨_, _, rfl⟩ | ⟨name', rest, stop, rfl, rfl, hs⟩⟩ := ih hm
          · cases he
          · exact ⟨(plan, formats) :: settled, hcons hall,
              Or.inr ⟨name', rest, stop, rfl, rfl, stops_ends hs he⟩⟩
        · obtain ⟨rfl, rfl⟩ := follows_done hd
          obtain ⟨settled, hall, ⟨rfl, rfl, hc⟩ | ⟨_, _, _, _, _, hs⟩⟩ := ih hm
          · cases hc
            exact ⟨(plan, formats) :: settled, hcons hall,
              Or.inl ⟨rfl, by rw [List.append_nil]; rfl, rfl⟩⟩
          · exact absurd hs not_stops_ok
      · exact absurd hs not_stops_ok

theorem questions_told (settled : List (Plan H × FormatsAnswer)) :
    questions (settled.map told) = settled.map fun x => (x.1.attester, .formats) := by
  rw [questions, List.filterMap_map]
  exact congrFun List.filterMap_eq_map settled

theorem stops_questions {name : String} {log : List (Event H)}
    {result : Option (Except Problem α)} (h : Stops registry nonce selection name log result) :
    questions log = [] ∨
      ∃ a, lookup registry name = .ok a ∧ questions log = [(a, .formats)] := by
  cases h with
  | unknown _ => exact Or.inl rfl
  | late hl => exact Or.inr ⟨_, hl, rfl⟩
  | refused hl _ => exact Or.inr ⟨_, hl, rfl⟩

/-- The request that attesters come to whose answers do not change. -/
def settle (registry : Registry H) (attesters : H → SubAttester) (nonce : List UInt8)
    (selection : Selection) (name : String) : Except Problem (Plan H) := do
  let h ← lookup registry name
  let r ← request name nonce (attesters h).formats (Value.get? selection name)
  return ⟨name, h, r⟩

theorem settle_eq_ok_iff {attesters : H → SubAttester} {name : String} {plan : Plan H} :
    settle registry attesters nonce selection name = .ok plan ↔
      plan.name = name ∧
        Settled registry nonce selection plan (attesters plan.attester).formats := by
  unfold settle
  constructor
  · intro h
    obtain ⟨a, hl, h⟩ := (bind_ok_iff _ _ _).mp h
    obtain ⟨r, hr, h⟩ := (bind_ok_iff _ _ _).mp h
    cases h
    exact ⟨rfl, ⟨hl, hr⟩⟩
  · rintro ⟨rfl, hl, hr⟩
    refine (bind_ok_iff _ _ _).mpr ⟨plan.attester, hl, ?_⟩
    exact (bind_ok_iff _ _ _).mpr ⟨plan.request, hr, rfl⟩

theorem settleAll_eq_ok_iff {attesters : H → SubAttester} {names : List String}
    {plans : List (Plan H)} :
    names.mapM (settle registry attesters nonce selection) = .ok plans ↔
      plans.map (·.name) = names ∧ ∀ plan ∈ plans,
        Settled registry nonce selection plan (attesters plan.attester).formats := by
  induction names generalizing plans with
  | nil =>
    constructor
    · intro h
      cases h
      exact ⟨rfl, fun _ hx => absurd hx List.not_mem_nil⟩
    · rintro ⟨h, _⟩
      rw [List.map_eq_nil_iff.mp h]
      rfl
  | cons name names ih =>
    rw [List.mapM_cons]
    constructor
    · intro h
      obtain ⟨plan, hp, h⟩ := (bind_ok_iff _ _ _).mp h
      obtain ⟨rest, hr, h⟩ := (bind_ok_iff _ _ _).mp h
      cases h
      obtain ⟨rfl, hs⟩ := settle_eq_ok_iff.mp hp
      obtain ⟨rfl, hall⟩ := ih.mp hr
      exact ⟨rfl, List.forall_mem_cons.mpr ⟨hs, hall⟩⟩
    · rintro ⟨hnames, hall⟩
      obtain ⟨plan, rest, rfl, rfl, hrest⟩ := List.map_eq_cons_iff.mp hnames
      obtain ⟨hs, hall⟩ := List.forall_mem_cons.mp hall
      refine (bind_ok_iff _ _ _).mpr ⟨plan, settle_eq_ok_iff.mpr ⟨rfl, hs⟩, ?_⟩
      exact (bind_ok_iff _ _ _).mpr ⟨rest, ih.mpr ⟨hrest, hall⟩, rfl⟩

theorem exists_settleAll {attesters : H → SubAttester} {names : List String}
    (h : ∀ name ∈ names, ∃ plan, settle registry attesters nonce selection name = .ok plan) :
    ∃ plans, names.mapM (settle registry attesters nonce selection) = .ok plans := by
  induction names with
  | nil => exact ⟨[], rfl⟩
  | cons name names ih =>
    obtain ⟨hname, hnames⟩ := List.forall_mem_cons.mp h
    obtain ⟨plan, hp⟩ := hname
    obtain ⟨plans, hps⟩ := ih hnames
    refine ⟨plan :: plans, ?_⟩
    rw [List.mapM_cons]
    refine (bind_ok_iff _ _ _).mpr ⟨plan, hp, ?_⟩
    exact (bind_ok_iff _ _ _).mpr ⟨plans, hps, rfl⟩

theorem stops_settle {attesters : H → SubAttester} {name : String} {log : List (Event H)}
    {result : Option (Except Problem α)} (hlog : Answers attesters log)
    (h : Stops registry nonce selection name log result) :
    ∃ p, settle registry attesters nonce selection name = .error p ∧
      result = some (.error p) := by
  cases h with
  | @unknown p hl =>
    refine ⟨p, ?_, rfl⟩
    unfold settle
    rw [hl]
    rfl
  | late _ => cases hlog.timely _ List.mem_cons_self
  | @refused h formats p hl hr =>
    refine ⟨p, ?_, rfl⟩
    cases hlog.query _ _ _ List.mem_cons_self
    unfold settle
    rw [hl]
    change (request name nonce (attesters h).formats (Value.get? selection name) >>= _) = _
    rw [show (attesters h).formats = (attesters h).answer .formats from rfl, hr]
    rfl

/-- With attesters whose answers do not change, and without a deadline, all courses of a
negotiation have one result. -/
theorem negotiateAll_settles {attesters : H → SubAttester} {names : List String}
    {log : List (Event H)} {result : Option (Except Problem (List (Plan H)))}
    (hlog : Answers attesters log)
    (h : Follows (negotiateAll registry nonce selection names).run log result) :
    result = some (names.mapM (settle registry attesters nonce selection)) := by
  obtain ⟨settled, hall, hend⟩ := negotiateAll_follows h
  have hsettled : ∀ log', log = settled.map told ++ log' →
      (settled.map (·.1.name)).mapM (settle registry attesters nonce selection) =
        .ok (settled.map (·.1)) := by
    rintro log' rfl
    refine settleAll_eq_ok_iff.mpr ⟨by rw [List.map_map]; rfl, ?_⟩
    intro plan hplan
    obtain ⟨⟨plan, formats⟩, hx, rfl⟩ := List.mem_map.mp hplan
    have hmem : told (plan, formats) ∈ settled.map told ++ log' :=
      List.mem_append_left _ (List.mem_map_of_mem hx)
    have hformats : formats = (attesters plan.attester).formats :=
      hlog.query plan.attester .formats formats hmem
    exact hformats ▸ hall _ hx
  obtain ⟨rfl, hl, rfl⟩ | ⟨name, rest, stop, rfl, rfl, hs⟩ := hend
  · rw [hsettled [] (by rw [hl, List.append_nil])]
  · obtain ⟨p, hp, rfl⟩ := stops_settle (answers_append hlog).2 hs
    rw [List.mapM_append, hsettled stop rfl, List.mapM_cons, hp]
    rfl

end Attestation.Proofs.Negotiation
