import Attestation.Mock
import Attestation.Proofs.Composing
import Attestation.Proofs.EvidenceRequests

namespace Attestation.Proofs.Acceptance

open Compositor Course Scheduling Negotiation Gathering Merging Collecting Composing Targets
  EvidenceRequests CmwText SelectionOrder
open Cmw (Collection)
open Json (Value)

variable {H : Type} {registry : Registry H} {attesters : H → SubAttester}

/-- A body that is a request, what it asks for, and its nonce. -/
structure Accepted (mode : ListMode) (registry : Registry H) (body : List UInt8) (c : Challenge)
    (nonce : List UInt8) : Prop where
  read : Json.Decoder.run Challenge.record.decode body = .ok c
  given : c.nonce ≠ ""
  decoded : decodeNonce c.nonce = .ok nonce
  proper : nonce ≠ []
  registered : registry.names ≠ []
  admissible : Admissible mode c.selection

/-- An attester is found under a name that can be a label. It tells its formats, understands the
options, and gives evidence when it is asked for it. -/
def Serves (registry : Registry H) (attesters : H → SubAttester) (nonce : List UInt8)
    (options : Option Value) (name : String) : Prop :=
  ∃ h, registry.lookup name = .ok h ∧ name ≠ "" ∧ name ≠ Cmw.kindLabel ∧
    (attesters h).formats.status.result = true ∧ (attesters h).formats.formats ≠ [] ∧
    Understood (attesters h).formats.formats options ∧
    ((attesters h).evidence
      (chosenRequest nonce (attesters h).formats.formats options)).status.result = true

def evidenceRecord (a : SubAttester) (nonce : List UInt8) (options : Option Value) : Cmw.Record :=
  ⟨chosenType a.formats.formats options,
    (a.evidence (chosenRequest nonce a.formats.formats options)).evidence, none⟩

theorem settled_iff {nonce : List UInt8} {selection : Selection} {plan : Plan H} :
    Settled registry nonce selection plan (attesters plan.attester).formats ↔
      registry.lookup plan.name = .ok plan.attester ∧
        (attesters plan.attester).formats.status.result = true ∧
        (attesters plan.attester).formats.formats ≠ [] ∧
        Understood (attesters plan.attester).formats.formats
          (Value.get? selection plan.name) ∧
        plan.request = chosenRequest nonce (attesters plan.attester).formats.formats
          (Value.get? selection plan.name) := by
  constructor
  · intro h
    exact ⟨lookup_eq_ok_iff.mp h.found, request_eq_ok_iff.mp h.request⟩
  · rintro ⟨hl, hr⟩
    exact ⟨lookup_eq_ok_iff.mpr hl, request_eq_ok_iff.mpr hr⟩

theorem serves_iff {nonce : List UInt8} {selection : Selection} {name : String} :
    Serves registry attesters nonce (Value.get? selection name) name ↔
      (name ≠ "" ∧ name ≠ Cmw.kindLabel) ∧
        ∃ plan, settle registry attesters nonce selection name = .ok plan ∧
          (evidenceFor attesters plan).status.result = true := by
  constructor
  · rintro ⟨h, hl, hne, hk, hr, hf, hu, he⟩
    refine ⟨⟨hne, hk⟩, ⟨name, h, chosenRequest nonce (attesters h).formats.formats
      (Value.get? selection name)⟩, ?_, he⟩
    exact settle_eq_ok_iff.mpr ⟨rfl, settled_iff.mpr ⟨hl, hr, hf, hu, rfl⟩⟩
  · rintro ⟨⟨hne, hk⟩, plan, hp, he⟩
    obtain ⟨rfl, hset⟩ := settle_eq_ok_iff.mp hp
    obtain ⟨hl, hr, hf, hu, hreq⟩ := settled_iff.mp hset
    rw [evidenceFor, hreq] at he
    exact ⟨plan.attester, hl, hne, hk, hr, hf, hu, he⟩

theorem prepare_of_accepted {mode : ListMode} {body : List UInt8} {c : Challenge}
    {nonce : List UInt8} (h : Accepted mode registry body c nonce) :
    Challenge.ofBody body = c ∧ ∃ t, prepare mode registry body = .ok t ∧ t.nonce = nonce := by
  have hc := (ofBody_eq_iff h.given).mpr h.read
  refine ⟨hc, ⟨c.nonce, nonce, counted (entries c.selection)⟩, ?_, rfl⟩
  subst c
  exact prepare_eq_ok_iff.mpr ⟨rfl, h.given, h.decoded, h.registered, h.admissible, rfl⟩

theorem accepted_of_prepare {mode : ListMode} {body : List UInt8} {t : Task}
    (h : prepare mode registry body = .ok t) :
    Accepted mode registry body (Challenge.ofBody body) t.nonce ∧
      t.nonceText = (Challenge.ofBody body).nonce ∧
      t.selection.getD [] = entries (Challenge.ofBody body).selection := by
  obtain ⟨hn, hne, hd, hr, ha, hs⟩ := prepare_eq_ok_iff.mp h
  rw [hn] at hne hd
  refine ⟨⟨(ofBody_eq_iff hne).mp rfl, hne, hd, decodeNonce_ne_nil hd, hr, ha⟩, hn, ?_⟩
  rw [hs, counted_getD]

variable {schedule : Schedule} {s : Compositor.Settings} {body : List UInt8}

/-- The targets of an envelope serve, and its collection holds the records of their evidence. -/
theorem targets_of_composed_ok (hs : schedule.deadline = none) {e : Envelope}
    (h : (composed (steady schedule attesters) s registry body).1 = .ok e) :
    ∃ c nonce coll, Accepted s.listMode registry body c nonce ∧
      (∀ name, IsTarget s.listMode registry c.selection name →
        Serves registry attesters nonce (Value.get? (entries c.selection) name) name) ∧
      e.profile = Envelope.profileTag ∧ e.nonce = c.nonce ∧ e.collection = .ok coll ∧
      coll.kind = Envelope.kind ∧ coll.labels.Nodup ∧
      (∀ name, name ∈ coll.labels ↔ IsTarget s.listMode registry c.selection name) ∧
      ∀ name h, IsTarget s.listMode registry c.selection name → registry.lookup name = .ok h →
        coll.get? name = some (.record (evidenceRecord (attesters h) nonce
          (Value.get? (entries c.selection) name))) := by
  obtain ⟨t, plans, answered, ht, hplans, _, hperm, hsucc, he, hl, rfl, hread⟩ := composed_ok hs h
  obtain ⟨ha, hn, hsel⟩ := accepted_of_prepare ht
  have htarget := mem_targets_iff ht
  obtain ⟨hnames, hset⟩ := settleAll_eq_ok_iff.mp hplans
  rw [hsel] at hset
  have hlabels := labels_perm hperm
  rw [hnames] at hlabels
  have hanswered : ∀ name, IsTarget s.listMode registry (Challenge.ofBody body).selection name →
      ∃ x ∈ answered, x.1 ∈ plans ∧ x.1.name = name := by
    intro name hname
    rw [← htarget, ← hlabels.mem_iff] at hname
    obtain ⟨x, hx, rfl⟩ := exists_of_mem_labels hname
    exact ⟨x, hx, hperm.mem_iff.mp (List.mem_map_of_mem hx), rfl⟩
  refine ⟨Challenge.ofBody body, t.nonce, collectionOf answered, ha, ?_, rfl, hn, hread, rfl, hl.1,
    ?_, ?_⟩
  · intro name hname
    obtain ⟨x, hx, hplan, rfl⟩ := hanswered name hname
    have hlabel : x.1.name ∈ (collectionOf answered).labels :=
      hlabels.mem_iff.mpr ((htarget _).mpr hname)
    refine serves_iff.mpr ⟨hl.2 _ hlabel, x.1, settle_eq_ok_iff.mpr ⟨rfl, hset _ hplan⟩, ?_⟩
    rw [← he x hx]
    exact hsucc x hx
  · intro name
    exact hlabels.mem_iff.trans (htarget name)
  · intro name h hname hlookup
    obtain ⟨x, hx, hplan, rfl⟩ := hanswered name hname
    obtain ⟨hfound, _, _, _, hreq⟩ := settled_iff.mp (hset _ hplan)
    cases hfound.symm.trans hlookup
    rw [get?_collectionOf hl.1 hx, item, he x hx, evidenceFor, hreq]
    rfl

theorem exists_envelope_of_serves (hnames : registry.names.Nodup) (hs : schedule.deadline = none)
    {c : Challenge} {nonce : List UInt8} (ha : Accepted s.listMode registry body c nonce)
    (hserves : ∀ name, IsTarget s.listMode registry c.selection name →
      Serves registry attesters nonce (Value.get? (entries c.selection) name) name) :
    ∃ e, (composed (steady schedule attesters) s registry body).1 = .ok e := by
  obtain ⟨rfl, t, ht, rfl⟩ := prepare_of_accepted ha
  obtain ⟨_, _, hsel⟩ := accepted_of_prepare ht
  rw [← hsel] at hserves
  have hsettle : ∀ name ∈ t.targets s.listMode registry, _ := fun name hname =>
    serves_iff.mp (hserves name ((mem_targets_iff ht name).mp hname))
  obtain ⟨plans, hplans⟩ := exists_settleAll fun name hname =>
    (hsettle name hname).2.imp fun _ h => h.1
  obtain ⟨hplannames, hset⟩ := settleAll_eq_ok_iff.mp hplans
  have hname : ∀ plan ∈ plans, plan.name ∈ t.targets s.listMode registry := by
    intro plan hplan
    rw [← hplannames]
    exact List.mem_map_of_mem hplan
  refine exists_composed_ok hs ht hplans ?_ ⟨?_, ?_⟩
  · intro plan hplan
    obtain ⟨_, other, hother, he⟩ := hsettle plan.name (hname plan hplan)
    have hplan' := settle_eq_ok_iff.mpr ⟨rfl, hset plan hplan⟩
    cases hother.symm.trans hplan'
    exact he
  · rw [hplannames]
    exact targets_nodup hnames ht
  · rw [hplannames]
    exact fun name hmem => (hsettle name hmem).1

/-- A request is answered with an envelope if and only if it is accepted and all its targets
serve; the envelope then holds the evidence of each target once, and nothing else. -/
theorem envelope_iff_all_serve (hnames : registry.names.Nodup) (hs : schedule.deadline = none) :
    ((∃ e, (composed (steady schedule attesters) s registry body).1 = .ok e) ↔
      ∃ c nonce, Accepted s.listMode registry body c nonce ∧
        ∀ name, IsTarget s.listMode registry c.selection name →
          Serves registry attesters nonce (Value.get? (entries c.selection) name) name) ∧
    ∀ e, (composed (steady schedule attesters) s registry body).1 = .ok e →
      ∃ c nonce coll, Accepted s.listMode registry body c nonce ∧
        e.profile = Envelope.profileTag ∧ e.nonce = c.nonce ∧ e.collection = .ok coll ∧
        coll.kind = Envelope.kind ∧ coll.labels.Nodup ∧
        (∀ name, name ∈ coll.labels ↔ IsTarget s.listMode registry c.selection name) ∧
        ∀ name h, IsTarget s.listMode registry c.selection name → registry.lookup name = .ok h →
          coll.get? name = some (.record (evidenceRecord (attesters h) nonce
            (Value.get? (entries c.selection) name))) := by
  refine ⟨⟨?_, ?_⟩, ?_⟩
  · rintro ⟨e, he⟩
    obtain ⟨c, nonce, _, ha, hserves, _⟩ := targets_of_composed_ok hs he
    exact ⟨c, nonce, ha, hserves⟩
  · rintro ⟨c, nonce, ha, hserves⟩
    exact exists_envelope_of_serves hnames hs ha hserves
  · intro e he
    obtain ⟨c, nonce, coll, ha, _, hrest⟩ := targets_of_composed_ok hs he
    exact ⟨c, nonce, coll, ha, hrest⟩

/-- Two attesters that are selected in descending order, and answer in that order. -/
theorem envelope_of_pair :
    let registry := Mock.registry [("a", ⟨"x", [1]⟩), ("b", ⟨"y", [2, 3]⟩)]
    registry.names.Nodup ∧ lastFirst.deadline = none ∧
      ∃ e, (composed (steady lastFirst id) ⟨.selected, .parallel, 0⟩ registry pairRequest).1 =
        .ok e := by
  refine ⟨by decide, rfl, (envelope_iff_all_serve (by decide) rfl).1.mpr ?_⟩
  refine ⟨⟨"AQ", some (.object [("a", .object [("content-type", .string "x")]), ("b", .null)])⟩,
    [1], ⟨run_pairRequest, by decide, rfl, by decide, by decide, trivial⟩, ?_⟩
  intro name hname
  obtain rfl | hname := List.mem_cons.mp hname
  · refine ⟨_, rfl, by decide, by decide, rfl, by decide, ?_, rfl⟩
    rintro v ⟨⟩
    exact ⟨⟨"x", 64⟩, List.mem_singleton_self _, rfl⟩
  · cases List.mem_singleton.mp hname
    exact ⟨_, rfl, by decide, by decide, rfl, by decide, trivial, rfl⟩

end Attestation.Proofs.Acceptance
