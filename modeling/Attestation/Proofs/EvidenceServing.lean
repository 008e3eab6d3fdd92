import Attestation.Proofs.Acceptance
import Attestation.Proofs.EvidenceFiles
import Attestation.Proofs.InstantAttesters
import Attestation.Proofs.ModeAgreement
import Attestation.Proofs.Utf8Encoding

namespace Attestation.Proofs.EvidenceServing

open Acceptance Compositor Course Scheduling Composing EvidenceFiles EvidenceRequests
  InstantAttesters JsonGrammar Mock ModeAgreement SelectionOrder Tables Targets
open Json (Value)
open Utf8Encoding (bytesOf)

variable {H : Type}

/-- A response that is an envelope if all names can be labels. Its collection then has one record
for each name: the evidence that stands last under it. -/
structure ServesFile (entries : List (String × Canned)) (nonceText : String) (fanOut : FanOut)
    (response : Except Problem Envelope) : Prop where
  served : (∃ e, response = .ok e) ↔ ∀ x ∈ entries, x.1 ≠ "" ∧ x.1 ≠ Cmw.kindLabel
  holds : ∀ e, response = .ok e → e.profile = Envelope.profileTag ∧ e.nonce = nonceText ∧
    ∃ c, e.collection = .ok c ∧ c.kind = Envelope.kind ∧ c.labels.Nodup ∧
      (∀ name, name ∈ c.labels ↔ name ∈ entries.map (·.1)) ∧
      (∀ before name canned after, entries = before ++ (name, canned) :: after →
        name ∉ after.map (·.1) →
        c.get? name = some (.record ⟨canned.contentType, canned.evidence, none⟩)) ∧
      (fanOut = .sequential → c.labels.Pairwise (· < ·))

section table

variable {entries : List (String × Canned)} {name : String} {canned : Canned}

theorem find?_last {before after : List (String × Canned)} (hafter : name ∉ after.map (·.1)) :
    Table.find? (Table.ofList (before ++ (name, canned) :: after)) name = some canned := by
  rw [find?_ofList, find?_eq_some_iff]
  refine ⟨after.reverse, before.reverse, by simp, fun m hm h => hafter ?_⟩
  exact List.mem_map.mpr ⟨m, List.mem_reverse.mp hm, h⟩

theorem mem_names_iff {ms : List (String × Canned)} :
    name ∈ ms.map (·.1) ↔ ∃ canned, Table.find? ms name = some canned := by
  rw [← Option.ne_none_iff_exists', ne_eq, find?_eq_none_iff]
  simp

theorem names_ofList : name ∈ (Table.ofList entries).map (·.1) ↔ name ∈ entries.map (·.1) := by
  rw [mem_names_iff, find?_ofList, ← mem_names_iff, List.map_reverse, List.mem_reverse]

end table

/-- Attesters that are those of a file. -/
structure Registers (registry : Registry H) (attesters : H → SubAttester) (table : Attesters) :
    Prop where
  names : registry.names = table.map (·.1)
  lookup : ∀ name canned, Table.find? table name = some canned →
    ∃ h, registry.lookup name = .ok h ∧ attesters h = subAttester name canned

theorem registers_registry (table : Attesters) : Registers (Mock.registry table) id table where
  names := rfl
  lookup name canned h := ⟨subAttester name canned, by simp [Mock.registry, Mock.lookup, h], rfl⟩

/-- The attesters of a registry, none of which takes any time. -/
def instantly (registry : Registry SubAttester) : Registry TimedAttester where
  names := registry.names
  lookup name := (registry.lookup name).map fun a => ⟨name, a, 0, 0⟩

theorem registers_instantly (table : Attesters) :
    Registers (instantly (Mock.registry table)) TimedAttester.attester table where
  names := rfl
  lookup name canned h := ⟨⟨name, subAttester name canned, 0, 0⟩,
    by simp [instantly, Mock.registry, Mock.lookup, h, Except.map], rfl⟩

theorem instant_instantly {registry : Registry SubAttester} {name : String} {a : TimedAttester}
    (h : (instantly registry).lookup name = .ok a) : Instant a := by
  obtain ⟨_, _, rfl⟩ := (JsonRecords.map_ok_iff _ _ _).mp h
  exact ⟨rfl, rfl⟩

theorem evidence_canned (name : String) (canned : Canned) (nonce : List UInt8) :
    (subAttester name canned).evidence
      (chosenRequest nonce (subAttester name canned).formats.formats none) =
      .success canned.evidence :=
  if_pos rfl

section serving

variable {registry : Registry H} {attesters : H → SubAttester} {entries : List (String × Canned)}
  {body : List UInt8} {text : String} {selection : Option Value} {nonce : List UInt8}

/-- A request that selects no attester. -/
structure Asks (body : List UInt8) (text : String) (selection : Option Value)
    (nonce : List UInt8) : Prop where
  read : Json.Decoder.run Challenge.record.decode body = .ok ⟨text, selection⟩
  decoded : decodeNonce text = .ok nonce
  unselected : selection = none ∨ selection = some (.object [])

theorem Asks.unfiltered (h : Asks body text selection nonce) :
    Targets.entries selection = [] := by
  obtain rfl | rfl := h.unselected
  · rfl
  · rfl

theorem Asks.accepted (h : Asks body text selection nonce) (hr : registry.names ≠ []) :
    Accepted .all registry body ⟨text, selection⟩ nonce where
  read := h.read
  given := by
    rintro rfl
    cases h.decoded
  decoded := h.decoded
  proper := decodeNonce_ne_nil h.decoded
  registered := hr
  admissible := by
    obtain rfl | rfl := h.unselected
    · trivial
    · trivial

theorem serves_canned_iff (hr : Registers registry attesters (Table.ofList entries)) {name : String}
    (hname : name ∈ registry.names) :
    Serves registry attesters nonce none name ↔ name ≠ "" ∧ name ≠ Cmw.kindLabel := by
  constructor
  · rintro ⟨_, _, hne, hk, _⟩
    exact ⟨hne, hk⟩
  · rintro ⟨hne, hk⟩
    rw [hr.names] at hname
    obtain ⟨canned, hfind⟩ := mem_names_iff.mp hname
    obtain ⟨h, hlookup, ha⟩ := hr.lookup name canned hfind
    refine ⟨h, hlookup, hne, hk, ?_⟩
    rw [ha, evidence_canned]
    exact ⟨rfl, List.cons_ne_nil _ _, trivial, rfl⟩

variable {schedule : Schedule} {fanOut : FanOut} {timeout : Nat}

theorem inTurn_ascending (hs : schedule.deadline = none) {e : Envelope} {c : Cmw.Collection}
    (he : (composed (steady schedule attesters) ⟨.all, .sequential, timeout⟩ registry body).1 =
      .ok e) (hc : e.collection = .ok c) : c.labels.Pairwise (· < ·) := by
  obtain ⟨t, plans, answered, ht, hplans, ha, hp, _, _, hl, _, hread⟩ := composed_ok hs he
  cases hc.symm.trans hread
  exact inTurn_labels ht hplans ha hp hl

theorem composed_serves (hr : Registers registry attesters (Table.ofList entries))
    (hne : entries ≠ []) (hasks : Asks body text selection nonce) (hs : schedule.deadline = none) :
    ServesFile entries text fanOut
      (composed (steady schedule attesters) ⟨.all, fanOut, timeout⟩ registry body).1 := by
  have hnames : ∀ name, name ∈ registry.names ↔ name ∈ entries.map (·.1) := by
    intro name
    rw [hr.names]
    exact names_ofList
  have hnone : ∀ name, Value.get? (Targets.entries selection) name = none := by
    intro name
    rw [hasks.unfiltered]
    rfl
  constructor
  · constructor
    · rintro ⟨e, he⟩ x hx
      obtain ⟨c, nonce', coll, ha, hserves, -⟩ := targets_of_composed_ok hs he
      cases hasks.read.symm.trans ha.read
      have hname : x.1 ∈ registry.names := (hnames _).mpr (List.mem_map_of_mem hx)
      have hx := hserves x.1 hname
      rw [hnone] at hx
      exact (serves_canned_iff hr hname).mp hx
    · intro hall
      have hnodup : registry.names.Nodup := by
        rw [hr.names]
        exact (ascending_ofList entries).imp String.ne_of_lt
      have hregistered : registry.names ≠ [] := by
        rw [hr.names]
        exact fun h => hne (ofList_eq_nil_iff.mp (List.map_eq_nil_iff.mp h))
      refine exists_envelope_of_serves hnodup hs (hasks.accepted hregistered) fun name hname => ?_
      rw [hnone]
      obtain ⟨x, hx, rfl⟩ := List.mem_map.mp ((hnames name).mp hname)
      exact (serves_canned_iff hr hname).mpr (hall x hx)
  · intro e he
    obtain ⟨c, nonce', coll, ha, -, hprofile, hnonce, hcoll, hkind, hnodup, hlabels, hget⟩ :=
      targets_of_composed_ok hs he
    cases hasks.read.symm.trans ha.read
    refine ⟨hprofile, hnonce, coll, hcoll, hkind, hnodup, ?_, ?_, ?_⟩
    · exact fun name => (hlabels name).trans (hnames name)
    · rintro before name canned after rfl hafter
      obtain ⟨h, hlookup, hattester⟩ := hr.lookup name canned (find?_last hafter)
      have hname : name ∈ registry.names := (hnames name).mpr (by simp)
      rw [hget name h hname hlookup, hnone, hattester, evidenceRecord, evidence_canned]
      rfl
    · rintro rfl
      exact inTurn_ascending hs he hcoll

end serving

/-- An evidence file is read if it is a document with an attester and with all its evidence in the
one base64 form. Then asking all attesters gives an envelope if and only if every name in the file
can be a label. The envelope holds the evidence that stands last under each name: in ascending
order if it is asked for in turn, and on a clock, where it takes no time, in any case. -/
theorem file_served (data : List UInt8) :
    (∀ attesters, Mock.ofJson data = .ok attesters ↔ ∃ d entries, Spells d data ∧
      SaysFile d entries ∧ entries ≠ [] ∧ attesters = Table.ofList entries) ∧
    ∀ d entries attesters, Spells d data → SaysFile d entries → Mock.ofJson data = .ok attesters →
      ∀ body text selection nonce, Asks body text selection nonce → ∀ fanOut timeout,
        (∀ schedule : Schedule, schedule.deadline = none →
          ServesFile entries text fanOut (composed (steady schedule id) ⟨.all, fanOut, timeout⟩
            (Mock.registry attesters) body).1) ∧
        ∀ c : Timed, c.underWay = [] →
          ServesFile entries text .sequential ((compose (Clock.run TimedAttester.world)
            ⟨.all, fanOut, timeout⟩ (instantly (Mock.registry attesters)) body).run c).1 := by
  refine ⟨fun _ => ofJson_iff, ?_⟩
  intro d entries attesters hd hfile hread body text selection nonce hasks fanOut timeout
  obtain ⟨hne, rfl⟩ := (ofJson_says_iff hd hfile).mp hread
  refine ⟨fun schedule hs => composed_serves (registers_registry _) hne hasks hs, ?_⟩
  intro c hc
  have hs : lastFirst.deadline = none := rfl
  rw [clock_inTurn (fun _ _ => instant_instantly) hs _ body hc]
  exact composed_serves (registers_instantly _) hne hasks hs

/-- A file with two entries for one name. -/
def repeatedFile : List UInt8 := bytesOf (Value.object [("attesters", .object [
  ("b", .object [("content-type", .string "x"), ("evidence", .string "AQ==")]),
  ("a", .array [.string "y", .string ""]),
  ("b", .array [.string "z", .string "AgM="])])]).render

def plainRequest : List UInt8 := bytesOf (Value.object [("nonce", .string "AQ")]).render

theorem repeated_served :
    let attesters : Attesters := [("a", ⟨"y", []⟩), ("b", ⟨"z", [2, 3]⟩)]
    Mock.ofJson repeatedFile = .ok attesters ∧ Asks plainRequest "AQ" none [1] ∧
      ∃ d entries, Spells d repeatedFile ∧ SaysFile d entries ∧
        ServesFile entries "AQ" .parallel (composed (steady lastFirst id) ⟨.all, .parallel, 0⟩
          (Mock.registry attesters) plainRequest).1 ∧
        ServesFile entries "AQ" .sequential ((compose (Clock.run TimedAttester.world)
          ⟨.all, .parallel, 0⟩ (instantly (Mock.registry attesters)) plainRequest).run
            (Clock.start 0 [])).1 := by
  intro attesters
  have hread : Mock.ofJson repeatedFile = .ok attesters := rfl
  have hasks : Asks plainRequest "AQ" none [1] := ⟨rfl, rfl, .inl rfl⟩
  obtain ⟨d, entries, hd, hfile, -⟩ := ((file_served repeatedFile).1 attesters).mp hread
  obtain ⟨hschedule, hclock⟩ := (file_served repeatedFile).2 d entries attesters hd hfile hread
    plainRequest "AQ" none [1] hasks .parallel 0
  exact ⟨hread, hasks, d, entries, hd, hfile, hschedule lastFirst rfl, hclock _ rfl⟩

end Attestation.Proofs.EvidenceServing
