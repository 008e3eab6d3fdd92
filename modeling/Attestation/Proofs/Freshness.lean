import Attestation.Proofs.CheckOrder
import Attestation.Proofs.MockReports
import Attestation.Proofs.PromptClients

namespace Attestation.Proofs.Freshness

open Compositor Course Scheduling Negotiation Gathering Merging Composing Targets CheckOrder
open AttentiveWorlds JsonReading JsonRecords JsonText JsonValues MockReports NonceText OptionsText
open Plugin PromptClients ServingChildren SoleTarget Transparency Tsm Utf8Encoding
open Json (Value)

variable {H : Type}

/-- What a selection may say about `mock-tsm` to ask for a level. Other options are free, as long
as there are no floats among them. -/
inductive Grants (level : UInt32) : Option Value → Prop
  | absent (h : level = 0) : Grants level none
  | null (h : level = 0) : Grants level (some .null)
  | options (ms : List (String × Value)) (hx : Exact (.object ms))
      (ht : Value.get? ms contentTypeOption = none ∨
        Value.get? ms contentTypeOption = some (.string mockMediaType))
      (hl : Spells level (Value.get? ms privilegeLevelOption)) : Grants level (some (.object ms))

/-- The request for evidence carries the nonce, and options that tell the level. -/
theorem request_grants {level : UInt32} {entry : Option Value} (hg : Grants level entry)
    (hn : ∀ v, entry = some v → nesting v ≤ Json.maxDepth) (nonce : List UInt8) :
    ∃ options, request "mock-tsm" nonce mockTsm.formats entry =
      .ok ⟨mockMediaType, nonce, options⟩ ∧ privilegeLevel options = .ok level := by
  cases hg with
  | absent h => exact ⟨[], rfl, by rw [h]; rfl⟩
  | null h => exact ⟨[], rfl, by rw [h]; rfl⟩
  | options ms hx ht hl =>
    have htype : contentType "mock-tsm" [⟨mockMediaType, 32⟩] ⟨mockMediaType, 32⟩ ms =
        .ok mockMediaType := by
      unfold contentType
      obtain ht | ht := ht
      · rw [ht]
      · rw [ht]
        exact if_pos (by simp)
    refine ⟨Text.Utf8.encode (Value.object ms).text, ?_, privilegeLevel_text hx (hn _ rfl) hl⟩
    change (contentType "mock-tsm" [⟨mockMediaType, 32⟩] ⟨mockMediaType, 32⟩ ms >>= _) = _
    rw [htype]
    rfl

theorem nesting_entry {body : List UInt8} {c : Challenge}
    (h : Json.Decoder.run Challenge.record.decode body = .ok c) {name : String} {v : Value}
    (hv : Value.get? (entries c.selection) name = some v) : nesting v ≤ Json.maxDepth := by
  obtain ⟨m, hm, rfl⟩ := Option.map_eq_some_iff.mp hv
  have hmem := List.mem_reverse.mp (List.mem_of_find?_eq_some hm)
  cases hs : c.selection with
  | none => simp [hs, entries] at hmem
  | some w =>
    have hnest := nesting_selection h hs
    cases w with
    | object ms =>
      rw [hs] at hmem
      have hle : nestingMembers ms + 1 ≤ Json.maxDepth := hnest
      exact nestingMembers_le_iff.mp (Nat.le_of_succ_le hle) m hmem
    | null | bool _ | number _ | string _ | array _ => simp [hs, entries] at hmem

variable {schedule : Schedule} {answers : Nat → H → SubAttester} {registry : Registry H}
  {body : List UInt8} {text : String} {nonce : List UInt8} {selection : Option Value}
  {level : UInt32}

theorem prepare_spelling {mode : ListMode} {pads : Nat} (hnames : registry.names ≠ [])
    (hbody : Json.Decoder.run Challenge.record.decode body = .ok ⟨spelling nonce pads, selection⟩)
    (ha : Admissible mode selection) (hne : nonce ≠ []) :
    prepare mode registry body =
      .ok ⟨spelling nonce pads, nonce, counted (entries selection)⟩ := by
  refine prepare_eq_ok_iff.mpr ?_
  rw [ofBody_of_run hbody]
  exact ⟨rfl, spelling_ne_empty hne pads, decodeNonce_spelling hne pads, hnames, ha, rfl⟩

theorem settle_mock (nonce : List UInt8) {attesters : H → SubAttester} {h : H}
    (hlookup : registry.lookup "mock-tsm" = .ok h)
    (hformats : (attesters h).formats = mockTsm.formats)
    (hbody : Json.Decoder.run Challenge.record.decode body = .ok ⟨text, selection⟩)
    (hg : Grants level (Value.get? (entries selection) "mock-tsm")) :
    ∃ options, privilegeLevel options = .ok level ∧
      settle registry attesters nonce (entries selection) "mock-tsm" =
        .ok ⟨"mock-tsm", h, ⟨mockMediaType, nonce, options⟩⟩ := by
  obtain ⟨options, hrequest, hl⟩ := request_grants hg (fun v hv => nesting_entry hbody hv) nonce
  refine ⟨options, hl, settle_eq_ok_iff.mpr ⟨rfl, lookup_eq_ok_iff.mpr hlookup, ?_⟩⟩
  rw [hformats]
  exact hrequest

theorem wrapped_sole (label : String) (hl : label ≠ "" ∧ label ≠ Cmw.kindLabel) (r : Cmw.Record)
    (text : String) :
    ∃ e c, (merge [(label, r)]).map (Envelope.wrap text) = .ok e ∧ e.nonce = text ∧
      e.collection = .ok c ∧ c.items = [(label, .record r)] := by
  have hlabelled : CmwText.Labelled [label] :=
    ⟨List.nodup_singleton _, fun other h => List.mem_singleton.mp h ▸ hl⟩
  have hmerge : merge [(label, r)] = .ok ⟨Envelope.kind, records [(label, r)]⟩ :=
    merge_eq_ok_iff.mpr ⟨hlabelled, rfl⟩
  refine ⟨_, _, ?_, ?_, collection_wrap hmerge text, rfl⟩
  · rw [hmerge]
    rfl
  · rfl

/-- A request that is about `mock-tsm` and nothing else. -/
structure About (registry : Registry H) (mode : ListMode) (selection : Option Value) (h : H) :
    Prop where
  listed : "mock-tsm" ∈ registry.names
  found : registry.lookup "mock-tsm" = .ok h
  admissible : Admissible mode selection
  targets : targetsOf mode registry selection = ["mock-tsm"]

/-- The response holds one report, which says for which nonce and at which level it is, if the
nonce has 32 bytes, and is a problem with the sizes if it has not. -/
structure Tells (nonce : List UInt8) (pads : Nat) (level : UInt32)
    (response : Except Problem Envelope) : Prop where
  evidence : nonce.length = 32 → ∃ e c evidence, response = .ok e ∧ e.nonce = spelling nonce pads ∧
    e.collection = .ok c ∧ c.items = [("mock-tsm", .record ⟨mockMediaType, evidence, none⟩)] ∧
    Report.ofJson evidence = .ok
      { provider := "fake\n"
        serviceProvider := none
        outBlob := Text.Utf8.encode
          s!"privlevel: {level.toNat}\ninblob: {String.ofList (hexDigits nonce)}"
        auxBlob := Text.Utf8.encode "auxblob"
        manifestBlob := none }
  size : nonce.length ≠ 32 → response = .error (.internal
    ("failed to get attestation report from mock-tsm: " ++
      s!"nonce size of the TSM attester should be 32, got {nonce.length}"))

/-- A child that has introduced itself and serves `mock-tsm`, whatever it was asked before. What it
writes arrives within so many milliseconds. -/
structure Ready (now delay : Nat) (c : Child) : Prop where
  serving : ∃ pipe xs n, Serving mockTsm pipe xs n c ∧ 0 < n ∧ xs.length < n - 1 + UInt64.size ∧
    Fits mockTsm xs ∧ Prompt pipe delay
  arriving : ∀ x ∈ c.arrivals, x.1 ≤ now + (latency + delay)

/-- Asked within, `mock-tsm` tells the nonce and the level. -/
theorem tells_within (hs : schedule.deadline = none) {s : Compositor.Settings} {h : H} {pads : Nat}
    (habout : About registry s.listMode selection h) (hmock : ∀ step, answers step h = mockTsm)
    (hbody : Json.Decoder.run Challenge.record.decode body = .ok ⟨spelling nonce pads, selection⟩)
    (hg : Grants level (Value.get? (entries selection) "mock-tsm")) (hne : nonce ≠ []) :
    Tells nonce pads level (composed (environment schedule answers) s registry body).1 := by
  have ht := prepare_spelling (List.ne_nil_of_mem habout.listed) hbody habout.admissible hne
  have hsole := targets_eq ht
  rw [ofBody_of_run hbody] at hsole
  have hformats : (answers 0 h).formats = mockTsm.formats := congrArg _ (hmock 0)
  obtain ⟨options, hl, hsettle⟩ := settle_mock nonce habout.found hformats hbody hg
  -- The evidence becomes the one item of the envelope, or the problem.
  have hresponse : (composed (environment schedule answers) s registry body).1 =
      (contribution ⟨"mock-tsm", h, ⟨mockMediaType, nonce, options⟩⟩
        (mockTsm.evidence ⟨mockMediaType, nonce, options⟩) >>= fun x => merge [x]).map
          (Envelope.wrap (spelling nonce pads)) := by
    rw [composed_sole hs ht (hsole.trans habout.targets), counted_getD, hsettle, ← hmock]
    rfl
  refine ⟨fun h32 => ?_, fun h32 => ?_⟩
  · rw [evidence_bound h32 hl] at hresponse
    obtain ⟨e, c, he, htext, hc, hitems⟩ := wrapped_sole "mock-tsm" ⟨by decide, by decide⟩
      ⟨mockMediaType, reportBytes nonce level, none⟩ (spelling nonce pads)
    exact ⟨e, c, _, hresponse.trans he, htext, hc, hitems, ofJson_reportBytes nonce level⟩
  · rw [evidence_wrongSize h32] at hresponse
    exact hresponse

/-- Through the client of its process, `mock-tsm` comes to the same response as within. -/
theorem client_within (hs : schedule.deadline = none) {s : Compositor.Settings} {path : String}
    {registry : Registry String} {pads delay : Nat} {clock : Host.Time} {c : Child}
    (habout : About registry s.listMode selection path) (hidle : clock.underWay = [])
    (hc : clock.world.child? path = some c) (hready : Ready clock.now delay c)
    (htime : 2 * (latency + delay) ≤ s.timeout)
    (hbody : Json.Decoder.run Challenge.record.decode body = .ok ⟨spelling nonce pads, selection⟩)
    (hg : Grants level (Value.get? (entries selection) "mock-tsm")) (hne : nonce ≠ [])
    (hsize : nonce.length < UInt64.size) :
    ((compose Host.runner s registry body).run clock).1 =
      (composed (environment schedule fun _ _ => mockTsm) s registry body).1 := by
  have ht := prepare_spelling (List.ne_nil_of_mem habout.listed) hbody habout.admissible hne
  have hsole := targets_eq ht
  rw [ofBody_of_run hbody] at hsole
  obtain ⟨options, hl, hsettle⟩ : ∃ options, privilegeLevel options = .ok level ∧
      settle registry (fun _ => mockTsm) nonce (entries selection) "mock-tsm" = _ :=
    settle_mock nonce habout.found rfl hbody hg
  obtain ⟨⟨pipe, xs, n, hserving, hn, hroom, hf, hprompt⟩, harriving⟩ := hready
  have hqs : ∀ q ∈ [Query.formats, .evidence ⟨mockMediaType, nonce, options⟩],
      ∀ id, (Messages.responseLine mockTsm ⟨id, q⟩).length ≤ maxLine := by
    intro q hq id
    simp only [List.mem_cons, List.not_mem_nil, or_false] at hq
    obtain rfl | rfl := hq
    · exact fits_formats id
    · exact fits_request hsize hl id
  let plan : Plan String := ⟨"mock-tsm", path, ⟨mockMediaType, nonce, options⟩⟩
  have hattends : Attends Host.world (some (clock.now + s.timeout)) plan.attester mockTsm
      [.formats, .evidence plan.request] clock.now clock.world :=
    attends_client hprompt hc hserving hn hroom hf hqs harriving
      (Nat.add_le_add_left htime clock.now)
  have htargets : Task.targets ⟨_, nonce, _⟩ s.listMode registry = [plan.name] :=
    hsole.trans habout.targets
  rw [← counted_getD (entries selection)] at hsettle
  exact clock_sole hs hidle ht htargets hsettle hattends

/-- A request about `mock-tsm` is answered with evidence for its nonce and its level, or with a
problem that tells the size of the nonce: within the daemon, whatever else is asked, and on any
clock through the client of its process, while that is fast enough for the timeout. The length of
a nonce is a machine word there. -/
theorem evidence_tells_request (s : Compositor.Settings) {pads : Nat}
    (hbody : Json.Decoder.run Challenge.record.decode body = .ok ⟨spelling nonce pads, selection⟩)
    (hg : Grants level (Value.get? (entries selection) "mock-tsm")) (hne : nonce ≠ []) :
    (∀ {H : Type} {registry : Registry H} {h : H} {schedule : Schedule}
        {answers : Nat → H → SubAttester}, About registry s.listMode selection h →
      schedule.deadline = none → (∀ step, answers step h = mockTsm) →
        Tells nonce pads level (composed (environment schedule answers) s registry body).1) ∧
    ∀ {registry : Registry String} {path : String} {delay : Nat} {clock : Host.Time} {c : Child},
      About registry s.listMode selection path → clock.underWay = [] →
      clock.world.child? path = some c → Ready clock.now delay c →
      2 * (latency + delay) ≤ s.timeout → nonce.length < UInt64.size →
        Tells nonce pads level ((compose Host.runner s registry body).run clock).1 := by
  constructor
  · intro H registry h schedule answers habout hs hmock
    exact tells_within hs habout hmock hbody hg hne
  · intro registry path delay clock c habout hidle hc hready htime hsize
    have hs : lastFirst.deadline = none := rfl
    rw [client_within hs habout hidle hc hready htime hbody hg hne hsize]
    exact tells_within hs habout (fun _ => rfl) hbody hg hne

/-- The bytes from zero to thirty-one at the level seven, in text, with all evidence asked for at
once: within, and through the client of a process that has just been started. -/
theorem evidence_tells_request_seven :
    let nonce : List UInt8 := (List.range 32).map UInt8.ofNat
    let selection : Value := .object [("mock-tsm", .object [("privilege_level", .string "7")])]
    let body := bytesOf (Value.object
      [("nonce", .string (spelling nonce 1)), ("attester-selection", selection)]).render
    let registry : Registry String := ⟨["mock-tsm"], fun _ => .ok "p"⟩
    let s : Compositor.Settings := ⟨.selected, .parallel, 1000⟩
    let told : Except Problem Envelope → Prop := fun response =>
      ∃ e c evidence, response = .ok e ∧ e.collection = .ok c ∧
        c.items = [("mock-tsm", .record ⟨mockMediaType, evidence, none⟩)] ∧
        (Report.ofJson evidence).map (·.outBlob) = .ok (Text.Utf8.encode
          ("privlevel: 7\n" ++
            "inblob: 000102030405060708090a0b0c0d0e0f101112131415161718191a1b1c1d1e1f"))
    told (composed (environment lastFirst fun _ _ => mockTsm) s registry body).1 ∧
      ∃ now line c, (Child.start "p" (Process.ofServer (Server.start mockTsm inTwo 0))).next 0 =
          some (now, some (.line line), c) ∧
        told ((compose Host.runner s registry body).run (.start now ⟨[], [("p", c)]⟩)).1 := by
  intro nonce selection body registry s told
  have hx : Exact selection := ⟨⟨trivial, trivial⟩, trivial⟩
  have hbody : Json.Decoder.run Challenge.record.decode body =
      .ok ⟨spelling nonce 1, some selection⟩ := run_challenge _ hx nofun (by decide)
  have hdigits : "7".toList.all Char.isDigit = true := by decide
  have hl : Spells 7 (some (.string "7")) :=
    .text "7" (by decide) (List.all_eq_true.mp hdigits) rfl
  have hg : Grants 7 (Value.get? (entries (some selection)) "mock-tsm") :=
    .options [("privilege_level", .string "7")] ⟨trivial, trivial⟩ (.inl rfl) hl
  have habout : About registry .selected (some selection) "p" :=
    ⟨List.mem_cons_self, rfl, trivial, rfl⟩
  have htext : s!"privlevel: {(7 : UInt32).toNat}\ninblob: {String.ofList (hexDigits nonce)}" =
      "privlevel: 7\n" ++
        "inblob: 000102030405060708090a0b0c0d0e0f101112131415161718191a1b1c1d1e1f" := by
    decide +kernel
  have htold : ∀ response, Tells nonce 1 7 response → told response := by
    intro response h
    obtain ⟨e, c, evidence, he, _, hc, hitems, hreport⟩ := h.evidence rfl
    refine ⟨e, c, evidence, he, hc, hitems, ?_⟩
    rw [hreport]
    exact congrArg (fun text => Except.ok (Text.Utf8.encode text)) htext
  obtain ⟨hwithin, hclient⟩ := evidence_tells_request s hbody hg nofun
  refine ⟨htold _ (hwithin habout rfl fun _ => rfl), ?_⟩
  obtain ⟨now, line, c, hnext, -, hserving⟩ :=
    serving_introduced (@Serving.started mockTsm inTwo "p" 0)
      (fun _ hy => absurd hy List.not_mem_nil) "p" 0
  have hprompt : Prompt inTwo 3 := by
    intro before now bytes x hx
    simp only [inTwo, List.mem_cons, List.not_mem_nil, or_false] at hx
    obtain rfl | rfl := hx
    · exact Nat.le_refl 3
    · exact Nat.le_add_right 1 2
  have hready : Ready now 3 c := by
    refine ⟨⟨inTwo, [], 1, hserving, Nat.one_pos, by decide,
      fun _ hy => absurd hy List.not_mem_nil, hprompt⟩, fun x hx => ?_⟩
    have hstarted := serving_attached (@Serving.started mockTsm inTwo "p" 0)
    obtain ⟨-, hlast⟩ := next_within hstarted hnext (Nat.zero_le _) (arrivals_start hprompt "p" 0)
    have hx := hlast x hx
    omega
  exact ⟨now, line, c, hnext, htold _ (hclient habout rfl rfl hready (by decide) (by decide))⟩

end Attestation.Proofs.Freshness
