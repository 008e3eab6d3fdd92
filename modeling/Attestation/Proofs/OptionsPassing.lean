import Attestation.Proofs.CallOrder
import Attestation.Proofs.Messages
import Attestation.Proofs.OptionsText
import Attestation.Proofs.PrivilegeLevels
import Attestation.Proofs.Selections

namespace Attestation.Proofs.OptionsPassing

open CallOrder Collecting Compositor Course EvidenceRequests Gathering Json JsonDocuments
open JsonGrammar JsonMeaning JsonReading JsonText JsonValues Messages Negotiation PrivilegeLevels
open Plugin Rpc Scheduling Selections Targets Tsm Utf8Encoding
open JsonStrings (Plain plain_of_all)
open OptionsText (nesting_of_value run_members_text)

variable {H : Type}

/-- The options that an attester is sent for an entry: none at all, or a text of the object that
the entry means. -/
inductive Passed : Option Phrase → List UInt8 → Prop
  | missing : Passed none []
  | null : Passed (some .null) []
  | object {ms : List (List Piece × Phrase)} {options : List (String × Value)} {bytes : List UInt8}
      (hm : Means (.object ms) (.object options))
      (hv : Decoder.run .value bytes = .ok (.object options))
      (hp : Decoder.run (.members .value) bytes = .ok options) : Passed (some (.object ms)) bytes

theorem exact_of_get? {members : List (String × Value)} (hx : ExactMembers members) {name : String}
    {v : Value} (h : Value.get? members name = some v) : Exact v := by
  obtain ⟨m, hm, rfl⟩ := Option.map_eq_some_iff.mp h
  exact exactMembers_iff.mp hx m (List.mem_reverse.mp (List.mem_of_find?_eq_some hm))

theorem exact_of_entry {selection : Option Value} (hx : ∀ v, selection = some v → Exact v)
    {name : String} {v : Value} (h : Value.get? (entries selection) name = some v) : Exact v := by
  match selection with
  | some (.object members) => exact exact_of_get? (hx _ rfl) h
  | none | some .null | some (.bool _) | some (.number _) | some (.string _) | some (.array _) =>
    cases h

section passing

variable {ms : List (List Piece × Phrase)} {options : List (String × Value)}

/-- An object that was read from text is read from its own text again. -/
theorem passed_object (hm : Means (.object ms) (.object options))
    (hn : (Phrase.object ms).nesting ≤ maxDepth) (hx : Exact (.object options)) :
    Passed (some (.object ms)) (Text.Utf8.encode (Value.object options).text) := by
  have hvalue : Decoder.value ⟨.text, 0⟩ (Phrase.object ms).tree = .ok (.object options) :=
    (value_tree_iff _ fun _ => Nat.zero_le _).mpr ⟨hm, fun _ => by rwa [Nat.zero_add]⟩
  have hnest : nesting (.object options) ≤ maxDepth := nesting_of_value _ rfl hvalue
  have hsorted : (Value.object options).sorted = .object options :=
    sorted_of_inOrder _ (inOrder_of_means hm)
  have htext : Text.Utf8.encode (Value.object options).text =
      bytesOf (Value.object options).render := encode_ofList _
  have hmap : options.map (fun m => (m.1, m.2.sorted)) = options := by
    have horder := inOrderMembers_iff.mp (inOrder_of_means hm).2
    have hid : ∀ m ∈ options, (m.1, m.2.sorted) = id m := fun m hmem =>
      Prod.ext rfl (sorted_of_inOrder m.2 (horder m hmem))
    rw [List.map_congr_left hid, List.map_id]
  refine .object hm ?_ ?_
  · have hrun := run_text (reads_value (.object options)) hnest hx
    rwa [hsorted, ← htext] at hrun
  · have hrun := run_members_text hx hnest
    rwa [hmap] at hrun

theorem privilegeLevel_passed {bytes raw : List UInt8} (h : Passed (some (.object ms)) bytes)
    (hs : Spells (.object ms) raw) (hn : (Phrase.object ms).nesting ≤ maxDepth) :
    privilegeLevel bytes = privilegeLevel raw := by
  cases h with
  | object hm hv hp =>
    cases hm with
    | object hms hl =>
      have hbytes : ∃ d, Spells d _ := exists_spelled hp
      obtain ⟨d, hd⟩ := hbytes
      rw [privilegeLevel_of_members (List.length_pos_iff.mp (length_spells hd)) hp,
        privilegeLevel_of_members (List.length_pos_iff.mp (length_spells hs))
          ((run_members_spelled hs).mpr ⟨hn, hms⟩), get?_lastOf hl]

theorem passed_error {o : Option Phrase} {bytes : List UInt8} (h : Passed o bytes) {e : String}
    (he : privilegeLevel bytes = .error e) : ∃ shown, e = invalidLevel shown := by
  cases h with
  | missing | null => cases he
  | object hm hv hp =>
    obtain ⟨d, hd⟩ := exists_spelled hp
    rw [privilegeLevel_of_members (List.length_pos_iff.mp (length_spells hd)) hp] at he
    exact levelOf_error he

end passing

theorem passed_of_request {name : String} {nonce : List UInt8} {answer : FormatsAnswer}
    {o : Option Phrase} {v : Option Value} {r : EvidenceRequest}
    (h : request name nonce answer v = .ok r) (hm : Option.Rel Means o v)
    (hn : ∀ e, o = some e → e.nesting ≤ maxDepth) (hx : ∀ x, v = some x → Exact x) :
    Passed o r.options := by
  obtain ⟨_, _, hu, rfl⟩ := request_eq_ok_iff.mp h
  cases hm with
  | none => exact .missing
  | some hm =>
    cases hm with
    | null => exact .null
    | object hms hl => exact passed_object (.object hms hl) (hn _ rfl) (hx _ rfl)
    | bool _ | number _ | string _ | array _ => exact hu.elim

section platform

variable (p : Profile)

theorem chosenType_mem {formats : List Format} {entry : Option Value} (hne : formats ≠ [])
    (hu : Understood formats entry) : ∃ f ∈ formats, f.contentType = chosenType formats entry := by
  obtain ⟨first, rest, rfl⟩ := List.exists_cons_of_ne_nil hne
  have hfirst : ∃ f ∈ first :: rest, f.contentType = defaultType (first :: rest) :=
    ⟨first, List.mem_cons_self, rfl⟩
  unfold chosenType
  split
  · rename_i options
    split
    · rename_i type hg
      obtain ⟨f, hf, he⟩ := hu _ hg
      cases he
      exact ⟨f, hf, rfl⟩
    · exact hfirst
  · exact hfirst

theorem contentType_offered {x : Except Tsm.Error Unit} {name : String} {nonce : List UInt8}
    {entry : Option Value} {r : EvidenceRequest}
    (h : request name nonce (p.formatsOf x) entry = .ok r) : r.contentType ∈ p.mediaTypes := by
  obtain ⟨hresult, hne, hu, rfl⟩ := request_eq_ok_iff.mp h
  cases x with
  | error e => cases hresult
  | ok =>
    obtain ⟨f, hf, he⟩ := chosenType_mem hne hu
    obtain ⟨t, ht, rfl⟩ := List.mem_map.mp hf
    rw [chosenRequest, ← he]
    exact ht

theorem reportRequest_error {o : Option Phrase} {r : EvidenceRequest}
    (ht : r.contentType ∈ p.mediaTypes) (hp : Passed o r.options) {e : String}
    (h : p.reportRequest r = .error e) :
    e = s!"nonce size of the TSM attester should be {p.nonceSize}, " ++
        s!"got {r.nonce.length}" ∨
      ∃ shown, e = invalidLevel shown := by
  rw [Profile.reportRequest, if_neg (not_not_intro ht)] at h
  split at h
  · exact .inl (Except.error.inj h).symm
  · cases hlevel : privilegeLevel r.options with
    | ok level =>
      rw [hlevel] at h
      cases h
    | error e' =>
      rw [hlevel] at h
      cases h
      exact .inr (passed_error hp hlevel)

end platform

section calls

variable {registry : Registry H} {nonce : List UInt8} {selection : Selection}

theorem evidenceCalls_settled {env : Environment H} {s : Compositor.Settings} {body : List UInt8}
    {x : H × EvidenceRequest} (h : x ∈ evidenceCalls (composed env s registry body).2) :
    ∃ t plan formats, prepare s.listMode registry body = .ok t ∧
      Settled registry t.nonce (t.selection.getD []) plan formats ∧
      told (plan, formats) ∈ (composed env s registry body).2 ∧
      x = (plan.attester, plan.request) := by
  cases ht : prepare s.listMode registry body with
  | error p =>
    rw [composed_refused ht] at h
    cases h
  | ok t =>
    rw [composed_prepared ht] at h ⊢
    obtain ⟨settled, hall, ⟨name, rest, stop, _, hlog, hs⟩ | ⟨log, gathered, _, hlog, hi, _⟩⟩ :=
      collect_stages (play_follows env 0 (collect s.listMode s.fanOut registry t).run)
    · have hnone : evidenceCalls (settled.map told ++ stop) = [] := by
        refine evidenceCalls_eq_nil fun e he => ?_
        obtain he | he := List.mem_append.mp he
        · obtain ⟨_, _, a, _, hc⟩ := told_calls hall e he
          exact ⟨a, hc⟩
        · obtain ⟨a, _, hc⟩ := stops_calls hs e he
          exact ⟨a, hc⟩
      rw [hlog, hnone] at h
      cases h
    · obtain ⟨_, sent, unsent, _, _, hp, _, _⟩ := invoke_follows hi
      rw [hlog, evidenceCalls_append, evidenceCalls_told, evidenceCalls_sent hp.asked,
        List.nil_append] at h
      obtain ⟨plan, hplan, rfl⟩ := List.mem_map.mp h
      have hmem : plan ∈ settled.map (·.1) := hp.order ▸ List.mem_append_left _ hplan
      obtain ⟨y, hy, rfl⟩ := List.mem_map.mp hmem
      rw [hlog]
      exact ⟨t, y.1, y.2, rfl, hall y hy, List.mem_append_left _ (List.mem_map_of_mem hy), rfl⟩

end calls

/-- Options reach an attester as the caller wrote them, if there are no floats in the selection:
the last of members with one key counts, at every level. An attester of a platform that was asked
for its formats finds the level in them that is in the caller's text, whatever becomes of it. Only
such requests are sent in a composition. -/
theorem options_pass_through {body : List UInt8} {d : Phrase} {c : Challenge} (hd : Spells d body)
    (hc : Decoder.run Challenge.record.decode body = .ok c)
    (hx : ∀ v, c.selection = some v → Exact v) :
    (∀ (name : String) (nonce : List UInt8) (answer : FormatsAnswer) (r : EvidenceRequest),
      request name nonce answer (Value.get? (entries c.selection) name) = .ok r →
      (∃ o, Entry d name o) ∧ ∀ o, Entry d name o →
        Passed o r.options ∧
        (∀ id, Question.ofLine (requestLine id (.evidence r)) = .ok ⟨id, .evidence r⟩) ∧
        (∀ ms raw, o = some (.object ms) → Spells (.object ms) raw →
          privilegeLevel r.options = privilegeLevel raw) ∧
        ∀ (p : Profile) (available : Except Tsm.Error Unit), answer = p.formatsOf available →
          r.contentType ∈ p.mediaTypes ∧ ∀ e, p.reportRequest r = .error e →
            e = s!"nonce size of the TSM attester should be {p.nonceSize}, " ++
                s!"got {r.nonce.length}" ∨
              ∃ shown, e = invalidLevel shown) ∧
    ∀ (env : Environment H) (s : Compositor.Settings) (registry : Registry H),
      ∀ x ∈ evidenceCalls (composed env s registry body).2, ∃ name nonce answer,
        registry.lookup name = .ok x.1 ∧ decodeNonce c.nonce = .ok nonce ∧
        (⟨.query x.1 .formats, some answer⟩ : Event H) ∈ (composed env s registry body).2 ∧
        request name nonce answer (Value.get? (entries c.selection) name) = .ok x.2 := by
  refine ⟨fun name nonce answer r hr => ⟨exists_entry hd hc name, fun o ho => ?_⟩,
    fun env s registry x hcall => ?_⟩
  · obtain ⟨hmeans, hn⟩ := entry_means hd hc ho
    have hpassed := passed_of_request hr hmeans hn fun v => exact_of_entry hx
    refine ⟨hpassed, fun id => ofLine_requestLine ⟨id, .evidence r⟩, ?_, ?_⟩
    · rintro ms raw rfl hs
      exact privilegeLevel_passed hpassed hs (hn _ rfl)
    · rintro p available rfl
      have ht := contentType_offered p hr
      exact ⟨ht, fun e he => reportRequest_error p ht hpassed he⟩
  · obtain ⟨t, plan, formats, ht, hplan, hlog, rfl⟩ := evidenceCalls_settled hcall
    obtain ⟨htext, _, hnonce, _, _, hselection⟩ := prepare_eq_ok_iff.mp ht
    have hbody : Challenge.ofBody body = c := by rw [Challenge.ofBody, hc]
    rw [hbody] at htext hselection
    have hrequest := hplan.request
    rw [hselection, counted_getD] at hrequest
    exact ⟨plan.name, t.nonce, formats, lookup_eq_ok_iff.mp hplan.found, htext ▸ hnonce, hlog,
      hrequest⟩

def pairText (key value key' value' : List UInt8) : List UInt8 :=
  0x7B :: (((0x22 :: (key ++ [0x22])) ++ 0x3A :: (value ++
    0x2C :: ((0x22 :: (key' ++ [0x22])) ++ 0x3A :: value'))) ++ [0x7D])

theorem bare_pair {key value key' value' : List UInt8} {d d' : Phrase}
    (hk : ∀ b ∈ key, Plain b) (h : SpellsBare d value) (hk' : ∀ b ∈ key', Plain b)
    (h' : SpellsBare d' value') :
    SpellsBare (.object [(key.map .byte, d), (key'.map .byte, d')])
      (pairText key value key' value') :=
  .object (.more (spellsKey_plain hk) (spells_bare h)
    (.one (spellsKey_plain hk') (spells_bare h')))

/-- Two levels, of which the second one counts. -/
def twoLevels : Phrase :=
  .object [((Text.Utf8.encode "privilege_level").map .byte, .number ⟨false, [1], none, none⟩),
    ((Text.Utf8.encode "privilege_level").map .byte, .number ⟨false, [7], none, none⟩)]

def twoLevelsText : List UInt8 :=
  pairText (Text.Utf8.encode "privilege_level") [0x31] (Text.Utf8.encode "privilege_level") [0x37]

def levelRequest : Phrase :=
  .object [((Text.Utf8.encode "nonce").map .byte, .string ([0x41, 0x51].map .byte)),
    ((Text.Utf8.encode "attester-selection").map .byte,
      .object [((Text.Utf8.encode "tsm").map .byte, twoLevels)])]

def levelRequestText : List UInt8 :=
  pairText (Text.Utf8.encode "nonce") [0x22, 0x41, 0x51, 0x22]
    (Text.Utf8.encode "attester-selection") (single (Text.Utf8.encode "tsm") twoLevelsText)

theorem bare_twoLevels : SpellsBare twoLevels twoLevelsText :=
  bare_pair (plain_of_all (by decide)) (bare_digit (by decide)) (plain_of_all (by decide))
    (bare_digit (by decide))

theorem spells_levelRequest : Spells levelRequest levelRequestText := by
  have hnonce : SpellsBare (.string ([0x41, 0x51].map .byte)) [0x22, 0x41, 0x51, 0x22] :=
    .string (spellsString_plain (plain_of_all (by decide)))
  exact spells_bare (bare_pair (plain_of_all (by decide)) hnonce (plain_of_all (by decide))
    (bare_single (plain_of_all (by decide)) bare_twoLevels))

theorem text_level :
    text ((Text.Utf8.encode "privilege_level").map .byte) = some "privilege_level" := by
  decide

theorem text_selection :
    text ((Text.Utf8.encode "attester-selection").map .byte) = some "attester-selection" := by
  decide

theorem text_tsm : text ((Text.Utf8.encode "tsm").map .byte) = some "tsm" := by decide

theorem run_levelRequest : Decoder.run Challenge.record.decode levelRequestText =
    .ok ⟨"AQ", some (.object [("tsm", .object [("privilege_level", .ofNat 7)])])⟩ := by
  have hnonce : text ((Text.Utf8.encode "nonce").map .byte) = some "nonce" := by decide
  have htext : text ([0x41, 0x51].map .byte) = some "AQ" := by decide
  have hone : Literal.value? ⟨false, [1], none, none⟩ = some (.nat 1) := by decide
  have hseven : Literal.value? ⟨false, [7], none, none⟩ = some (.nat 7) := by decide
  rw [run_spelled _ spells_levelRequest]
  simp only [levelRequest, twoLevels, Phrase.tree, Phrase.memberTrees, text_level, hnonce,
    text_selection, text_tsm, htext, hone, hseven]
  rfl

theorem privilegeLevel_twoLevels : privilegeLevel twoLevelsText = .ok 7 := by
  have hlast : Last [((Text.Utf8.encode "privilege_level").map .byte,
      .number ⟨false, [1], none, none⟩), ((Text.Utf8.encode "privilege_level").map .byte,
      .number ⟨false, [7], none, none⟩)] privilegeLevelOption
      (some (.number ⟨false, [7], none, none⟩)) :=
    last_cons_iff.mpr (.inl ⟨_, rfl, .there (List.nil_append _).symm text_level nofun⟩)
  have hkey := Option.isSome_of_eq_some text_level
  exact (privilegeLevel_spelled (spells_bare bare_twoLevels) hlast).mpr
    ⟨by decide, ⟨hkey, rfl, hkey, rfl, trivial⟩, .integer⟩

/-- The attester of the platform is asked for evidence with the level that counts. -/
theorem options_pass_through_level :
    ∃ c r, Decoder.run Challenge.record.decode levelRequestText = .ok c ∧
      request "tsm" [1] (Profile.platform.formatsOf (.ok ()))
        (Value.get? (entries c.selection) "tsm") = .ok r ∧
      privilegeLevel r.options = .ok 7 ∧ r.contentType ∈ Profile.platform.mediaTypes := by
  have hx : ∀ v, some (Value.object [("tsm", .object [("privilege_level", .ofNat 7)])]) = some v →
      Exact v := by
    rintro v ⟨⟩
    exact ⟨⟨rfl, trivial⟩, trivial⟩
  have hpass := options_pass_through (H := Unit) spells_levelRequest run_levelRequest hx
  have hr : request "tsm" [1] (Profile.platform.formatsOf (.ok ()))
      (some (.object [("privilege_level", .ofNat 7)])) = .ok _ :=
    request_eq_ok_iff.mpr ⟨rfl, nofun, nofun, rfl⟩
  have hentry : Entry levelRequest "tsm" (some twoLevels) :=
    ⟨_, .object (last_cons_iff.mpr (.inl ⟨_, rfl,
      .there (List.nil_append _).symm text_selection nofun⟩)),
      .object (.there (List.nil_append _).symm text_tsm nofun)⟩
  obtain ⟨_, _, hlevel, hplatform⟩ := (hpass.1 "tsm" [1] _ _ hr).2 _ hentry
  refine ⟨_, _, run_levelRequest, hr, ?_, (hplatform Profile.platform _ rfl).1⟩
  rw [hlevel _ _ rfl (spells_bare bare_twoLevels), privilegeLevel_twoLevels]

end Attestation.Proofs.OptionsPassing
