import Attestation.Proofs.EvidenceFiles
import Attestation.Proofs.RecordParts
import Attestation.Rpc.Server

namespace Attestation.Proofs.RequestLines

open Base64Encoding CmwGrammar CmwRoundTrip EvidenceFiles Json JsonDocuments JsonGrammar JsonMeaning
  JsonRecords JsonValues RecordFields RecordParts Rpc

section requests

def requestNames : List String := ["jsonrpc", "id", "method", "params"]

inductive MemberMeans : Option Phrase → Option Value → Prop
  | missing : MemberMeans none none
  | null : MemberMeans (some .null) none
  | given {d : Phrase} {v : Value} (h : Means d v) (hn : d ≠ .null) : MemberMeans (some d) (some v)

/-- A request, and the parameters as they are written. The limit on nesting holds for the text as a
whole. -/
inductive SaysRequest : Phrase → Option Phrase → Request → Prop
  | parts {d i : Phrase} {version method : List Piece} {params : Option Phrase} {r : Request}
      (h : Parts requestNames d [some (.string version), some i, some (.string method), params])
      (hv : text version = some r.version) (hi : SaysIndicator i r.id)
      (hm : text method = some r.method) (hp : MemberMeans params r.params)
      (hn : ∀ d ∈ params, d.nesting < maxDepth) : SaysRequest d params r

def RequestLine (line : List UInt8) (params : Option Phrase) (r : Request) : Prop :=
  ∃ d, Spells d line ∧ SaysRequest d params r

def requestFields : List (RecordField Request) := [
  ⟨"jsonrpc", .mandatory, .string, fun x r => { r with version := x }, (·.version),
    fun _ _ => rfl⟩,
  ⟨"id", .mandatory, mapped (.nat 64) UInt64.ofNat, fun x r => { r with id := x }, (·.id),
    fun _ _ => rfl⟩,
  ⟨"method", .mandatory, .string, fun x r => { r with method := x }, (·.method), fun _ _ => rfl⟩,
  ⟨"params", .optional, .optional .value, fun x r => { r with params := x }, (·.params),
    fun _ _ => rfl⟩]

theorem request_slots : Request.record.slots = requestFields.map (·.slot) := by
  have hid := of_comp .mandatory "id" (.nat 64) UInt64.ofNat
    fun x (r : Request) => { r with id := x }
  simp [Request.record, requestFields, RecordField.slot, Slot.mandatory, Slot.optional, hid]

theorem lawful_request : Lawful requestFields where
  nodup := by decide
  apart := by simp [requestFields]
  whole a a' h := by
    simp [requestFields] at h
    obtain ⟨hversion, hid, hmethod, hparams⟩ := h
    cases a
    cases a'
    simp_all

theorem nat_mapped_iff {p : Place} {d : Phrase} {n : UInt64} :
    mapped (.nat 64) UInt64.ofNat p d.tree = .ok n ↔ SaysIndicator d n := by
  rw [mapped, map_ok_iff]
  constructor
  · rintro ⟨_, h, rfl⟩
    obtain ⟨m, hm, rfl⟩ := (nat_tree_iff p d _).mp h
    rwa [UInt64.ofNat_toNat]
  · exact fun h => ⟨n.toNat, (nat_tree_iff p d _).mpr ⟨n, h, rfl⟩, UInt64.ofNat_toNat⟩

theorem member_tree_iff {d : Phrase} {o : Option Value} :
    Decoder.optional .value ⟨.text, 1⟩ d.tree = .ok o ↔
      MemberMeans (some d) o ∧ d.nesting < maxDepth := by
  have hroom : Roomy ⟨.text, 1⟩ 0 := fun _ => by decide
  have hnesting : Roomy ⟨.text, 1⟩ d.nesting ↔ d.nesting < maxDepth := by
    simp only [Roomy, forall_const]
    omega
  rw [optional_tree_iff]
  constructor
  · rintro (⟨rfl, rfl⟩ | ⟨hd, v, rfl, hread⟩)
    · exact ⟨.null, by decide⟩
    · obtain ⟨hm, hn⟩ := (value_tree_iff d hroom).mp hread
      exact ⟨.given hm hd, hnesting.mp hn⟩
  · rintro ⟨h, hn⟩
    cases h with
    | null => exact .inl ⟨rfl, rfl⟩
    | given hm hd => exact .inr ⟨hd, _, rfl, (value_tree_iff d hroom).mpr ⟨hm, hnesting.mpr hn⟩⟩

theorem member_iff {o : Option Phrase} {v : Option Value} :
    ((∃ d, o = some d ∧ Decoder.optional .value ⟨.text, 1⟩ d.tree = .ok v) ∨ o = none ∧ v = none) ↔
      MemberMeans o v ∧ ∀ d ∈ o, d.nesting < maxDepth := by
  cases o with
  | some d =>
    simp only [Option.some.injEq, exists_eq_left', reduceCtorEq, false_and, or_false,
      Option.mem_some_iff, forall_eq']
    exact member_tree_iff
  | none =>
    constructor
    · rintro (⟨_, ⟨⟩, -⟩ | ⟨-, rfl⟩)
      exact ⟨.missing, nofun⟩
    · rintro ⟨⟨⟩, -⟩
      exact .inr ⟨rfl, rfl⟩

/-- The requests are the lines that are read as such. -/
theorem run_request_iff {line : List UInt8} {r : Request} :
    Decoder.run Request.record.decode line = .ok r ↔ ∃ params, RequestLine line params r := by
  rw [run_parts_iff lawful_request request_slots]
  constructor
  · rintro ⟨d, os, hd, hparts, hholds⟩
    simp only [requestFields, List.forall₂_cons_left_iff, List.forall₂_nil_left_iff] at hholds
    obtain ⟨_, _, h₁, ⟨_, _, h₂, ⟨_, _, h₃, ⟨params, _, h₄, rfl, rfl⟩, rfl⟩, rfl⟩, rfl⟩ := hholds
    obtain ⟨_, rfl, hversion⟩ := (holds_mandatory_iff rfl).mp h₁
    obtain ⟨_, rfl, hid⟩ := (holds_mandatory_iff rfl).mp h₂
    obtain ⟨_, rfl, hmethod⟩ := (holds_mandatory_iff rfl).mp h₃
    obtain ⟨hp, hn⟩ := member_iff.mp ((holds_optional_iff rfl).mp h₄)
    obtain ⟨_, rfl, hv⟩ := (string_tree_iff ⟨.text, 1⟩ _ _).mp hversion
    obtain ⟨_, rfl, hm⟩ := (string_tree_iff ⟨.text, 1⟩ _ _).mp hmethod
    exact ⟨params, d, hd, .parts hparts hv (nat_mapped_iff.mp hid) hm hp hn⟩
  · rintro ⟨params, d, hd, ⟨hparts, hv, hi, hm, hp, hn⟩⟩
    have hversion := (string_tree_iff ⟨.text, 1⟩ _ _).mpr ⟨_, rfl, hv⟩
    have hmethod := (string_tree_iff ⟨.text, 1⟩ _ _).mpr ⟨_, rfl, hm⟩
    refine ⟨d, _, hd, hparts, .cons ?_ (.cons ?_ (.cons ?_ (.cons ?_ .nil)))⟩
    · exact (holds_mandatory_iff rfl).mpr ⟨_, rfl, hversion⟩
    · exact (holds_mandatory_iff rfl).mpr ⟨_, rfl, nat_mapped_iff.mpr hi⟩
    · exact (holds_mandatory_iff rfl).mpr ⟨_, rfl, hmethod⟩
    · exact (holds_optional_iff rfl).mpr (member_iff.mpr ⟨hp, hn⟩)

end requests

section evidence

def evidenceNames : List String := ["content_type", "nonce", "options"]

inductive SaysOptions : Option Phrase → List UInt8 → Prop
  | absent : SaysOptions none []
  | text {ps : List Piece} {bytes : List UInt8}
      (h : text ps = some (Base64.encode Base64.standard bytes)) :
      SaysOptions (some (.string ps)) bytes

/-- A request for evidence. Byte strings stand as the one text that standard base64 has for them. -/
inductive SaysEvidence : Phrase → EvidenceRequest → Prop
  | parts {d : Phrase} {type nonce : List Piece} {options : Option Phrase} {r : EvidenceRequest}
      (h : LastParts evidenceNames d [some (.string type), some (.string nonce), options])
      (ht : text type = some r.contentType)
      (hn : text nonce = some (Base64.encode Base64.standard r.nonce))
      (ho : SaysOptions options r.options) : SaysEvidence d r

def evidenceFields : List (RecordField EvidenceRequest) := [
  ⟨"content_type", .mandatory, .string, fun x r => { r with contentType := x }, (·.contentType),
    fun _ _ => rfl⟩,
  ⟨"nonce", .mandatory, Blob.ofJsonText, fun x r => { r with nonce := x }, (·.nonce),
    fun _ _ => rfl⟩,
  ⟨"options", .optional, Blob.ofJsonText, fun x r => { r with options := x }, (·.options),
    fun _ _ => rfl⟩]

theorem lawful_evidence : Lawful evidenceFields where
  nodup := by decide
  apart := by simp [evidenceFields]
  whole a a' h := by
    simp [evidenceFields] at h
    obtain ⟨htype, hnonce, hoptions⟩ := h
    cases a
    cases a'
    simp_all

theorem string_eq_ok {p : Place} {t : Tree} {s : String} (h : Decoder.string p t = .ok s) :
    t = .string (some s) := by
  unfold Decoder.string at h
  split at h
  · cases h
    rfl
  · exact absurd h (unexpected_ne_ok _ _ s)

theorem string_value_iff {p : Place} {d : Phrase} {v : Value} (h : Means d v) {s : String} :
    Decoder.string p v.toTree = .ok s ↔ ∃ ps, d = .string ps ∧ text ps = some s := by
  cases h with
  | @string ps s' hs =>
    constructor
    · rintro ⟨⟩
      exact ⟨ps, rfl, hs⟩
    · rintro ⟨_, ⟨⟩, h⟩
      cases hs.symm.trans h
      rfl
  | _ =>
    refine iff_of_false (fun h => ?_) ?_
    · have htree := string_eq_ok h
      simp [Value.toTree] at htree
    · rintro ⟨_, ⟨⟩, -⟩

theorem blob_value_iff {p : Place} {d : Phrase} {v : Value} (h : Means d v) {bytes : List UInt8} :
    Blob.ofJsonText p v.toTree = .ok bytes ↔
      ∃ ps, d = .string ps ∧ text ps = some (Base64.encode Base64.standard bytes) := by
  refine (bind_ok_iff _ _ _).trans ?_
  constructor
  · rintro ⟨s, hs, hread⟩
    obtain ⟨ps, rfl, hps⟩ := (string_value_iff h).mp hs
    exact ⟨ps, rfl, ofText_iff.mp hread ▸ hps⟩
  · rintro ⟨ps, rfl, hps⟩
    exact ⟨_, (string_value_iff h).mpr ⟨ps, rfl, hps⟩, ofText_iff.mpr rfl⟩

theorem options_iff {o : Option Phrase} {v : Option Value} {bytes : List UInt8}
    (h : Option.Rel Means o v) :
    ((∃ x, v = some x ∧ Blob.ofJsonText ⟨.value, 1⟩ x.toTree = .ok bytes) ∨ v = none ∧ bytes = []) ↔
      SaysOptions o bytes := by
  cases h with
  | none =>
    constructor
    · rintro (⟨_, ⟨⟩, -⟩ | ⟨-, rfl⟩)
      exact .absent
    · rintro ⟨⟩
      exact .inr ⟨rfl, rfl⟩
  | @some d v hm =>
    constructor
    · rintro (⟨_, ⟨⟩, hread⟩ | ⟨⟨⟩, -⟩)
      obtain ⟨ps, rfl, hps⟩ := (blob_value_iff hm).mp hread
      exact .text hps
    · rintro ⟨⟩
      rename_i ps hps
      exact .inl ⟨v, rfl, (blob_value_iff hm).mpr ⟨ps, rfl, hps⟩⟩

theorem exists_options {o : Option Phrase} {bytes : List UInt8} (h : SaysOptions o bytes) :
    ∃ v, Option.Rel Means o v := by
  cases h with
  | absent => exact ⟨none, .none⟩
  | text h => exact ⟨_, .some (.string h)⟩

theorem ofValue_evidence_iff {d : Phrase} {v : Value} (h : Means d v) {r : EvidenceRequest} :
    Decoder.ofValue EvidenceRequest.record.decode v = .ok r ↔ SaysEvidence d r := by
  rw [ofValue_parts_iff lawful_evidence rfl h]
  constructor
  · rintro ⟨os, vs, hparts, hrel, hholds⟩
    simp only [evidenceFields, List.forall₂_cons_left_iff, List.forall₂_nil_left_iff] at hholds
    obtain ⟨_, _, h₁, ⟨_, _, h₂, ⟨_, _, h₃, rfl, rfl⟩, rfl⟩, rfl⟩ := hholds
    obtain ⟨_, rfl, htype⟩ := (holds_mandatory_iff rfl).mp h₁
    obtain ⟨_, rfl, hnonce⟩ := (holds_mandatory_iff rfl).mp h₂
    simp only [List.forall₂_cons_right_iff, List.forall₂_nil_right_iff] at hrel
    obtain ⟨_, _, r₁, ⟨_, _, r₂, ⟨options, _, r₃, rfl, rfl⟩, rfl⟩, rfl⟩ := hrel
    cases r₁ with
    | some m₁ =>
      cases r₂ with
      | some m₂ =>
        obtain ⟨_, rfl, ht⟩ := (string_value_iff (p := ⟨.value, 1⟩) m₁).mp htype
        obtain ⟨_, rfl, hn⟩ := (blob_value_iff (p := ⟨.value, 1⟩) m₂).mp hnonce
        exact .parts hparts ht hn ((options_iff r₃).mp ((holds_optional_iff rfl).mp h₃))
  · rintro ⟨hparts, ht, hn, ho⟩
    obtain ⟨options, hoptions⟩ := exists_options ho
    have htype := (string_value_iff (p := ⟨.value, 1⟩) (.string ht)).mpr ⟨_, rfl, ht⟩
    have hnonce := (blob_value_iff (p := ⟨.value, 1⟩) (.string hn)).mpr ⟨_, rfl, hn⟩
    refine ⟨_, _, hparts, .cons (.some (.string ht)) (.cons (.some (.string hn))
      (.cons hoptions .nil)), .cons ?_ (.cons ?_ (.cons ?_ .nil))⟩
    · exact (holds_mandatory_iff rfl).mpr ⟨_, rfl, htype⟩
    · exact (holds_mandatory_iff rfl).mpr ⟨_, rfl, hnonce⟩
    · exact (holds_optional_iff rfl).mpr ((options_iff hoptions).mpr ho)

end evidence

end Attestation.Proofs.RequestLines
