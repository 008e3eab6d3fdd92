import Attestation.Mock
import Attestation.Proofs.RecordParts

namespace Attestation.Proofs.EvidenceFiles

open Base64Decoding Base64Encoding Base64Padding CmwGrammar CmwRoundTrip Json JsonDocuments
  JsonGrammar JsonRecords JsonValues Mock RecordFields RecordMembers RecordParts Utf8Encoding

/-- Evidence of a type, as texts: an object of two members among others, or an array of them. -/
inductive SaysCanned : Phrase → String → String → Prop
  | object {ms : List (List Piece × Phrase)} {type encoded : List Piece}
      {contentType evidence : String} (hn : Named ms)
      (hm : (known ["content-type", "evidence"] ms).Perm
        [("content-type", .string type), ("evidence", .string encoded)])
      (ht : text type = some contentType) (he : text encoded = some evidence) :
      SaysCanned (.object ms) contentType evidence
  | array {type encoded : List Piece} {contentType evidence : String}
      (ht : text type = some contentType) (he : text encoded = some evidence) :
      SaysCanned (.array [.string type, .string encoded]) contentType evidence

/-- An attester by its name. The text of its evidence is the one text that standard base64 has for
it, padded. -/
structure SaysEntry (m : List Piece × Phrase) (x : String × Canned) : Prop where
  name : text m.1 = some x.1
  canned : SaysCanned m.2 x.2.contentType (Base64.encode Base64.standard x.2.evidence)

/-- The attesters in the order of the file, if it tells any; a name may stand there several
times. -/
inductive SaysFile : Phrase → List (String × Canned) → Prop
  | object {ms es : List (List Piece × Phrase)} {entries : List (String × Canned)} (hn : Named ms)
      (hm : known ["attesters"] ms = [("attesters", .object es)])
      (he : List.Forall₂ SaysEntry es entries) : SaysFile (.object ms) entries
  | objectWithout {ms : List (List Piece × Phrase)} (hn : Named ms)
      (hm : known ["attesters"] ms = []) : SaysFile (.object ms) []
  | array {es : List (List Piece × Phrase)} {entries : List (String × Canned)}
      (he : List.Forall₂ SaysEntry es entries) : SaysFile (.array [.object es]) entries
  | arrayWithout : SaysFile (.array []) []

variable {p : Place} {d : Phrase} {c : Canned}

theorem ofText_iff {s : String} {bytes : List UInt8} :
    Blob.ofText Base64.standard id s = .ok bytes ↔ s = Base64.encode Base64.standard bytes :=
  ofText_eq_ok_iff.trans (decode_eq_ok_iff_encode standard_sound standard_tight)

theorem ofJsonText_iff {bytes : List UInt8} :
    Blob.ofJsonText p d.tree = .ok bytes ↔
      ∃ ps, d = .string ps ∧ text ps = some (Base64.encode Base64.standard bytes) := by
  refine (bind_ok_iff _ _ _).trans ?_
  constructor
  · rintro ⟨s, hs, h⟩
    obtain ⟨ps, rfl, hps⟩ := (string_tree_iff p d s).mp hs
    exact ⟨ps, rfl, ofText_iff.mp h ▸ hps⟩
  · rintro ⟨ps, rfl, hps⟩
    exact ⟨_, (string_tree_iff p _ _).mpr ⟨ps, rfl, hps⟩, ofText_iff.mpr rfl⟩

section canned

def cannedFields : List (RecordField Canned) := [
  ⟨"content-type", .mandatory, .string, fun x c => { c with contentType := x }, (·.contentType),
    fun _ _ => rfl⟩,
  ⟨"evidence", .mandatory, Blob.ofJsonText, fun x c => { c with evidence := x }, (·.evidence),
    fun _ _ => rfl⟩]

theorem lawful_canned : Lawful cannedFields where
  nodup := by decide
  apart := by simp [cannedFields]
  whole a a' h := by
    simp [cannedFields] at h
    obtain ⟨htype, hevidence⟩ := h
    cases a
    cases a'
    simp_all

theorem saysCanned_iff {contentType evidence : String} :
    SaysCanned d contentType evidence ↔ ∃ type encoded,
      Parts (names cannedFields) d [some (.string type), some (.string encoded)] ∧
        text type = some contentType ∧ text encoded = some evidence := by
  constructor
  · intro h
    cases h with
    | object hn hm ht he => exact ⟨_, _, .members hn rfl hm, ht, he⟩
    | array ht he => exact ⟨_, _, parts_array_iff.mpr ⟨Nat.le_refl 2, rfl⟩, ht, he⟩
  · rintro ⟨type, encoded, hparts, ht, he⟩
    cases d with
    | object ms =>
      obtain ⟨hn, -, hm⟩ := parts_object_iff.mp hparts
      exact .object hn hm ht he
    | array ds =>
      obtain ⟨hlen, hds⟩ := parts_array_iff.mp hparts
      match ds, hds with
      | [_, _], hds =>
        cases hds
        exact .array ht he
    | _ => cases hparts

theorem decode_canned_iff (hp : p.origin = .text) (hd : p.depth < maxDepth) :
    Canned.record.decode p d.tree = .ok c ↔
      SaysCanned d c.contentType (Base64.encode Base64.standard c.evidence) := by
  have hroom : Roomy p 1 := fun _ => hd
  rw [decode_parts_iff lawful_canned rfl (by simp [hp]), and_iff_right hroom, saysCanned_iff]
  constructor
  · rintro ⟨os, hparts, hholds⟩
    simp only [cannedFields, List.forall₂_cons_left_iff, List.forall₂_nil_left_iff] at hholds
    obtain ⟨_, _, h₁, ⟨_, _, h₂, rfl, rfl⟩, rfl⟩ := hholds
    obtain ⟨_, rfl, hs⟩ := (holds_mandatory_iff rfl).mp h₁
    obtain ⟨_, rfl, hb⟩ := (holds_mandatory_iff rfl).mp h₂
    obtain ⟨type, rfl, ht⟩ := (string_tree_iff p _ _).mp hs
    obtain ⟨encoded, rfl, he⟩ := ofJsonText_iff.mp hb
    exact ⟨type, encoded, hparts, ht, he⟩
  · rintro ⟨type, encoded, hparts, ht, he⟩
    refine ⟨_, hparts, .cons ?_ (.cons ?_ .nil)⟩
    · exact (holds_mandatory_iff rfl).mpr ⟨_, rfl, (string_tree_iff p _ _).mpr ⟨_, rfl, ht⟩⟩
    · exact (holds_mandatory_iff rfl).mpr ⟨_, rfl, ofJsonText_iff.mpr ⟨_, rfl, he⟩⟩

end canned

section file

variable {ms : List (List Piece × Phrase)} {entries : List (String × Canned)}
  {attesters : Attesters}

theorem members_canned_iff (hp : p.origin = .text) (hd : p.depth + 1 < maxDepth) :
    Decoder.members Canned.record.decode p d.tree = .ok entries ↔
      ∃ es, d = .object es ∧ List.Forall₂ SaysEntry es entries := by
  have hentry : ∀ m x, (text m.1 = some x.1 ∧
      Canned.record.decode { p with depth := p.depth + 1 } m.2.tree = .ok x.2) ↔ SaysEntry m x :=
    fun m x => (and_congr_right fun _ =>
      decode_canned_iff (p := { p with depth := p.depth + 1 }) hp hd).trans
      ⟨fun h => ⟨h.1, h.2⟩, fun h => ⟨h.1, h.2⟩⟩
  cases d with
  | object es =>
    constructor
    · intro h
      obtain ⟨q, hq, h⟩ := (bind_ok_iff _ _ _).mp h
      obtain rfl := ((inner_iff hp).mp hq).2
      obtain ⟨all, hread, hend⟩ := (bind_ok_iff _ _ _).mp h
      obtain rfl := ending_eq_ok hend
      obtain ⟨read, hall, rfl⟩ := membersFrom_iff.mp hread
      exact ⟨es, rfl, hall.imp fun m x => (hentry m x).mp⟩
    · rintro ⟨_, ⟨⟩, hall⟩
      refine (bind_ok_iff _ _ _).mpr ⟨_, (inner_iff hp).mpr ⟨by omega, rfl⟩, ?_⟩
      exact (bind_ok_iff _ _ _).mpr ⟨entries, membersFrom_iff.mpr
        ⟨entries, hall.imp fun m x => (hentry m x).mpr, rfl⟩, rfl⟩
  | null | bool _ | number _ | string _ | array _ =>
    refine iff_of_false ?_ ?_
    · rw [Phrase.tree, Decoder.members]
      · exact unexpected_ne_ok _ _ _
      · rintro _ _ ⟨⟩
    · rintro ⟨_, ⟨⟩, -⟩

def fileFields : List (RecordField Attesters) := [
  ⟨"attesters", .optional, mapped (.members Canned.record.decode) Table.ofList, fun x _ => x, id,
    fun _ _ => rfl⟩]

theorem file_slots : fileRecord.slots = fileFields.map (·.slot) :=
  congrArg ([·]) (of_comp .optional "attesters" (.members Canned.record.decode) Table.ofList
    fun x _ => x)

theorem lawful_file : Lawful fileFields where
  nodup := by decide
  apart := by simp [fileFields]
  whole a a' h := h _ List.mem_cons_self

theorem attesters_iff (hp : p.origin = .text) (hd : p.depth + 1 < maxDepth) :
    mapped (.members Canned.record.decode) Table.ofList p d.tree = .ok attesters ↔
      ∃ es entries, d = .object es ∧ List.Forall₂ SaysEntry es entries ∧
        attesters = Table.ofList entries := by
  rw [mapped, map_ok_iff]
  simp only [members_canned_iff hp hd]
  constructor
  · rintro ⟨entries, ⟨es, rfl, hes⟩, rfl⟩
    exact ⟨es, entries, rfl, hes, rfl⟩
  · rintro ⟨es, entries, rfl, hes, rfl⟩
    exact ⟨entries, ⟨es, rfl, hes⟩, rfl⟩

theorem saysFile_iff : (∃ entries, SaysFile d entries ∧ attesters = Table.ofList entries) ↔
    ∃ o, Parts (names fileFields) d [o] ∧
      ((∃ x, o = some x ∧ ∃ es entries, x = .object es ∧ List.Forall₂ SaysEntry es entries ∧
        attesters = Table.ofList entries) ∨ o = none ∧ attesters = []) := by
  constructor
  · rintro ⟨entries, hfile, rfl⟩
    cases hfile with
    | object hn hm he =>
      exact ⟨_, .members hn rfl (hm ▸ .refl _), .inl ⟨_, rfl, _, _, rfl, he, rfl⟩⟩
    | objectWithout hn hm => exact ⟨none, .members hn rfl (hm ▸ .refl _), .inr ⟨rfl, rfl⟩⟩
    | array he =>
      exact ⟨_, parts_array_iff.mpr ⟨Nat.le_refl 1, rfl⟩, .inl ⟨_, rfl, _, _, rfl, he, rfl⟩⟩
    | arrayWithout => exact ⟨none, parts_array_iff.mpr ⟨Nat.zero_le 1, rfl⟩, .inr ⟨rfl, rfl⟩⟩
  · rintro ⟨o, hparts, hread⟩
    cases d with
    | object ms =>
      obtain ⟨hn, -, hm⟩ := parts_object_iff.mp hparts
      obtain ⟨x, rfl, es, entries, rfl, hes, rfl⟩ | ⟨rfl, rfl⟩ := hread
      · exact ⟨entries, .object hn (List.perm_singleton.mp hm) hes, rfl⟩
      · exact ⟨[], .objectWithout hn (List.perm_nil.mp hm), rfl⟩
    | array ds =>
      obtain ⟨hlen, hds⟩ := parts_array_iff.mp hparts
      match ds, hds with
      | [], hds =>
        cases hds
        obtain ⟨_, ⟨⟩, -⟩ | ⟨-, rfl⟩ := hread
        exact ⟨[], .arrayWithout, rfl⟩
      | [x], hds =>
        cases hds
        obtain ⟨_, ⟨⟩, es, entries, rfl, hes, rfl⟩ | ⟨⟨⟩, -⟩ := hread
        exact ⟨entries, .array hes, rfl⟩
    | _ => cases hparts

theorem decode_file_iff :
    fileRecord.decode ⟨.text, 0⟩ d.tree = .ok attesters ↔
      ∃ entries, SaysFile d entries ∧ attesters = Table.ofList entries := by
  have hroom : Roomy ⟨.text, 0⟩ 1 := fun _ => by decide
  have hfield : ∀ {o : Option Phrase}, (∃ x, o = some x ∧
      mapped (.members Canned.record.decode) Table.ofList ⟨.text, 1⟩ x.tree = .ok attesters) ↔ _ :=
    fun {o} => exists_congr fun x => and_congr_right fun _ => attesters_iff rfl (by decide)
  rw [decode_parts_iff lawful_file file_slots (by decide), and_iff_right hroom, saysFile_iff]
  constructor
  · rintro ⟨os, hparts, hholds⟩
    simp only [fileFields, List.forall₂_cons_left_iff, List.forall₂_nil_left_iff] at hholds
    obtain ⟨o, _, h, rfl, rfl⟩ := hholds
    exact ⟨o, hparts, ((holds_optional_iff rfl).mp h).imp_left hfield.mp⟩
  · rintro ⟨o, hparts, h⟩
    exact ⟨_, hparts, .cons ((holds_optional_iff rfl).mpr (h.imp_left hfield.mpr)) .nil⟩

theorem ofList_eq_nil_iff : Table.ofList entries = [] ↔ entries = [] := by
  refine ⟨fun h => ?_, fun h => by rw [h]; rfl⟩
  cases entries using List.reverseRecOn with
  | nil => rfl
  | append_singleton entries x =>
    have hlast := Tables.find?_ofList (entries ++ [x]) x.1
    rw [h, List.reverse_append, List.reverse_singleton, List.singleton_append, Tables.find?_cons,
      if_pos rfl] at hlast
    cases hlast

theorem ofJson_eq_ok_iff {data : List UInt8} : Mock.ofJson data = .ok attesters ↔
    Decoder.run fileRecord.decode data = .ok attesters ∧ attesters ≠ [] := by
  unfold Mock.ofJson
  split
  · rename_i e hrun
    rw [hrun]
    exact iff_of_false nofun (by rintro ⟨⟨⟩, -⟩)
  · rename_i hrun
    rw [hrun]
    refine iff_of_false nofun ?_
    rintro ⟨hnil, hne⟩
    cases hnil
    exact hne rfl
  · rename_i all hall hrun
    rw [hrun]
    constructor
    · rintro ⟨⟩
      exact ⟨rfl, fun h => hall h⟩
    · rintro ⟨h, -⟩
      cases h
      rfl

theorem ofJson_says_iff {data : List UInt8} (hd : Spells d data) (hfile : SaysFile d entries) :
    Mock.ofJson data = .ok attesters ↔ entries ≠ [] ∧ attesters = Table.ofList entries := by
  rw [ofJson_eq_ok_iff, run_spelled _ hd, decode_file_iff.mpr ⟨entries, hfile, rfl⟩]
  constructor
  · rintro ⟨⟨⟩, hne⟩
    exact ⟨fun h => hne (ofList_eq_nil_iff.mpr h), rfl⟩
  · rintro ⟨hne, rfl⟩
    exact ⟨rfl, fun h => hne (ofList_eq_nil_iff.mp h)⟩

theorem ofJson_iff {data : List UInt8} : Mock.ofJson data = .ok attesters ↔
    ∃ d entries, Spells d data ∧ SaysFile d entries ∧ entries ≠ [] ∧
      attesters = Table.ofList entries := by
  constructor
  · intro h
    obtain ⟨hrun, -⟩ := ofJson_eq_ok_iff.mp h
    obtain ⟨d, hd⟩ := exists_spelled hrun
    rw [run_spelled _ hd] at hrun
    obtain ⟨entries, hfile, -⟩ := decode_file_iff.mp hrun
    exact ⟨d, entries, hd, hfile, (ofJson_says_iff hd hfile).mp h⟩
  · rintro ⟨d, entries, hd, hfile, hread⟩
    exact (ofJson_says_iff hd hfile).mpr hread

end file

end Attestation.Proofs.EvidenceFiles
