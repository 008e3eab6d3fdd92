import Attestation.Proofs.LineRoom
import Attestation.Proofs.NonceText
import Attestation.Proofs.OptionsText
import Attestation.Proofs.ReportText
import Attestation.Tsm.Program

namespace Attestation.Proofs.MockReports

open Plugin Rpc Tsm NonceText ReportText OptionsText LineRoom Messages Utf8Encoding Base64Encoding
open Json (Value)

/-- The attester that `mock-tsm` serves. -/
def mockTsm : SubAttester := Program.mock.profile.subAttester Program.mock.backend

/-- The text that a report carries for a nonce and a level. -/
def boundText (nonce : List UInt8) (level : UInt32) : String :=
  s!"privlevel: {level.toNat}\ninblob: {String.ofList (hexDigits nonce)}"

def boundReport (nonce : List UInt8) (level : UInt32) : Report :=
  ⟨"fake\n", none, Text.Utf8.encode (boundText nonce level), Text.Utf8.encode "auxblob", none⟩

theorem echoReport_eq (nonce : List UInt8) (level : UInt32) :
    Backend.echoReport ⟨nonce, level, true⟩ = boundReport nonce level := by
  rw [Backend.echoReport, boundReport, boundText, hex_encode]
  rfl

theorem encode_ne_nil {s : String} (h : s ≠ "") : Text.Utf8.encode s ≠ [] := by
  have hcs : s.toList ≠ [] := fun he => h (String.toList_eq_nil_iff.mp he)
  obtain ⟨c, cs, hc⟩ := List.exists_cons_of_ne_nil hcs
  have hpos := Char.utf8Size_pos c
  intro he
  have hlen := congrArg List.length he
  rw [Text.Utf8.encode, hc, List.flatMap_cons, List.length_append, String.length_utf8EncodeChar]
    at hlen
  simp only [List.length_nil] at hlen
  omega

theorem length_boundText (nonce : List UInt8) (level : UInt32) :
    (boundText nonce level).length =
      20 + (toString level.toNat).length + 2 * nonce.length := by
  have hfixed : "privlevel: ".length = 11 ∧ "\ninblob: ".length = 9 := ⟨rfl, rfl⟩
  have htext : boundText nonce level = "privlevel: " ++ toString level.toNat ++ "\ninblob: " ++
      String.ofList (hexDigits nonce) := rfl
  have hhex := length_hexDigits nonce
  rw [← String.length_ofList] at hhex
  rw [htext, String.length_append, String.length_append, String.length_append, hfixed.1, hfixed.2,
    hhex]
  omega

theorem toJson_boundReport (nonce : List UInt8) (level : UInt32) :
    (boundReport nonce level).toJson = .ok (boundReport nonce level).toValue.render := by
  have hprovider : (boundReport nonce level).provider ≠ "" := by
    change "fake\n" ≠ ""
    decide
  have hout : (boundReport nonce level).outBlob ≠ [] := by
    apply encode_ne_nil
    intro he
    have hlen := length_boundText nonce level
    rw [he] at hlen
    simp only [String.length_empty] at hlen
    omega
  have hvalid : (boundReport nonce level).valid = .ok () := by
    have haux : (boundReport nonce level).auxBlob ≠ [] := encode_ne_nil (by decide)
    rw [Report.valid, if_neg hprovider, if_neg hout, if_neg haux]
    rfl
  rw [Report.toJson, hvalid]
  rfl

def reportBytes (nonce : List UInt8) (level : UInt32) : List UInt8 :=
  bytesOf (boundReport nonce level).toValue.render

theorem ofJson_reportBytes (nonce : List UInt8) (level : UInt32) :
    Report.ofJson (reportBytes nonce level) = .ok (boundReport nonce level) :=
  ofJson_toJson (toJson_boundReport nonce level)

def wrongSize (n : Nat) : String := s!"nonce size of the TSM attester should be 32, got {n}"

theorem evidence_wrongSize {r : EvidenceRequest} (h : r.nonce.length ≠ 32) :
    mockTsm.evidence r = .failure (wrongSize r.nonce.length) := by
  have hrequest : Profile.mock.reportRequest r = .error (wrongSize r.nonce.length) := if_pos h
  change Profile.mock.answer Backend.echo (.evidence r) = _
  rw [Profile.answer, hrequest]
  rfl

theorem evidence_bound {nonce options : List UInt8} {level : UInt32} (h : nonce.length = 32)
    (hl : privilegeLevel options = .ok level) :
    mockTsm.evidence ⟨mockMediaType, nonce, options⟩ = .success (reportBytes nonce level) := by
  have hrequest : Profile.mock.reportRequest ⟨mockMediaType, nonce, options⟩ =
      .ok ⟨nonce, level, true⟩ := by
    rw [Profile.reportRequest, if_neg (fun hne => hne h),
      if_neg (fun hne => hne List.mem_cons_self), hl]
    rfl
  have hencode : encodeReport mockMediaType (boundReport nonce level) =
      .ok (reportBytes nonce level) := by
    rw [encodeReport, if_neg (by decide), toJson_boundReport, reportBytes, ← encode_ofList]
    rfl
  change Profile.mock.answer Backend.echo (.evidence ⟨mockMediaType, nonce, options⟩) = _
  rw [Profile.answer, hrequest]
  change evidenceOf mockMediaType (.ok (Backend.echoReport ⟨nonce, level, true⟩)) = _
  rw [echoReport_eq, evidenceOf, hencode]

theorem length_base64 (bytes : List UInt8) :
    (Base64.encode Base64.standard bytes).length ≤ 2 * bytes.length + 4 := by
  have hbytes : (Base64.encodeBytes Base64.standard bytes).length ≤ 2 * bytes.length + 4 := by
    induction bytes using groups_induction with
    | nil => exact Nat.zero_le _
    | single a =>
      rw [encodeBytes_single]
      exact Nat.le_of_ble_eq_true rfl
    | pair a b =>
      rw [encodeBytes_pair]
      exact Nat.le_of_ble_eq_true rfl
    | group a b c rest ih =>
      rw [encodeBytes_cons]
      simp only [List.length_cons]
      omega
  rw [Base64.encode, String.length_ofList, List.length_map]
  exact hbytes

theorem length_encode (s : String) : (Text.Utf8.encode s).length ≤ 4 * s.length := by
  have h := length_bytesOf s.toList
  rwa [String.length_toList] at h

theorem length_reportBytes (nonce : List UInt8) (level : UInt32) :
    (reportBytes nonce level).length ≤ 10000 + 400 * nonce.length := by
  have hlevel : (toString level.toNat).length ≤ 20 :=
    length_decimals (Nat.lt_trans level.toNat_lt (by decide))
  have htext := length_boundText nonce level
  have hout := length_encode (boundText nonce level)
  have haux := length_encode "auxblob"
  have hout64 := length_base64 (Text.Utf8.encode (boundText nonce level))
  have haux64 := length_base64 (Text.Utf8.encode "auxblob")
  have hroom : room (boundReport nonce level).toValue =
      182 + 6 * (Base64.encode Base64.standard (Text.Utf8.encode (boundText nonce level))).length +
        6 * (Base64.encode Base64.standard (Text.Utf8.encode "auxblob")).length := by
    have hkeys : "provider".length = 8 ∧ "fake\n".length = 5 ∧ "outblob".length = 7 ∧
        "auxblob".length = 7 := ⟨rfl, rfl, rfl, rfl⟩
    simp only [Report.toValue, boundReport, Option.map_none, Option.toList_none, List.append_nil,
      List.cons_append, List.nil_append, Blob.toJson, room, roomMembers, hkeys]
    omega
  have hlast : "auxblob".length = 7 := rfl
  have hrender := length_render (boundReport nonce level).toValue
  have hbytes := length_bytesOf (boundReport nonce level).toValue.render
  rw [reportBytes]
  omega

theorem room_evidence (a : EvidenceAnswer) :
    room a.toValue ≤ 300 + 6 * a.status.error.length + 12 * a.evidence.length := by
  have hkeys : "status".length = 6 ∧ "result".length = 6 ∧ "error".length = 5 ∧
      "evidence".length = 8 := ⟨rfl, rfl, rfl, rfl⟩
  have hevidence := length_base64 a.evidence
  have hstatus : room a.status.toValue ≤ 100 + 6 * a.status.error.length := by
    rw [Status.toValue]
    split <;> simp only [room, roomMembers, hkeys] <;> omega
  simp only [EvidenceAnswer.toValue, Blob.toJson, room, roomMembers, hkeys]
  omega

theorem fits_evidence {a : SubAttester} {r : EvidenceRequest}
    (herror : (a.evidence r).status.error.length ≤ 1000)
    (hevidence : (a.evidence r).evidence.length ≤ 100000) (id : UInt64) :
    (responseLine a ⟨id, .evidence r⟩).length ≤ maxLine := by
  have hline := length_responseLine a ⟨id, .evidence r⟩
  have hroom : room (Query.answerValue (.evidence r) (a.answer (.evidence r))) ≤ _ :=
    room_evidence (a.evidence r)
  have hmax : maxLine = 16 * 1024 * 1024 := rfl
  simp only at hline
  omega

theorem fits_wrongSize {r : EvidenceRequest} (h : r.nonce.length ≠ 32)
    (hlt : r.nonce.length < UInt64.size) (id : UInt64) :
    (responseLine mockTsm ⟨id, .evidence r⟩).length ≤ maxLine := by
  have hdigits := length_decimals hlt
  have hfixed : "nonce size of the TSM attester should be 32, got ".length = 49 := rfl
  have herror : (wrongSize r.nonce.length).length ≤ 1000 := by
    have htext : wrongSize r.nonce.length = "nonce size of the TSM attester should be 32, got " ++
        toString r.nonce.length := rfl
    rw [htext, String.length_append, hfixed]
    omega
  have hanswer := evidence_wrongSize h
  refine fits_evidence ?_ ?_ id
  · rw [hanswer]
    exact herror
  · rw [hanswer]
    exact Nat.zero_le _

theorem fits_bound {nonce options : List UInt8} {level : UInt32} (h : nonce.length = 32)
    (hl : privilegeLevel options = .ok level) (id : UInt64) :
    (responseLine mockTsm ⟨id, .evidence ⟨mockMediaType, nonce, options⟩⟩).length ≤ maxLine := by
  have hanswer := evidence_bound h hl
  have hlen := length_reportBytes nonce level
  refine fits_evidence ?_ ?_ id
  · rw [hanswer]
    exact Nat.zero_le _
  · rw [hanswer]
    change (reportBytes nonce level).length ≤ _
    omega

theorem fits_formats (id : UInt64) : (responseLine mockTsm ⟨id, .formats⟩).length ≤ maxLine := by
  have hline := length_responseLine mockTsm ⟨id, .formats⟩
  have hroom : room (Query.answerValue .formats (mockTsm.answer .formats)) ≤ 1000 := by decide
  have hmax : maxLine = 16 * 1024 * 1024 := rfl
  simp only at hline
  omega

theorem fits_request {nonce options : List UInt8} {level : UInt32}
    (hsize : nonce.length < UInt64.size) (hl : privilegeLevel options = .ok level) (id : UInt64) :
    (responseLine mockTsm ⟨id, .evidence ⟨mockMediaType, nonce, options⟩⟩).length ≤ maxLine := by
  by_cases h : nonce.length = 32
  · exact fits_bound h hl id
  · exact fits_wrongSize h hsize id

end Attestation.Proofs.MockReports
