import Attestation.Plugin.Client
import Attestation.Proofs.AnswerText
import Attestation.Proofs.LineText
import Attestation.Rpc.Server

namespace Attestation.Proofs.Messages

open AnswerText Json JsonReading JsonText JsonValues LineText Plugin Rpc Utf8Encoding

def requestOf (x : Question) : Request :=
  ⟨Rpc.version, x.id, methodOf x.query, paramsOf x.query⟩

theorem requestLine_eq (x : Question) :
    requestLine x.id x.query = bytesOf (requestOf x).toValue.render :=
  encode_ofList _

theorem reads_id (id : UInt64) : Reads (Decoder.nat 64) 0 (.ofNat id) id.toNat :=
  reads_nat 64 id id.toNat_lt

theorem reads_request (x : Question) :
    Reads Request.record.decode 2 (requestOf x).toValue (requestOf x) := by
  obtain ⟨id, q⟩ := x
  have hid := reads_mono (reads_id id) (Nat.zero_le 1)
  have hsimple : ∀ method, Reads Request.record.decode 2
      (Request.toValue ⟨Rpc.version, id, method, none⟩)
      ⟨Rpc.version, UInt64.ofNat id.toNat, method, none⟩ := fun method =>
    reads_record (.cons rfl (by decide) (reads_mono (reads_string Rpc.version) (Nat.zero_le 1))
      (.cons rfl (by decide) hid
        (.cons rfl (by decide) (reads_mono (reads_string method) (Nat.zero_le 1)) (.nil _ _)))) rfl
  rw [UInt64.ofNat_toNat] at hsimple
  cases q with
  | identity => exact hsimple _
  | formats => exact hsimple _
  | options => exact hsimple _
  | evidence r =>
    have hshallow := shallow_sorted (shallow_evidenceRequest r)
    have hv := reads_mono (reads_value r.toValue.sorted) hshallow.nesting_le
    rw [sorted_sorted] at hv
    have hparams := reads_some hv (by simp [EvidenceRequest.toValue, Value.sorted])
    have h : Reads Request.record.decode 2 (requestOf ⟨id, .evidence r⟩).toValue
        ⟨Rpc.version, UInt64.ofNat id.toNat, methodOf (.evidence r), paramsOf (.evidence r)⟩ :=
      reads_record (.cons rfl (by decide) (reads_mono (reads_string Rpc.version) (Nat.zero_le 1))
        (.cons rfl (by decide) hid
          (.cons rfl (by decide) (reads_mono (reads_string "GetEvidence") (Nat.zero_le 1))
            (.cons rfl (by decide) hparams (.nil _ _))))) rfl
    rwa [UInt64.ofNat_toNat] at h

theorem shallow_request (x : Question) : Shallow 2 (requestOf x).toValue := by
  refine shallow_object fun m hm => ?_
  obtain hm | hm := List.mem_append.mp hm
  · simp only [List.mem_cons, List.not_mem_nil, or_false] at hm
    obtain rfl | rfl | rfl := hm
    · exact shallow_string 1 _
    · exact shallow_ofNat 1 _
    · exact shallow_string 1 _
  · obtain ⟨v, hv, rfl⟩ := Option.map_eq_some_iff.mp (Option.mem_toList.mp hm)
    obtain ⟨id, q⟩ := x
    cases q with
    | identity | formats | options => cases hv
    | evidence r =>
      cases hv
      exact shallow_sorted (shallow_evidenceRequest r)

theorem ofLine_requestLine (x : Question) :
    Question.ofLine (requestLine x.id x.query) = .ok x := by
  have hrun := run_text (reads_request x) (by decide) (shallow_request x).exact
  rw [Question.ofLine, requestLine_eq, hrun]
  obtain ⟨id, q⟩ := x
  cases q with
  | identity | formats | options => rfl
  | evidence r =>
    have hread := ofValue_reads (reads_evidenceRequest r)
    have hquery : queryOf (requestOf ⟨id, .evidence r⟩) =
        (evidenceRequest id (some r.toValue.sorted)).map .evidence := rfl
    simp only [hquery, evidenceRequest, hread]
    rfl

/-- What a sub-attester answers to a question, as it is sent. -/
def resultOf (a : SubAttester) (q : Query) : Value := (q.answerValue (a.answer q)).sorted

theorem dispatch_requestLine (a : SubAttester) (x : Question) :
    dispatch a (requestLine x.id x.query) = .ofResult x.id (resultOf a x.query) := by
  rw [dispatch, dispatching, ofLine_requestLine]
  rfl

theorem resultOf_ne_null (a : SubAttester) (q : Query) : resultOf a q ≠ .null := by
  cases q <;> simp [resultOf, Query.answerValue, IdentityAnswer.toValue, FormatsAnswer.toValue,
    OptionsAnswer.toValue, EvidenceAnswer.toValue, Value.sorted]

theorem shallow_resultOf (a : SubAttester) (q : Query) : Shallow 3 (resultOf a q) :=
  shallow_sorted (shallow_answer q (a.answer q))

theorem answerOf_resultOf (a : SubAttester) (q : Query) :
    answerOf q (.ok (resultOf a q)) = a.answer q := by
  have hread : Decoder.ofValue q.decodeAnswer (resultOf a q) = .ok (a.answer q) :=
    ofValue_reads (reads_answer q (a.answer q))
  rw [answerOf, hread]

/-- The line that answers a question, without its line feed. -/
@[irreducible]
def responseLine (a : SubAttester) (x : Question) : List UInt8 :=
  bytesOf (dispatch a (requestLine x.id x.query)).toValue.render

theorem responseLine_eq (a : SubAttester) (x : Question) :
    responseLine a x = bytesOf (Response.ofResult x.id (resultOf a x.query)).toValue.render := by
  rw [responseLine, dispatch_requestLine]

theorem reads_response (a : SubAttester) (x : Question) :
    Reads Response.record.decode 4 (Response.ofResult x.id (resultOf a x.query)).toValue
      (.ofResult x.id (resultOf a x.query)) := by
  have hid := reads_mono (reads_some (reads_id x.id) nofun) (Nat.zero_le 3)
  have hv := reads_mono (reads_value (resultOf a x.query)) (shallow_resultOf a x.query).nesting_le
  rw [show (resultOf a x.query).sorted = resultOf a x.query from sorted_sorted _] at hv
  have h : Reads Response.record.decode 4 (Response.ofResult x.id (resultOf a x.query)).toValue
      ⟨Rpc.version, some (UInt64.ofNat x.id.toNat), some (resultOf a x.query), none⟩ :=
    reads_record (.cons rfl (by decide) (reads_mono (reads_string Rpc.version) (Nat.zero_le 3))
      (.cons rfl (by decide) hid
        (.cons rfl (by decide) (reads_some hv (resultOf_ne_null a x.query)) (.nil _ _)))) rfl
  rwa [UInt64.ofNat_toNat] at h

theorem shallow_response (a : SubAttester) (x : Question) :
    Shallow 4 (Response.ofResult x.id (resultOf a x.query)).toValue := by
  refine shallow_object ?_
  have hv := shallow_resultOf a x.query
  have hid := shallow_ofNat 3 x.id
  simp [Response.ofResult, shallow_string, hid, hv]

theorem line_dispatch (a : SubAttester) (x : Question) :
    bytesOf (dispatch a (requestLine x.id x.query)).line = responseLine a x ++ [0x0A] := by
  rw [Response.line, bytesOf_append, responseLine]
  rfl

theorem not_mem_responseLine (a : SubAttester) (x : Question) {b : UInt8} (hb : b < 0x20) :
    b ∉ responseLine a x := by
  rw [responseLine_eq]
  exact not_mem_bytesOf (printable_render _ (shallow_response a x).exact) hb

theorem not_mem_requestLine (x : Question) {b : UInt8} (hb : b < 0x20) :
    b ∉ requestLine x.id x.query := by
  rw [requestLine_eq]
  exact not_mem_bytesOf (printable_render _ (shallow_request x).exact) hb

theorem ofLine_responseLine (a : SubAttester) (x : Question) :
    Frame.ofLine (responseLine a x) =
      .line (Response.ofResult x.id (resultOf a x.query)).toValue.text := by
  rw [Frame.ofLine, dropReturn_of_not_mem (not_mem_responseLine a x (by decide)), responseLine_eq,
    decode?_bytesOf]
  rfl

/-- A response settles the call whose number it carries, and is skipped in any other one. -/
theorem judge_responseLine (a : SubAttester) (x : Question) (path : String) (id : UInt64) :
    judge path id (some (.ofLine (responseLine a x))) =
      if x.id = id then .settled (.ok (resultOf a x.query)) else .skip := by
  have htext : Text.Utf8.encode (Response.ofResult x.id (resultOf a x.query)).toValue.text =
      bytesOf (Response.ofResult x.id (resultOf a x.query)).toValue.render := encode_ofList _
  have hrun := run_text (reads_response a x) (by decide) (shallow_response a x).exact
  have htrim : Text.trim (Response.ofResult x.id (resultOf a x.query)).toValue.text =
      (Response.ofResult x.id (resultOf a x.query)).toValue.text := trim_object _
  have hne : (Response.ofResult x.id (resultOf a x.query)).toValue.text ≠ "" := by
    rw [Value.text, Ne, String.ofList_eq_empty_iff]
    exact List.cons_ne_nil _ _
  rw [ofLine_responseLine]
  simp only [judge, judgeLine, htrim, if_neg hne, htext, hrun]
  simp only [Response.ofResult, Option.any_some, decide_eq_true_eq, ne_eq, ite_not]
  rfl

theorem content_requestLine (x : Question) :
    Text.Line.content ⟨requestLine x.id x.query, true⟩ = requestLine x.id x.query := by
  have hdrop := dropReturn_of_not_mem (not_mem_requestLine x (by decide : (0x0D : UInt8) < 0x20))
  simp only [Text.Line.content, if_true, hdrop]

theorem answers_cons (a : SubAttester) (x : Question) (lines : List Text.Line) :
    answers a (⟨requestLine x.id x.query, true⟩ :: lines) =
      ((dispatch a (requestLine x.id x.query)).line :: (answers a lines).1,
        (answers a lines).2) := by
  have hdecode : Text.Utf8.decode? (requestLine x.id x.query) =
      some (requestOf x).toValue.text := by
    rw [requestLine_eq, decode?_bytesOf]
    rfl
  have hblank : Text.blank (requestOf x).toValue.text = false := not_blank_object _
  rw [answers, content_requestLine, hdecode]
  simp only [hblank]
  rfl

theorem answers_line (a : SubAttester) (x : Question) :
    answers a [⟨requestLine x.id x.query, true⟩] =
      ([(dispatch a (requestLine x.id x.query)).line], .ok ()) := by
  rw [answers_cons]
  rfl

def inputOf (xs : List Question) : List UInt8 := joined (xs.map fun x => requestLine x.id x.query)

def handshakeBytes : List UInt8 := bytesOf Handshake.current.line.toList

def linesOf (a : SubAttester) (xs : List Question) : List (List UInt8) :=
  handshakeBytes :: xs.map (responseLine a)

/-- A plugin introduces itself, then answers each request with one line, in order. -/
theorem serve_inputOf (a : SubAttester) (xs : List Question) :
    (serve a (inputOf xs)).1.flatMap bytesOf = joined (linesOf a xs) ∧
      (serve a (inputOf xs)).2 = .ok () := by
  have hlines : ∀ l ∈ xs.map (fun x => requestLine x.id x.query), (0x0A : UInt8) ∉ l := by
    intro l hl
    obtain ⟨x, _, rfl⟩ := List.mem_map.mp hl
    exact not_mem_requestLine x (by decide)
  have hanswers : ∀ xs : List Question,
      (answers a (xs.map fun x => ⟨requestLine x.id x.query, true⟩)).1.flatMap bytesOf =
        joined (xs.map (responseLine a)) ∧
      (answers a (xs.map fun x => ⟨requestLine x.id x.query, true⟩)).2 = .ok () := by
    intro xs
    induction xs with
    | nil => exact ⟨rfl, rfl⟩
    | cons x xs ih =>
      rw [List.map_cons, answers_cons, List.flatMap_cons, ih.1, line_dispatch, List.map_cons,
        joined_cons, List.append_assoc]
      exact ⟨rfl, ih.2⟩
  have hsplit := splitLines_joined _ hlines
  rw [List.map_map] at hsplit
  have hhandshake : bytesOf handshakeLine = handshakeBytes ++ [0x0A] := by
    rw [handshakeLine, bytesOf_append]
    rfl
  rw [serve, inputOf, hsplit, linesOf, joined_cons]
  refine ⟨?_, (hanswers xs).2⟩
  change (handshakeLine :: _).flatMap bytesOf = _
  rw [List.flatMap_cons, hhandshake, List.append_assoc]
  exact congrArg (handshakeBytes ++ 0x0A :: ·) (hanswers xs).1

end Attestation.Proofs.Messages
