import Attestation.Proofs.InputLines
import Attestation.Proofs.Messages
import Mathlib.Data.List.Forall2

namespace Attestation.Proofs.Service

open AnswerText InputLines Json JsonReading JsonText JsonValues LineText Messages Rpc Utf8Encoding
open Text (Line)

def requestId? (line : List UInt8) : Option UInt64 :=
  match Decoder.run Request.record.decode line with
  | .ok r => some r.id
  | .error _ => none

/-- A response that carries the number of its request and has either a result or an error. -/
structure Fitting (line : List UInt8) (r : Response) : Prop where
  id : r.id = requestId? line
  single : r.result.isSome ≠ r.error.isSome

/-- One line that is read as a response to this line. -/
structure Answers (l : Line) (written : List Char) (r : Response) : Prop where
  text : bytesOf written = bytesOf r.toValue.render ++ [0x0A]
  whole : (0x0A : UInt8) ∉ bytesOf r.toValue.render
  read : Decoder.run Response.record.decode (bytesOf r.toValue.render) = .ok r
  fitting : Fitting l.content r

theorem exists_int64Value (i : Int64) :
    ∃ n, int64Value i = .number n ∧ n.toInt? = some i.toInt := by
  have hlow := Int64.le_toInt i
  have hhigh := Int64.toInt_lt i
  unfold int64Value
  cases hi : i.toInt with
  | ofNat n =>
    rw [hi, Int.ofNat_eq_natCast] at hhigh
    have hn : n < UInt64.size := by
      have hs : UInt64.size = 18446744073709551616 := rfl
      omega
    exact ⟨_, rfl, by simp [Number.toInt?, UInt64.toNat_ofNat_of_lt' hn]⟩
  | negSucc n =>
    have hn : n % 0x8000000000000000 = n := Nat.mod_eq_of_lt (by omega)
    exact ⟨_, rfl, by simp [Number.toInt?, hn]⟩

theorem reads_int64 (i : Int64) : Reads int64 0 (int64Value i) i := by
  intro p _
  obtain ⟨n, hvalue, hn⟩ := exists_int64Value i
  have hin : -0x8000000000000000 ≤ i.toInt ∧ i.toInt ≤ 0x7fffffffffffffff := by
    have hlow := Int64.le_toInt i
    have hhigh := Int64.toInt_lt i
    omega
  rw [hvalue, Value.toTree, int64, Decoder.int]
  simp only [hn, if_pos hin, Except.map, Int64.ofInt_toInt]

theorem reads_error (e : Error) : Reads Error.record.decode 1 e.toValue e :=
  reads_record (.cons rfl (by decide) (reads_int64 e.code)
    (.cons rfl (by decide) (reads_string e.message) (.nil _ _))) rfl

theorem reads_optionalId (id : Option UInt64) :
    ∃ x : Option Nat, Reads (.optional (Decoder.nat 64)) 0 ((id.map Value.ofNat).getD .null) x ∧
      x.map UInt64.ofNat = id := by
  cases id with
  | none => exact ⟨none, fun _ _ => rfl, rfl⟩
  | some id =>
    exact ⟨some id.toNat, reads_some (reads_id id) nofun,
      by rw [Option.map_some, UInt64.ofNat_toNat]⟩

theorem reads_refusal (id : Option UInt64) (code : Int64) (message : String) :
    Reads Response.record.decode 2 (Response.ofError id code message).toValue
      (.ofError id code message) := by
  obtain ⟨x, hx, rfl⟩ := reads_optionalId id
  have herror := reads_some (reads_error ⟨code, message⟩) nofun
  exact reads_record (.cons rfl (by decide) (reads_mono (reads_string Rpc.version) (Nat.zero_le 1))
    (.cons rfl (by decide) (reads_mono hx (Nat.zero_le 1))
      (.cons rfl (by decide) herror (.nil _ _)))) rfl

theorem exact_refusal (id : Option UInt64) (code : Int64) (message : String) :
    Exact (Response.ofError id code message).toValue := by
  obtain ⟨n, hcode, hn⟩ := exists_int64Value code
  have hint : n.toInt?.isSome = true := by rw [hn]; rfl
  have hid : Exact ((id.map Value.ofNat).getD .null) := by
    cases id with
    | none => trivial
    | some id => rfl
  simp [Response.ofError, Response.toValue, Error.toValue, Exact, ExactMembers, hcode, hint, hid]

theorem queryOf_error {r : Request} {refusal : Response} (h : queryOf r = .error refusal) :
    ∃ code message, refusal = .ofError (some r.id) code message := by
  unfold queryOf at h
  repeat' split at h
  · cases h
  · cases h
  · cases h
  · unfold evidenceRequest at h
    split at h
    · cases h
      exact ⟨_, _, rfl⟩
    · split at h
      · cases h
      · cases h
        exact ⟨_, _, rfl⟩
  · cases h
    exact ⟨_, _, rfl⟩

theorem dispatch_cases (a : SubAttester) (line : List UInt8) :
    (∃ code message, dispatch a line = .ofError (requestId? line) code message) ∨
      ∃ x : Question, requestId? line = some x.id ∧
        dispatch a line = .ofResult x.id (resultOf a x.query) := by
  unfold dispatch dispatching Question.ofLine requestId?
  cases Decoder.run Request.record.decode line with
  | error e => exact Or.inl ⟨_, _, rfl⟩
  | ok r =>
    cases hq : queryOf r with
    | error refusal =>
      obtain ⟨code, message, rfl⟩ := queryOf_error hq
      refine Or.inl ⟨code, message, ?_⟩
      simp only [hq, Except.map]
      rfl
    | ok q =>
      refine Or.inr ⟨⟨r.id, q⟩, rfl, ?_⟩
      simp only [hq, Except.map]
      rfl

theorem answers_dispatch (a : SubAttester) (l : Line) :
    Answers l (dispatch a l.content).line (dispatch a l.content) := by
  have htext : bytesOf (dispatch a l.content).line =
      bytesOf (dispatch a l.content).toValue.render ++ [0x0A] := bytesOf_append _ _
  obtain ⟨code, message, h⟩ | ⟨x, hid, h⟩ := dispatch_cases a l.content
  · rw [h] at htext ⊢
    have hexact := exact_refusal (requestId? l.content) code message
    exact ⟨htext, not_mem_bytesOf (printable_render _ hexact) (by decide),
      run_text (reads_refusal _ _ _) (by decide) hexact, rfl, nofun⟩
  · rw [h] at htext ⊢
    have hexact := (shallow_response a x).exact
    exact ⟨htext, not_mem_bytesOf (printable_render _ hexact) (by decide),
      run_text (reads_response a x) (by decide) hexact, hid.symm, nofun⟩

/-- The lines that get a response: those before the first one that is no text, but for the blank
ones. -/
def asked (lines : List Line) : List Line := (lines.takeWhile (IsText ·)).filter (¬ IsBlank ·)

theorem answers_asked (a : SubAttester) (lines : List Line) :
    (answers a lines).1 = (asked lines).map fun l => (dispatch a l.content).line := by
  induction lines with
  | nil => rfl
  | cons l lines ih =>
    rw [answers]
    cases hd : Text.Utf8.decode? l.content with
    | none =>
      have hnot := not_isText hd
      simp [asked, hnot]
    | some s =>
      have htext := decode?_content hd
      have hblank := isBlank_iff hd
      unfold asked at ih ⊢
      cases hb : Text.blank s with
      | true => simp [hb, htext, hblank, ih]
      | false => simp [hb, htext, hblank, ih]

/-- How the service ends: well just if all lines are text, and otherwise by a fault of the input. -/
theorem outcome_answers (a : SubAttester) (lines : List Line) :
    ((answers a lines).2 = .ok () ∧ ∀ l ∈ lines, IsText l) ∨
      ((∃ reason, (answers a lines).2 = .error (.io reason)) ∧ ∃ l ∈ lines, ¬ IsText l) := by
  induction lines with
  | nil => exact Or.inl ⟨rfl, nofun⟩
  | cons l lines ih =>
    rw [answers]
    cases hd : Text.Utf8.decode? l.content with
    | none => exact Or.inr ⟨⟨_, rfl⟩, l, List.mem_cons_self, not_isText hd⟩
    | some s =>
      have htext := decode?_content hd
      have houtcome : ∀ {o}, (answers a lines).2 = o →
          (if Text.blank s then answers a lines
            else (((dispatch a l.content).line :: (answers a lines).1),
              (answers a lines).2)).2 = o := by
        rintro _ rfl
        split <;> rfl
      obtain ⟨hok, hall⟩ | ⟨⟨reason, herror⟩, l', hl', hnot⟩ := ih
      · exact Or.inl ⟨houtcome hok, List.forall_mem_cons.mpr ⟨htext, hall⟩⟩
      · exact Or.inr ⟨⟨reason, houtcome herror⟩, l', List.mem_cons_of_mem _ hl', hnot⟩

/-- How a plugin serves these lines of its input. -/
structure Served (lines : List Line) (written : List (List Char))
    (outcome : Except Plugin.Error Unit) : Prop where
  /-- It introduces itself, then gives one response to each line that it is asked by. -/
  responses : ∃ responses, written = "1|1|subattester|jsonrpc
".toList :: responses ∧
    List.Forall₂ (fun l text => ∃ r, Answers l text r) (asked lines) responses
  ended : outcome = .ok () ↔ ∀ l ∈ lines, IsText l
  failed : (∃ reason, outcome = .error (.io reason)) ↔ ∃ l ∈ lines, ¬ IsText l

/-- Whatever the input is, and however its requests are refused or answered, each of its lines up to
the first one that is no text has its response, blank lines apart. -/
theorem lines_are_served (a : SubAttester) (input : List UInt8) :
    ∃ lines, Lines input lines ∧ Served lines (serve a input).1 (serve a input).2 := by
  have hserve : serve a input = (handshakeLine :: (answers a (Text.splitLines input)).1,
      (answers a (Text.splitLines input)).2) := rfl
  refine ⟨Text.splitLines input, lines_iff.mpr rfl, ?_⟩
  rw [hserve]
  generalize Text.splitLines input = lines
  refine ⟨⟨(answers a lines).1, rfl, ?_⟩, ?_, ?_⟩
  · rw [answers_asked, List.forall₂_map_right_iff, List.forall₂_same]
    exact fun l _ => ⟨_, answers_dispatch a l⟩
  · obtain ⟨hok, hall⟩ | ⟨⟨reason, herror⟩, l, hl, hnot⟩ := outcome_answers a lines
    · exact iff_of_true hok hall
    · exact iff_of_false (by rw [herror]; nofun) fun hall => hnot (hall l hl)
  · obtain ⟨hok, hall⟩ | ⟨hfault, l, hl, hnot⟩ := outcome_answers a lines
    · exact iff_of_false (by rw [hok]; nofun) fun ⟨l, hl, hnot⟩ => hnot (hall l hl)
    · exact iff_of_true hfault ⟨l, hl, hnot⟩

end Attestation.Proofs.Service
