import Attestation.Dialogue
import Attestation.Plugin.Error
import Attestation.Rpc.Message
import Attestation.Text.Lines

namespace Attestation.Rpc

structure Question where
  id : UInt64
  query : Query
  deriving Repr, DecidableEq

def evidenceRequest (id : UInt64) : Option Json.Value → Except Response EvidenceRequest
  | none => .error (.ofError (some id) invalidParams "missing params")
  | some v =>
    match Json.Decoder.ofValue EvidenceRequest.record.decode v with
    | .ok r => .ok r
    | .error e => .error (.ofError (some id) invalidParams e.message)

def queryOf (r : Request) : Except Response Query :=
  if r.method = "GetSubAttesterID" then .ok .identity
  else if r.method = "GetSupportedFormats" then .ok .formats
  else if r.method = "GetOptions" then .ok .options
  else if r.method = "GetEvidence" then (evidenceRequest r.id r.params).map .evidence
  else .error (.ofError (some r.id) methodNotFound ("unknown method " ++ r.method))

/-- What a line asks for, or the response that refuses it, without a look at the sub-attester. -/
def Question.ofLine (line : List UInt8) : Except Response Question :=
  match Json.Decoder.run Request.record.decode line with
  | .error e => .error (.ofError none parseError e.message)
  | .ok r => (queryOf r).map (⟨r.id, ·⟩)

/-- The answering of a line, as a dialogue with the sub-attester. -/
def dispatching (line : List UInt8) : Dialogue Query.Answer Response :=
  match Question.ofLine line with
  | .error refusal => .done refusal
  | .ok x => .ask x.query fun answer => .done (.ofResult x.id (x.query.answerValue answer).sorted)

def dispatch (a : SubAttester) (line : List UInt8) : Response :=
  (dispatching line).run (m := Id) a.answer

def Response.line (r : Response) : List Char := r.toValue.render ++ ['\n']

def handshakeLine : List Char := Plugin.Handshake.current.line.toList ++ ['\n']

def answers (a : SubAttester) : List Text.Line → List (List Char) × Except Plugin.Error Unit
  | [] => ([], .ok ())
  | l :: ls =>
    match Text.Utf8.decode? l.content with
    | none => ([], .error (.io (((Text.Utf8.fault? l.raw).map (·.message)).getD "")))
    | some s =>
      if Text.blank s then answers a ls
      else
        let (written, outcome) := answers a ls
        ((dispatch a l.content).line :: written, outcome)

/-- The lines that a plugin writes when it is given the input, and how its service ends. -/
def serve (a : SubAttester) (input : List UInt8) : List (List Char) × Except Plugin.Error Unit :=
  let (written, outcome) := answers a (Text.splitLines input)
  (handshakeLine :: written, outcome)

end Attestation.Rpc
