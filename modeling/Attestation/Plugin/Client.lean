import Attestation.Plugin.Channel
import Attestation.Plugin.Error
import Attestation.Rpc.Message

namespace Attestation.Plugin

open Json (Value Decoder)

def methodOf : Query → String
  | .identity => "GetSubAttesterID"
  | .formats => "GetSupportedFormats"
  | .options => "GetOptions"
  | .evidence _ => "GetEvidence"

def paramsOf : Query → Option Value
  | .evidence r => some r.toValue.sorted
  | _ => none

def requestLine (id : UInt64) (q : Query) : List UInt8 :=
  Text.Utf8.encode (Rpc.Request.toValue ⟨Rpc.version, id, methodOf q, paramsOf q⟩).text

def closedOutput (path : String) : Error := .rpc s!"plugin {path} closed its output"

def undecodable : Error := .io "Unable to decode input as UTF8"

def tooLong : Error := .rpc s!"plugin response exceeds {maxLine} bytes"

inductive Verdict where
  | skip
  | settled (outcome : Except Error Value)

def outcomeOf (r : Rpc.Response) : Except Error Value :=
  match r.error with
  | some e => .error (.rpc e.text)
  | none => .ok (r.result.getD .null)

def judgeLine (id : UInt64) (text : String) : Verdict :=
  let text := Text.trim text
  if text = "" then .skip
  else match Decoder.run Rpc.Response.record.decode (Text.Utf8.encode text) with
    | .error e => .settled (.error (.rpc s!"invalid response from plugin: {e.message}"))
    | .ok r => if r.id.any (· ≠ id) then .skip else .settled (outcomeOf r)

/-- Judges what is read in the call with the number. A blank line and a response to another request
settle nothing. -/
def judge (path : String) (id : UInt64) : Option Frame → Verdict
  | none => .settled (.error (closedOutput path))
  | some .undecodable => .settled (.error undecodable)
  | some .tooLong => .settled (.error tooLong)
  | some (.line text) => judgeLine id text

def answerOf (q : Query) : Except Error Value → q.Answer
  | .error e => q.failure e.message
  | .ok v =>
    match Decoder.ofValue q.decodeAnswer v with
    | .ok a => a
    | .error e => q.failure (Error.rpc e.message).message

/-- Checks the line with which a plugin introduces itself. -/
def verify (path line : String) : Except Error Unit :=
  match Handshake.parse? line with
  | none => .error (.unknownPlugin s!"{path} is not a ratsd plugin")
  | some h =>
    if ¬ h.sameKind .current then
      .error (.unknownPlugin s!"{path} serves {h.pluginType}/{h.codec}")
    else if ¬ h.sameVersion .current then .error (.incompatibleVersion path .current h)
    else .ok ()

inductive Greeting where
  | frame (f : Frame)
  | ended
  | late
  deriving Repr, DecidableEq

def Greeting.check (path : String) : Greeting → Except Error Unit
  | .late => .error (.handshakeTimeout path)
  | .ended => .error (.unknownPlugin s!"{path} exited without a handshake")
  | .frame .undecodable => .error (.unknownPlugin
      s!"{path} sent an unreadable handshake: Unable to decode input as UTF8")
  | .frame .tooLong => .error (.unknownPlugin
      s!"{path} sent an unreadable handshake: max line length exceeded")
  | .frame (.line line) => verify path line

end Attestation.Plugin
