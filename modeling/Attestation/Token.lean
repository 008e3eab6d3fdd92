import Attestation.Cbor.Head
import Attestation.Json.Fault

namespace Attestation.Token

inductive Error where
  | missingField (name : String)
  | strayField (name : String)
  | json (fault : Json.Fault)
  | cborEncode (text : String)
  | cborDecode (error : Cbor.Error)
  | duplicateLabel (label : String)
  | invalidCmw (text : String)
  deriving Repr, DecidableEq

def Error.message : Error → String
  | .missingField n => "missing mandatory field " ++ Text.quoted n
  | .strayField n => "stray field " ++ Text.quoted n
  | .json f => "JSON error: " ++ f.message
  | .cborEncode t => "CBOR encoding error: " ++ t
  | .cborDecode e => "CBOR decoding error: " ++ e.name
  | .duplicateLabel l => "duplicate collection label " ++ Text.quoted l
  | .invalidCmw t => "invalid CMW: " ++ t

end Attestation.Token
