import Attestation.Base64
import Attestation.Cbor.Decode
import Attestation.Json.Decode

namespace Attestation.Blob

def debugText (bytes : List UInt8) : String :=
  "BinaryString(" ++ Base64.encode Base64.standard bytes ++ ")"

def toJson (bytes : List UInt8) : Json.Value := .string (Base64.encode Base64.standard bytes)

/-- Reads base64 text; `wrap` makes the message of what is wrong with it. -/
def ofText (v : Base64.Variant) (wrap : String → String) (s : String) :
    Except Json.Fault (List UInt8) :=
  match Base64.decode v (Text.Utf8.encode s) with
  | .ok bytes => .ok bytes
  | .error e => .error (Json.fault (.custom (wrap e.message)))

def ofJson : Json.Decoder (List UInt8) := fun _ t =>
  match t with
  | .string (some s) => ofText Base64.standard ("invalid base64: " ++ ·) s
  | _ => Json.unexpected "a byte string or a base64 encoded string" t

def ofJsonText : Json.Decoder (List UInt8) := fun p t => do
  ofText Base64.standard id (← Json.Decoder.string p t)

def toCbor (bytes : List UInt8) : List UInt8 := Cbor.encodeHead 2 bytes.length ++ bytes

end Attestation.Blob
