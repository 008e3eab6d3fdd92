import Attestation.Blob
import Attestation.Compositor.Settings
import Attestation.Problem

namespace Attestation.Compositor

open Json (Value Slot)

def mediaType : String := "application/vnd.veraison.chares+json"

structure Challenge where
  nonce : String
  selection : Option Value
  deriving Repr, BEq, Inhabited

namespace Challenge

def record : Json.Record Challenge where
  name := "CharesRequest"
  initial := ⟨"", none⟩
  slots := [
    .optional "nonce" .string fun x c => { c with nonce := x },
    .optional "attester-selection" (.optional .value) fun x c => { c with selection := x }]

/-- A body that is no request counts as one without a nonce. -/
def ofBody (body : List UInt8) : Challenge :=
  match Json.Decoder.run record.decode body with
  | .ok c => c
  | .error _ => ⟨"", none⟩

end Challenge

def missingNonce : Problem := .invalidRequest "fail to retrieve nonce from the request"

/-- Decodes a nonce: URL-safe base64 of at least one byte, followed by any number of `=`. -/
def decodeNonce (s : String) : Except Problem (List UInt8) :=
  let body := (s.toList.reverse.dropWhile (· == '=')).reverse
  match Base64.decode Base64.urlSafe (Text.Utf8.encode (String.ofList body)) with
  | .error e => .error (.invalidRequest s!"fail to decode nonce from the request: {e.message}")
  | .ok [] => .error missingNonce
  | .ok nonce => .ok nonce

abbrev Selection := List (String × Value)

def selectionOf : Option Value → Except Problem (Option Selection)
  | none | some .null => .ok none
  | some (.object members) => .ok (some members)
  | some v => .error (.invalidRequest
      s!"failed to parse attester selection: expected an object, got {v.text}")

/-- The selection that counts: an empty one is none, and whoever asks only selected attesters
needs one. -/
def effective (mode : ListMode) (s : Option Selection) : Except Problem (Option Selection) :=
  match s with
  | none | some [] =>
    match mode with
    | .all => .ok none
    | .selected =>
      .error (.invalidRequest "attester-selection must contain at least one attester")
  | some members => .ok (some members)

end Attestation.Compositor
