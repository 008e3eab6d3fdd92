import Attestation.Attester.Json
import Attestation.Cmw

namespace Attestation.Compositor

open Json (Value Slot)

/-- The collection is standard base64 of its JSON text. -/
structure Envelope where
  profile : String
  nonce : String
  cmw : String
  deriving Repr, DecidableEq, Inhabited

namespace Envelope

def profileTag : String := "tag:github.com,2024:veraison/ratsd"

def mediaType : String := s!"application/eat-ucs+json; eat_profile=\"{profileTag}\""

def kind : String := "tag:github.com,2025:veraison/ratsd/cmw"

def wrap (nonce : String) (c : Cmw.Collection) : Envelope :=
  ⟨profileTag, nonce,
    Base64.encode Base64.standard (Text.Utf8.encode (String.ofList c.toJson))⟩

def collection (e : Envelope) : Except Token.Error Cmw.Collection :=
  match Base64.decode Base64.standard (Text.Utf8.encode e.cmw) with
  | .ok json => Cmw.Collection.ofJson json
  | .error err => .error (.invalidCmw err.message)

def toValue (e : Envelope) : Value :=
  .object [("eat_profile", .string e.profile), ("eat_nonce", .string e.nonce),
    ("cmw", .string e.cmw)]

def record : Json.Record Envelope where
  name := "Envelope"
  initial := default
  slots := [
    .mandatory "eat_profile" .string fun x e => { e with profile := x },
    .mandatory "eat_nonce" .string fun x e => { e with nonce := x },
    .mandatory "cmw" .string fun x e => { e with cmw := x }]

end Envelope

structure AttesterInfo where
  name : String
  options : List OptionDescriptor
  deriving Repr, DecidableEq, Inhabited

namespace AttesterInfo

def toValue (i : AttesterInfo) : Value :=
  .object [("name", .string i.name),
    ("options", .array (i.options.map OptionDescriptor.toValue))]

def record : Json.Record AttesterInfo where
  name := "SubAttesterInfo"
  initial := default
  slots := [
    .mandatory "name" .string fun x i => { i with name := x },
    .mandatory "options" (.list OptionDescriptor.record.decode)
      fun x i => { i with options := x }]

end AttesterInfo

end Attestation.Compositor
