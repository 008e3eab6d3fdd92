import Attestation.Attester
import Attestation.Blob

namespace Attestation

open Json (Value Decoder Slot)

def Status.toValue (s : Status) : Value :=
  .object (("result", .bool s.result) :: if s.error = "" then [] else [("error", .string s.error)])

def Status.record : Json.Record Status where
  name := "Status"
  initial := default
  slots := [
    .mandatory "result" .bool fun x s => { s with result := x },
    .optional "error" .string fun x s => { s with error := x }]

def Identity.toValue (i : Identity) : Value :=
  .object [("name", .string i.name), ("version", .string i.version)]

def Identity.record : Json.Record Identity where
  name := "SubAttesterId"
  initial := default
  slots := [
    .mandatory "name" .string fun x i => { i with name := x },
    .mandatory "version" .string fun x i => { i with version := x }]

def IdentityAnswer.toValue (a : IdentityAnswer) : Value :=
  .object (("status", a.status.toValue) ::
    (a.identity.map fun i => ("sub_attester_id", i.toValue)).toList)

def IdentityAnswer.record : Json.Record IdentityAnswer where
  name := "SubAttesterIdOut"
  initial := default
  slots := [
    .mandatory "status" Status.record.decode fun x a => { a with status := x },
    .optional "sub_attester_id" (.optional Identity.record.decode)
      fun x a => { a with identity := x }]

def Format.toValue (f : Format) : Value :=
  .object [("content_type", .string f.contentType), ("nonce_size", .ofNat f.nonceSize.toUInt64)]

def Format.record : Json.Record Format where
  name := "Format"
  initial := default
  slots := [
    .mandatory "content_type" .string fun x f => { f with contentType := x },
    .mandatory "nonce_size" (.nat 32) fun x f => { f with nonceSize := UInt32.ofNat x }]

def FormatsAnswer.toValue (a : FormatsAnswer) : Value :=
  .object [("status", a.status.toValue), ("formats", .array (a.formats.map Format.toValue))]

def FormatsAnswer.record : Json.Record FormatsAnswer where
  name := "SupportedFormatsOut"
  initial := default
  slots := [
    .mandatory "status" Status.record.decode fun x a => { a with status := x },
    .optional "formats" (.list Format.record.decode) fun x a => { a with formats := x }]

def DataType.names : List (String × DataType) :=
  [("string", .string), ("integer", .integer), ("boolean", .boolean)]

def DataType.name : DataType → String
  | .string => "string"
  | .integer => "integer"
  | .boolean => "boolean"

def DataType.toValue (t : DataType) : Value := .string t.name

def DataType.decode : Decoder DataType := .choice names

def OptionDescriptor.toValue (o : OptionDescriptor) : Value :=
  .object [("name", .string o.name), ("data-type", o.dataType.toValue)]

def OptionDescriptor.record : Json.Record OptionDescriptor where
  name := "OptionDescriptor"
  initial := default
  slots := [
    .mandatory "name" .string fun x o => { o with name := x },
    .mandatory "data-type" DataType.decode fun x o => { o with dataType := x }]

def OptionsAnswer.toValue (a : OptionsAnswer) : Value :=
  .object [("status", a.status.toValue),
    ("options", .array (a.options.map OptionDescriptor.toValue))]

def OptionsAnswer.record : Json.Record OptionsAnswer where
  name := "OptionsOut"
  initial := default
  slots := [
    .mandatory "status" Status.record.decode fun x a => { a with status := x },
    .optional "options" (.list OptionDescriptor.record.decode) fun x a => { a with options := x }]

def EvidenceRequest.toValue (r : EvidenceRequest) : Value :=
  .object [("content_type", .string r.contentType), ("nonce", Blob.toJson r.nonce),
    ("options", Blob.toJson r.options)]

def EvidenceRequest.record : Json.Record EvidenceRequest where
  name := "EvidenceIn"
  initial := default
  slots := [
    .mandatory "content_type" .string fun x r => { r with contentType := x },
    .mandatory "nonce" Blob.ofJsonText fun x r => { r with nonce := x },
    .optional "options" Blob.ofJsonText fun x r => { r with options := x }]

def EvidenceAnswer.toValue (a : EvidenceAnswer) : Value :=
  .object [("status", a.status.toValue), ("evidence", Blob.toJson a.evidence)]

def EvidenceAnswer.record : Json.Record EvidenceAnswer where
  name := "EvidenceOut"
  initial := default
  slots := [
    .mandatory "status" Status.record.decode fun x a => { a with status := x },
    .optional "evidence" Blob.ofJsonText fun x a => { a with evidence := x }]

namespace Query

def answerValue : (q : Query) → q.Answer → Value
  | .identity, a => IdentityAnswer.toValue a
  | .formats, a => FormatsAnswer.toValue a
  | .options, a => OptionsAnswer.toValue a
  | .evidence _, a => EvidenceAnswer.toValue a

def decodeAnswer : (q : Query) → Decoder q.Answer
  | .identity => IdentityAnswer.record.decode
  | .formats => FormatsAnswer.record.decode
  | .options => OptionsAnswer.record.decode
  | .evidence _ => EvidenceAnswer.record.decode

end Query

end Attestation
