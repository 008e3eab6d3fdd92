import Attestation.Blob
import Attestation.Token

namespace Attestation

structure Report where
  provider : String
  serviceProvider : Option String
  outBlob : List UInt8
  auxBlob : List UInt8
  manifestBlob : Option (List UInt8)
  deriving Repr, DecidableEq, Inhabited

namespace Report

def empty : Report := ⟨"", none, [], [], none⟩

def hasServiceProvider (r : Report) : Bool := r.serviceProvider.any (· ≠ "")

def hasManifest (r : Report) : Bool := r.manifestBlob.any (· ≠ [])

/-- Provider, report blob and auxiliary blob must be there, in this order; a manifest must be
there iff a service provider is. -/
def valid (r : Report) : Except Token.Error Unit :=
  if r.provider = "" then .error (.missingField "provider")
  else if r.outBlob = [] then .error (.missingField "outblob")
  else if r.auxBlob = [] then .error (.missingField "auxblob")
  else match r.hasServiceProvider, r.hasManifest with
    | true, false => .error (.missingField "manifestblob")
    | false, true => .error (.strayField "manifestblob")
    | _, _ => .ok ()

def toValue (r : Report) : Json.Value :=
  .object (
    [("provider", .string r.provider)] ++
    (r.serviceProvider.map fun s => ("service_provider", Json.Value.string s)).toList ++
    [("outblob", Blob.toJson r.outBlob), ("auxblob", Blob.toJson r.auxBlob)] ++
    (r.manifestBlob.map fun b => ("manifestblob", Blob.toJson b)).toList)

def toJson (r : Report) : Except Token.Error (List Char) := do
  r.valid
  return r.toValue.render

def record : Json.Record Report where
  name := "TsmReport"
  initial := empty
  slots := [
    .optional "provider" Json.Decoder.string fun x r => { r with provider := x },
    .optional "service_provider" (.optional Json.Decoder.string)
      fun x r => { r with serviceProvider := x },
    .optional "outblob" Blob.ofJson fun x r => { r with outBlob := x },
    .optional "auxblob" Blob.ofJson fun x r => { r with auxBlob := x },
    .optional "manifestblob" (.optional Blob.ofJson) fun x r => { r with manifestBlob := x }]

def ofJson (data : List UInt8) : Except Token.Error Report :=
  match Json.Decoder.run record.decode data with
  | .error e => .error (.json e)
  | .ok r => r.valid.map fun _ => r

def encodeText (s : String) : List UInt8 :=
  let bytes := Text.Utf8.encode s
  Cbor.encodeHead 3 bytes.length ++ bytes

def cborMembers (r : Report) : List (String × List UInt8) :=
  [("provider", encodeText r.provider)] ++
  (r.serviceProvider.map fun s => ("service_provider", encodeText s)).toList ++
  [("outblob", Blob.toCbor r.outBlob), ("auxblob", Blob.toCbor r.auxBlob)] ++
  (r.manifestBlob.map fun b => ("manifestblob", Blob.toCbor b)).toList

def toCbor (r : Report) : Except Token.Error (List UInt8) := do
  r.valid
  let ms := r.cborMembers
  return Cbor.encodeHead 5 ms.length ++ ms.flatMap fun m => encodeText m.1 ++ m.2

def cborSlots : List (Cbor.Slot Report) := [
  .of "provider" Cbor.text fun x r => { r with provider := x },
  .of "service_provider" (Cbor.optional Cbor.text) fun x r => { r with serviceProvider := x },
  .of "outblob" Cbor.blob fun x r => { r with outBlob := x },
  .of "auxblob" Cbor.blob fun x r => { r with auxBlob := x },
  .of "manifestblob" (Cbor.optional Cbor.blob) fun x r => { r with manifestBlob := x }]

/-- Bytes behind the report are ignored. -/
def ofCbor (data : List UInt8) : Except Token.Error Report :=
  match Cbor.run (Cbor.record empty cborSlots) data with
  | .error e => .error (.cborDecode e)
  | .ok r => r.valid.map fun _ => r

end Report

end Attestation
