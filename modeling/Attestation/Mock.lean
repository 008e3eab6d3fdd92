import Attestation.Attester.Json
import Attestation.Compositor

namespace Attestation.Mock

open Json (Slot)

structure Canned where
  contentType : String
  evidence : List UInt8
  deriving Repr, DecidableEq, Inhabited

def Canned.record : Json.Record Canned where
  name := "CannedEvidence"
  initial := default
  slots := [
    .mandatory "content-type" .string fun x c => { c with contentType := x },
    .mandatory "evidence" Blob.ofJsonText fun x c => { c with evidence := x }]

/-- The attesters of a file by name, in ascending order; the last one of a name counts. -/
abbrev Attesters := List (String × Canned)

def fileRecord : Json.Record Attesters where
  name := "EvidenceFile"
  initial := []
  slots := [.optional "attesters" (.members Canned.record.decode) fun x _ => Table.ofList x]

inductive Error where
  | json (fault : Json.Fault)
  | empty
  deriving Repr, DecidableEq

def Error.message : Error → String
  | .json f => f.message
  | .empty => "no attesters in mock evidence"

def ofJson (data : List UInt8) : Except Error Attesters :=
  match Json.Decoder.run fileRecord.decode data with
  | .error e => .error (.json e)
  | .ok [] => .error .empty
  | .ok attesters => .ok attesters

def subAttester (name : String) (c : Canned) : SubAttester where
  identity := .success name "mock"
  formats := .success [⟨c.contentType, 64⟩]
  options := .success []
  evidence r :=
    if r.contentType = c.contentType then .success c.evidence
    else .failure s!"no supported format in {name} matches the requested format"

def lookup (attesters : Attesters) (name : String) : Except Plugin.Error SubAttester :=
  match Table.find? attesters name with
  | some c => .ok (subAttester name c)
  | none => .error (.notFound name)

def registry (attesters : Attesters) : Compositor.Registry SubAttester where
  names := attesters.map (·.1)
  lookup := lookup attesters

end Attestation.Mock
