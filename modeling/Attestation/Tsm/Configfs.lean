import Attestation.Dialogue
import Attestation.SystemError
import Attestation.Text.Blank
import Attestation.Text.Numeral
import Attestation.Tsm.Backend

namespace Attestation.Tsm.Configfs

inductive Attribute where
  | privlevel
  | inblob
  | generation
  | outblob
  | auxblob
  | manifestblob
  | provider
  | serviceProvider
  deriving Repr, DecidableEq

def Attribute.name : Attribute → String
  | .privlevel => "privlevel"
  | .inblob => "inblob"
  | .generation => "generation"
  | .outblob => "outblob"
  | .auxblob => "auxblob"
  | .manifestblob => "manifestblob"
  | .provider => "provider"
  | .serviceProvider => "service_provider"

inductive Action where
  | look
  | take
  | create (entry : UInt64)
  | write (entry : UInt64) (name : Attribute) (value : List UInt8)
  | read (entry : UInt64) (name : Attribute)
  | remove (entry : UInt64)
  deriving Repr, DecidableEq

@[reducible] def Action.Reply : Action → Type
  | .look => Bool
  | .take => UInt64
  | .create _ => Except SystemError Unit
  | .write _ _ _ => Except SystemError Unit
  | .read _ _ => Except SystemError (List UInt8)
  | .remove _ => Unit

abbrev Exchange (α : Type) := Dialogue Action.Reply α

structure Site where
  root : String
  process : Nat
  deriving Repr, DecidableEq

/-- The path of an entry. Its name holds the number of the process, so that no two processes use
the same one. -/
def Site.entryPath (s : Site) (entry : UInt64) : String :=
  let parent := if s.root.endsWith "/" then s.root else s.root ++ "/"
  s!"{parent}ratsd-{s.process}-{entry.toNat}"

namespace Exchange

/-- A step that may fail; the following ones are left out then. -/
abbrev Step (α : Type) := ExceptT Error (Dialogue Action.Reply) α

def writeAttribute (entry : UInt64) (a : Attribute) (value : List UInt8) : Step Unit :=
  ExceptT.mk (.ask (.write entry a value) fun
    | .ok () => .done (.ok ())
    | .error e => .done (.error (.write a.name e.text)))

def readAttribute (entry : UInt64) (a : Attribute) : Step (List UInt8) :=
  ExceptT.mk (.ask (.read entry a) fun
    | .ok value => .done (.ok value)
    | .error e => .done (.error (.read a.name e.text)))

def readOptional (entry : UInt64) (a : Attribute) : Step (Option (List UInt8)) :=
  ExceptT.mk (.ask (.read entry a) fun
    | .ok value => .done (.ok (some value))
    | .error e =>
      .done (if e = .notFound then .ok none else .error (.read a.name e.text)))

def generationOf (value : List UInt8) : Except Error UInt64 :=
  let text := Text.trim (Text.Utf8.decodeLossy value)
  match Text.natBelow? UInt64.size text with
  | some n => .ok (UInt64.ofNat n)
  | none => .error (.invalidGeneration text)

def readGeneration (entry : UInt64) : Step UInt64 := do
  let value ← readAttribute entry .generation
  ExceptT.mk (.done (generationOf value))

/-- The exchange with an entry that has been created. Every write to an entry raises its generation;
the entry is removed in the end, however the exchange went. -/
def withEntry (entry : UInt64) (r : ReportRequest) : Step Report := do
  if 0 < r.privilegeLevel then
    writeAttribute entry .privlevel (Text.Utf8.encode (toString r.privilegeLevel.toNat))
  writeAttribute entry .inblob r.inBlob
  let expected ← readGeneration entry
  let outBlob ← readAttribute entry .outblob
  let auxBlob ← if r.wantsAuxBlob then readOptional entry .auxblob else pure none
  let manifestBlob ← readOptional entry .manifestblob
  let provider ← readAttribute entry .provider
  let serviceProvider ← readOptional entry .serviceProvider
  let got ← readGeneration entry
  if got ≠ expected then throw (.generationChanged expected got)
  return {
    provider := Text.Utf8.decodeLossy provider
    serviceProvider := serviceProvider.map Text.Utf8.decodeLossy
    outBlob := outBlob
    auxBlob := auxBlob.getD []
    manifestBlob := manifestBlob }

end Exchange

variable (s : Site)

def available : Exchange (Except Error Unit) :=
  .ask .look fun found => .done (if found then .ok () else .error (.unavailable s.root))

def report (r : ReportRequest) : Exchange (Except Error Report) :=
  .ask .look fun found =>
    if ¬ found then .done (.error (.unavailable s.root))
    else .ask .take fun entry => .ask (.create entry) fun
      | .error e => .done (.error (.createEntry (s.entryPath entry) e.text))
      | .ok () => do
        let result ← (Exchange.withEntry entry r).run
        .ask (.remove entry) fun () => .done result

def backend : Backend (Dialogue Action.Reply) := ⟨available s, report s⟩

end Attestation.Tsm.Configfs
