namespace Attestation

structure Status where
  result : Bool
  error : String
  deriving Repr, DecidableEq, Inhabited

namespace Status

def success : Status := ⟨true, ""⟩

def failure (error : String) : Status := ⟨false, error⟩

end Status

structure Identity where
  name : String
  version : String
  deriving Repr, DecidableEq, Inhabited

structure IdentityAnswer where
  status : Status
  identity : Option Identity
  deriving Repr, DecidableEq, Inhabited

/-- A media type and the exact size of the nonce that it needs. -/
structure Format where
  contentType : String
  nonceSize : UInt32
  deriving Repr, DecidableEq, Inhabited

structure FormatsAnswer where
  status : Status
  formats : List Format
  deriving Repr, DecidableEq, Inhabited

inductive DataType where
  | string
  | integer
  | boolean
  deriving Repr, DecidableEq, Inhabited

structure OptionDescriptor where
  name : String
  dataType : DataType
  deriving Repr, DecidableEq, Inhabited

structure OptionsAnswer where
  status : Status
  options : List OptionDescriptor
  deriving Repr, DecidableEq, Inhabited

/-- What evidence is asked for. The options are a JSON object as text, or empty. -/
structure EvidenceRequest where
  contentType : String
  nonce : List UInt8
  options : List UInt8
  deriving Repr, DecidableEq, Inhabited

structure EvidenceAnswer where
  status : Status
  evidence : List UInt8
  deriving Repr, DecidableEq, Inhabited

def IdentityAnswer.success (name version : String) : IdentityAnswer :=
  ⟨.success, some ⟨name, version⟩⟩

def IdentityAnswer.failure (error : String) : IdentityAnswer := ⟨.failure error, none⟩

def FormatsAnswer.success (formats : List Format) : FormatsAnswer := ⟨.success, formats⟩

def FormatsAnswer.failure (error : String) : FormatsAnswer := ⟨.failure error, []⟩

def OptionsAnswer.success (options : List OptionDescriptor) : OptionsAnswer := ⟨.success, options⟩

def OptionsAnswer.failure (error : String) : OptionsAnswer := ⟨.failure error, []⟩

def EvidenceAnswer.success (evidence : List UInt8) : EvidenceAnswer := ⟨.success, evidence⟩

def EvidenceAnswer.failure (error : String) : EvidenceAnswer := ⟨.failure error, []⟩

inductive Query where
  | identity
  | formats
  | options
  | evidence (request : EvidenceRequest)
  deriving Repr, DecidableEq

@[reducible] def Query.Answer : Query → Type
  | .identity => IdentityAnswer
  | .formats => FormatsAnswer
  | .options => OptionsAnswer
  | .evidence _ => EvidenceAnswer

/-- A source of evidence whose answers depend on the questions only. A failure is an answer like any
other; the first format that is offered is the default one. -/
structure SubAttester where
  identity : IdentityAnswer
  formats : FormatsAnswer
  options : OptionsAnswer
  evidence : EvidenceRequest → EvidenceAnswer

def SubAttester.answer (a : SubAttester) : (q : Query) → q.Answer
  | .identity => a.identity
  | .formats => a.formats
  | .options => a.options
  | .evidence r => a.evidence r

def Query.failure (error : String) : (q : Query) → q.Answer
  | .identity => IdentityAnswer.failure error
  | .formats => FormatsAnswer.failure error
  | .options => OptionsAnswer.failure error
  | .evidence _ => EvidenceAnswer.failure error

end Attestation
