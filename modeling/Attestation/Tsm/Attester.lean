import Attestation.Attester
import Attestation.Json.Decode
import Attestation.Text.Blank
import Attestation.Text.Numeral
import Attestation.Tsm.Backend

namespace Attestation.Tsm

def jsonMediaType : String := "application/vnd.veraison.configfs-tsm+json"

def cborMediaType : String := "application/vnd.veraison.configfs-tsm+cbor"

def mockMediaType : String := "application/vnd.veraison.mock-tsm+json"

/-- What an attester offers, and how it calls itself in messages. The first media type is the
default one. -/
structure Profile where
  name : String
  version : String
  mediaTypes : List String
  nonceSize : Nat
  label : String
  deriving Repr, DecidableEq

namespace Profile

def platform : Profile :=
  ⟨"tsm-report", "1.0.0", [jsonMediaType, cborMediaType], 64, "tsm plugin"⟩

def mock : Profile := ⟨"mock-tsm", "1.0.0", [mockMediaType], 32, "mock TSM plugin"⟩

end Profile

def privilegeLevelOption : String := "privilege_level"

def invalidLevel (shown : String) : String := s!"{privilegeLevelOption} {shown} is invalid"

def levelOfValue : Json.Value → Except String UInt32
  | .null => .ok 0
  | .string s =>
    match Text.natBelow? UInt32.size (Text.trim s) with
    | some n => .ok (UInt32.ofNat n)
    | none => .error (invalidLevel s)
  | .number (.nat n) =>
    if n.toNat < UInt32.size then .ok n.toUInt32 else .error (invalidLevel (toString n.toNat))
  | v => .error (invalidLevel v.text)

/-- The privilege level of an options object; without the option it is zero, and so it is without
any object. -/
def privilegeLevel (options : List UInt8) : Except String UInt32 :=
  if options = [] then .ok 0
  else match Json.Decoder.run (.members .value) options with
    | .error e => .error s!"failed to parse {Text.Utf8.decodeLossy options}: {e.message}"
    | .ok members =>
      match Json.Value.get? members privilegeLevelOption with
      | none => .ok 0
      | some v => levelOfValue v

namespace Profile

variable (p : Profile)

def formats : List Format := p.mediaTypes.map fun t => ⟨t, UInt32.ofNat p.nonceSize⟩

/-- What the backend is asked, if the request passes the checks: of the size of the nonce, the media
type and the privilege level, in this order. -/
def reportRequest (r : EvidenceRequest) : Except String ReportRequest :=
  if r.nonce.length ≠ p.nonceSize then
    .error (s!"nonce size of the TSM attester should be {p.nonceSize}, " ++
      s!"got {r.nonce.length}")
  else if r.contentType ∉ p.mediaTypes then
    .error s!"no supported format in {p.label} matches the requested format"
  else (privilegeLevel r.options).map fun level => ⟨r.nonce, level, true⟩

end Profile

def encodeReport (contentType : String) (r : Report) : Except Token.Error (List UInt8) :=
  if contentType = cborMediaType then r.toCbor
  else r.toJson.map fun cs => Text.Utf8.encode (String.ofList cs)

def evidenceOf (contentType : String) : Except Error Report → EvidenceAnswer
  | .error e => .failure s!"failed to get TSM report: {e.message}"
  | .ok r =>
    match encodeReport contentType r with
    | .ok evidence => .success evidence
    | .error e => .failure s!"failed to encode TSM report: {e.message}"

namespace Profile

variable (p : Profile)

def formatsOf : Except Error Unit → FormatsAnswer
  | .error e => .failure s!"TSM is not available: {e.message}"
  | .ok () => .success p.formats

/-- Answers a question; the backend is asked at most once. -/
def answer {m : Type → Type} [Monad m] (b : Backend m) : (q : Query) → m q.Answer
  | .identity => pure (IdentityAnswer.success p.name p.version)
  | .formats => p.formatsOf <$> b.available
  | .options => pure (OptionsAnswer.success [⟨privilegeLevelOption, .string⟩])
  | .evidence r =>
    match p.reportRequest r with
    | .error e => pure (EvidenceAnswer.failure e)
    | .ok q => evidenceOf r.contentType <$> b.report q

def subAttester (b : Backend Id) : SubAttester where
  identity := p.answer b .identity
  formats := p.answer b .formats
  options := p.answer b .options
  evidence r := p.answer b (.evidence r)

end Profile

end Attestation.Tsm
