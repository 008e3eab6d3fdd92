import Attestation.Http.Status
import Attestation.Json.Decode

namespace Attestation

open Json (Value Slot)

structure Problem where
  type : String
  title : String
  detail : String
  status : UInt16
  deriving Repr, DecidableEq, Inhabited

namespace Problem

def mediaType : String := "application/problem+json"

def ofStatus (status : UInt16) (detail : String) : Problem :=
  ⟨"about:blank", Http.Status.phrase status, detail, status⟩

def invalidRequest (detail : String) : Problem :=
  ⟨"tag:github.com,2024:veraison/ratsd:error:invalidrequest", "invalid request", detail, 400⟩

def unauthorized (detail : String) : Problem :=
  ⟨"tag:github.com,2024:veraison/ratsd:error:unauthorized", "access unauthorized", detail, 401⟩

def notAcceptable (detail : String) : Problem := .ofStatus 406 detail

def internal (detail : String) : Problem := .ofStatus 500 detail

/-- The status of the response; a number that may not stand there is an internal error. -/
def statusCode (p : Problem) : UInt16 := if Http.Status.valid p.status then p.status else 500

def message (p : Problem) : String := s!"{p.title} ({p.status.toNat}): {p.detail}"

def toValue (p : Problem) : Value :=
  .object [("type", .string p.type), ("title", .string p.title), ("detail", .string p.detail),
    ("status", .ofNat p.status.toUInt64)]

def record : Json.Record Problem where
  name := "Problem"
  initial := default
  slots := [
    .mandatory "type" .string fun x p => { p with type := x },
    .mandatory "title" .string fun x p => { p with title := x },
    .mandatory "detail" .string fun x p => { p with detail := x },
    .mandatory "status" (.nat 16) fun x p => { p with status := UInt16.ofNat x }]

end Problem

end Attestation
