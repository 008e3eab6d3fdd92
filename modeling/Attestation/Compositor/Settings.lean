import Attestation.Json.Decode

namespace Attestation.Compositor

open Json (Value Decoder)

/-- Which attesters a request is about that selects none: every one, or none. -/
inductive ListMode where
  | all
  | selected
  deriving Repr, DecidableEq, Inhabited

inductive FanOut where
  | sequential
  | parallel
  deriving Repr, DecidableEq

instance : Inhabited FanOut := ⟨.parallel⟩

namespace ListMode

def names : List (String × ListMode) := [("all", .all), ("selected", .selected)]

def name : ListMode → String
  | .all => "all"
  | .selected => "selected"

def toValue (m : ListMode) : Value := .string m.name

def decode : Decoder ListMode := .choice names

end ListMode

namespace FanOut

def names : List (String × FanOut) := [("sequential", .sequential), ("parallel", .parallel)]

def name : FanOut → String
  | .sequential => "sequential"
  | .parallel => "parallel"

def toValue (f : FanOut) : Value := .string f.name

def decode : Decoder FanOut := .choice names

end FanOut

/-- The timeout is in milliseconds. -/
structure Settings where
  listMode : ListMode := .all
  fanOut : FanOut := .parallel
  timeout : Nat := 30000
  deriving Repr, DecidableEq

end Attestation.Compositor
