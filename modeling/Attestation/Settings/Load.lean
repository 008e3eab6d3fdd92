import Attestation.Settings
import Attestation.Settings.Layer

namespace Attestation.Settings

inductive Source where
  | none
  | missing (path : String)
  | file (bytes : List UInt8)
  deriving Repr, DecidableEq

inductive LoadError where
  | missing (path : String)
  | notToml
  | mismatch (fault : Json.Fault)
  | invalid (reason : Invalid)
  deriving Repr, DecidableEq

def defaults : Json.Value := (toValue {}).sorted

def ofLayer (layer : Json.Value) : Except LoadError Settings :=
  (record.decode ⟨.settings, 0⟩ layer.toTree).mapError .mismatch

def layers (source : Source) (environment : List (String × String)) : Except LoadError Json.Value :=
  let layered (layer : Json.Value) : Json.Value :=
    Layer.merge (Layer.merge defaults layer) (Layer.ofEnvironment environment)
  match source with
  | .none => .ok (layered (.object []))
  | .missing path => .error (.missing path)
  | .file bytes =>
    match Layer.ofFile? bytes with
    | some layer => .ok (layered layer)
    | none => .error .notToml

def load (source : Source) (environment : List (String × String)) : Except LoadError Settings := do
  let s ← ofLayer (← layers source environment)
  s.validate.mapError .invalid
  return s

/-- What is said of a failure, from the outermost message to its cause. The fault of a layer is
not told. -/
def LoadError.messages : LoadError → List String
  | .missing path => [s!"configuration file does not exist: {path}"]
  | .notToml | .mismatch _ => ["failed to load ratsd configuration"]
  | .invalid reason => reason.message :: reason.causes

end Attestation.Settings
