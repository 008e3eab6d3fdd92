import Attestation.Text.Quoted

namespace Attestation.Tsm

inductive Error where
  | unavailable (root : String)
  | createEntry (path reason : String)
  | write (name reason : String)
  | read (name reason : String)
  | invalidGeneration (text : String)
  | generationChanged (expected got : UInt64)
  deriving Repr, DecidableEq

def Error.message : Error → String
  | .unavailable root => s!"configfs report directory {root} not found"
  | .createEntry path reason => s!"failed to create report entry {path}: {reason}"
  | .write name reason => s!"failed to write {name}: {reason}"
  | .read name reason => s!"failed to read {name}: {reason}"
  | .invalidGeneration text => s!"invalid generation value {Text.quoted text}"
  | .generationChanged expected got =>
    s!"report generation was {got.toNat} when expecting {expected.toNat}"

end Attestation.Tsm
