import Attestation.Json.Number
import Attestation.Number.Shortest
import Attestation.Text.Quoted

namespace Attestation.Json

inductive Found where
  | null
  | bool (b : Bool)
  | int (i : Int)
  | float (x : Number.Binary64)
  | string (s : String)
  | sequence
  | map
  deriving Repr, DecidableEq

def Found.text : Found → String
  | .null => "null"
  | .bool b => s!"boolean `{b}`"
  | .int i => s!"integer `{i}`"
  | .float x => s!"floating point `{x.text}`"
  | .string s => "string " ++ Text.quoted s
  | .sequence => "sequence"
  | .map => "map"

inductive Mismatch where
  | invalidType (found : Found) (expected : String)
  | invalidValue (found : Found) (expected : String)
  | invalidLength (length : Nat) (expected : String)
  | unknownVariant (variant : String) (known : List String)
  | missingField (field : String)
  | duplicateField (field : String)
  | custom (text : String)
  deriving Repr, DecidableEq

def alternatives : List String → String
  | [] => "there are no variants"
  | [a] => s!"expected `{a}`"
  | [a, b] => s!"expected `{a}` or `{b}`"
  | names => "expected one of " ++ ", ".intercalate (names.map fun (n : String) => s!"`{n}`")

def Mismatch.message : Mismatch → String
  | .invalidType found expected => s!"invalid type: {found.text}, expected {expected}"
  | .invalidValue found expected => s!"invalid value: {found.text}, expected {expected}"
  | .invalidLength n expected => s!"invalid length {n}, expected {expected}"
  | .unknownVariant v known => s!"unknown variant `{v}`, {alternatives known}"
  | .missingField f => s!"missing field `{f}`"
  | .duplicateField f => s!"duplicate field `{f}`"
  | .custom text => text

inductive Fault where
  | syntaxError
  | mismatch (path : List String) (what : Mismatch)
  deriving Repr, DecidableEq

def Fault.message : Fault → String
  | .syntaxError => "invalid JSON"
  | .mismatch _ what => what.message

def Fault.under (key : String) : Fault → Fault
  | .syntaxError => .syntaxError
  | .mismatch path what => .mismatch (key :: path) what

/-- The fault as seen from outside a value whose inner places are not told apart. -/
def Fault.atTop : Fault → Fault
  | .syntaxError => .syntaxError
  | .mismatch _ what => .mismatch [] what

end Attestation.Json
