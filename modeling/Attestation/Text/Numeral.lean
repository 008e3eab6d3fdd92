namespace Attestation.Text

def isDecimalDigit (c : Char) : Bool := '0' ≤ c && c ≤ '9'

def digitsValue (ds : List Char) : Nat :=
  ds.foldl (fun n d => n * 10 + (d.toNat - '0'.toNat)) 0

def unsigned (cs : List Char) : List Char :=
  match cs with
  | '+' :: ds => ds
  | ds => ds

/-- The number that a text stands for; `none` if it is no numeral, or not below the bound. -/
def natBelow? (bound : Nat) (s : String) : Option Nat :=
  let ds := unsigned s.toList
  if ds ≠ [] ∧ ds.all isDecimalDigit ∧ digitsValue ds < bound then some (digitsValue ds) else none

end Attestation.Text
