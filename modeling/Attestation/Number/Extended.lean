import Attestation.Number.Binary64

namespace Attestation.Number

inductive Extended where
  | finite (x : Binary64)
  | infinite (negative : Bool)
  | nan
  deriving Repr, DecidableEq

namespace Extended

/-- Powers of ten beyond this one are out of the range of floats, as far as it is from one. -/
def farPower : Int := 400

def nearest (negative : Bool) (significand digits : Nat) (scale : Int) : Extended :=
  if significand = 0 ∨ digits + scale < -farPower then .finite (.zero negative)
  else if farPower < digits + scale then .infinite negative
  else
    match Binary64.ofRatio? negative (significand * Nat.pow 10 scale.toNat)
        (Nat.pow 10 (-scale).toNat) with
    | some x => .finite x
    | none => .infinite negative

end Extended

end Attestation.Number
