namespace Attestation.Number

/-- A magnitude is `significand · 2 ^ exponent`, in lowest form: with all 53 bits in use unless the
exponent is the least one. -/
structure Binary64 where
  negative : Bool
  significand : Nat
  exponent : Int
  deriving Repr, DecidableEq, Inhabited

namespace Binary64

def minExponent : Int := -1074

def maxExponent : Int := 971

def leastNormal : Nat := 0x10000000000000

def zero (negative : Bool) : Binary64 := ⟨negative, 0, minExponent⟩

def isZero (x : Binary64) : Bool := x.significand == 0

/-- The quotient rounded to the nearest natural, a tie to the even one. -/
def roundDiv (num den : Nat) : Nat :=
  let q := num / den
  let r := num % den
  if 2 * r < den ∨ (2 * r = den ∧ q % 2 = 0) then q else q + 1

def scaleOf (num den : Nat) : Int :=
  let e : Int := (Nat.log2 num : Int) - (Nat.log2 den : Int) - 53
  -- the quotient of num / den by 2 ^ e lies between 2 ^ 52 and 2 ^ 54
  let e :=
    if num * Nat.pow 2 (-e).toNat ≥ den * Nat.pow 2 e.toNat * (2 * leastNormal) then e + 1 else e
  max e minExponent

/-- The nearest number to `num / den` for a positive `den`; `none` if it is past the largest. -/
def ofRatio? (negative : Bool) (num den : Nat) : Option Binary64 :=
  if num = 0 then some (zero negative)
  else
    let e := scaleOf num den
    let m := roundDiv (num * Nat.pow 2 (-e).toNat) (den * Nat.pow 2 e.toNat)
    let x : Binary64 :=
      if m = 2 * leastNormal then ⟨negative, leastNormal, e + 1⟩ else ⟨negative, m, e⟩
    if x.exponent > maxExponent then none else some x

def ratio (x : Binary64) : Nat × Nat :=
  (x.significand * Nat.pow 2 x.exponent.toNat, Nat.pow 2 (-x.exponent).toNat)

def mul? (x y : Binary64) : Option Binary64 :=
  let (a, b) := x.ratio
  let (c, d) := y.ratio
  ofRatio? (x.negative != y.negative) (a * c) (b * d)

def div? (x y : Binary64) : Option Binary64 :=
  let (a, b) := x.ratio
  let (c, d) := y.ratio
  ofRatio? (x.negative != y.negative) (a * d) (b * c)

def ofNat? (n : Nat) : Option Binary64 := ofRatio? false n 1

def tenPow? (n : Nat) : Option Binary64 := ofRatio? false (Nat.pow 10 n) 1

/-- Divides by 10 ^ 308 until the power of ten that is left has an exponent of at least -308.
The number is zero after a few rounds, and stays so. -/
def descend : Nat → Binary64 → Int → Option (Binary64 × Int)
  | 0, x, e => some (x, e)
  | fuel + 1, x, e =>
    if e ≥ -308 ∨ x.isZero then some (x, e)
    else do descend fuel (← x.div? (← tenPow? 308)) (e + 308)

/-- The number that stands for `significand · 10 ^ exponent` when the significand is rounded
first and scaled afterwards, rounding again at each scaling. `none` if it is too large. -/
def ofScaled? (negative : Bool) (significand : Nat) (exponent : Int) : Option Binary64 := do
  let x ← ofNat? significand
  let x ←
    if exponent ≥ 0 then
      if x.isZero then some x
      else if exponent > 308 then none
      else x.mul? (← tenPow? exponent.toNat)
    else
      let (y, e) ← descend 4 x exponent
      if y.isZero then some y else y.div? (← tenPow? (-e).toNat)
  return { x with negative := negative }

end Binary64

end Attestation.Number
