import Attestation.Number.Binary64

namespace Attestation.Number.Binary64

/-- The reals that round to a positive magnitude, as twice the bounds in units of
`2 ^ (exponent - 2)`: four times the significand, less one or two below, plus two above. The
ends belong to it iff the significand is even. -/
def interval (x : Binary64) : Nat × Nat :=
  let below := if x.significand = leastNormal ∧ x.exponent > minExponent then 1 else 2
  (4 * x.significand - below, 4 * x.significand + 2)

def contains (x : Binary64) (n : Nat) (k : Int) : Bool :=
  let (lo, hi) := x.interval
  let e := x.exponent - 2
  -- n * 10 ^ k against lo * 2 ^ e, with both sides brought to naturals
  let point := n * Nat.pow 10 k.toNat * Nat.pow 2 (-e).toNat
  let scale := Nat.pow 10 (-k).toNat * Nat.pow 2 e.toNat
  if x.significand % 2 = 0 then lo * scale ≤ point && point ≤ hi * scale
  else lo * scale < point && point < hi * scale

def floorAt (x : Binary64) (k : Int) : Nat :=
  let (a, b) := x.ratio
  (a * Nat.pow 10 (-k).toNat) / (b * Nat.pow 10 k.toNat)

/-- The grid point of step `10 ^ k` that reads back, the nearer of the two candidates. -/
def onGrid? (x : Binary64) (k : Int) : Option Nat :=
  let n := x.floorAt k
  let (a, b) := x.ratio
  let low := x.contains n k && n != 0
  let high := x.contains (n + 1) k
  if low && high then
    -- compare the magnitude with n + 1/2 in units of the grid; a tie goes to the even digit
    let twice := 2 * a * Nat.pow 10 (-k).toNat
    let middle := (2 * n + 1) * (b * Nat.pow 10 k.toNat)
    if twice < middle ∨ (twice = middle ∧ n % 2 = 0) then some n else some (n + 1)
  else if low then some n
  else if high then some (n + 1)
  else none

def magnitude (x : Binary64) : Int :=
  let (a, b) := x.ratio
  -- the logarithm to base two gives the exponent up to one
  let guess : Int := ((Nat.log2 a : Int) - (Nat.log2 b : Int)) * 30103 / 100000
  let atLeast (p : Int) : Bool := b * Nat.pow 10 p.toNat ≤ a * Nat.pow 10 (-p).toNat
  if atLeast (guess + 2) then guess + 2
  else if atLeast (guess + 1) then guess + 1
  else if atLeast guess then guess
  else if atLeast (guess - 1) then guess - 1
  else guess - 2

def search (x : Binary64) (p : Int) : Nat → Nat → Nat × Int
  | 0, n => (x.floorAt (p - n + 1), p - n + 1)
  | fuel + 1, n =>
    let k := p - n + 1
    match x.onGrid? k with
    | some d => (d, k)
    | none => x.search p fuel (n + 1)

def stripZeros : Nat → Nat → Int → Nat × Int
  | 0, n, k => (n, k)
  | fuel + 1, n, k => if n % 10 = 0 ∧ n ≠ 0 then stripZeros fuel (n / 10) (k + 1) else (n, k)

/-- The digits of the shortest form of a number that is not zero, and the exponent of the last
digit. -/
def digits (x : Binary64) : List Char × Int :=
  let (n, k) := x.search x.magnitude 17 1
  let (n, k) := stripZeros 20 n k
  (Nat.toDigits 10 n, k)

def positionalFrom : Int := -5

def positionalBelow : Int := 16

def layout (ds : List Char) (k : Int) : List Char :=
  let lead : Int := k + ds.length - 1
  if positionalFrom ≤ lead ∧ lead < positionalBelow then
    if k ≥ 0 then ds ++ List.replicate k.toNat '0' ++ ['.', '0']
    else if lead ≥ 0 then ds.take (lead + 1).toNat ++ '.' :: ds.drop (lead + 1).toNat
    else ['0', '.'] ++ List.replicate (-lead - 1).toNat '0' ++ ds
  else
    let fraction := match ds with
      | d :: e :: rest => d :: '.' :: e :: rest
      | _ => ds
    fraction ++ 'e' :: (if lead < 0 then '-' else '+') :: Nat.toDigits 10 lead.natAbs

def text (x : Binary64) : String :=
  let sign := if x.negative then ['-'] else []
  if x.isZero then String.ofList (sign ++ ['0', '.', '0'])
  else
    let (ds, k) := x.digits
    String.ofList (sign ++ layout ds k)

end Attestation.Number.Binary64
