import Attestation.Number.Binary64

namespace Attestation.Json

/-- An integer from -2^63 to 2^64 - 1, in one way each, or a float. -/
inductive Number where
  | nat (n : UInt64)
  | negSucc (n : Fin 0x8000000000000000)
  | float (x : Number.Binary64)
  deriving Repr, DecidableEq

namespace Number

def toInt? : Number → Option Int
  | .nat n => some n.toNat
  | .negSucc n => some (Int.negSucc n)
  | .float _ => none

def ofInt? : Int → Option Number
  | .ofNat n => if n < UInt64.size then some (.nat (UInt64.ofNat n)) else none
  | .negSucc n => if h : n < 0x8000000000000000 then some (.negSucc ⟨n, h⟩) else none

end Number

structure Literal where
  negative : Bool
  whole : List Nat
  fraction : Option (List Nat)
  exponent : Option (Bool × List Nat)
  deriving Repr, DecidableEq

namespace Literal

/-- Appends digits to `n` while the result fits 64 bits; also gives the digits left over. -/
def absorb (n : Nat) : List Nat → Nat × List Nat
  | [] => (n, [])
  | d :: ds => if n * 10 + d < UInt64.size then absorb (n * 10 + d) ds else (n, d :: ds)

def ofDigits (ds : List Nat) : Nat := ds.foldl (fun n d => n * 10 + d) 0

def exponentBound : Nat := 0x80000000

def scaled? (negative : Bool) (significand : Nat) (scale : Int) :
    Option (Bool × List Nat) → Option Number.Binary64
  | none => Number.Binary64.ofScaled? negative significand scale
  | some (down, ds) =>
    let e := ofDigits ds
    if e < exponentBound then
      Number.Binary64.ofScaled? negative significand (if down then scale - e else scale + e)
    else if significand = 0 ∨ down then some (.zero negative)
    else none

/-- An integer that fits; zero with a sign is a float. -/
def integer? (negative : Bool) (n : Nat) : Option Number :=
  if ¬ negative then some (.nat (UInt64.ofNat n))
  else if h : n ≠ 0 ∧ n ≤ 0x8000000000000000 then some (.negSucc ⟨n - 1, by omega⟩)
  else (Number.Binary64.ofScaled? true n 0).map .float

def value? (l : Literal) : Option Number :=
  let (n, excess) := absorb 0 l.whole
  match excess, l.fraction, l.exponent with
  | [], none, none => integer? l.negative n
  | _, _, _ =>
    let ds := l.fraction.getD []
    let (m, dropped) := absorb n ds
    let scale : Int := (excess.length : Int) - (ds.length - dropped.length : Nat)
    (scaled? l.negative m scale l.exponent).map .float

end Literal

end Attestation.Json
