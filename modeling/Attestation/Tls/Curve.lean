namespace Attestation.Tls

structure Curve where
  identifier : List UInt8
  size : Nat
  prime : Nat
  a : Nat
  x : Nat
  y : Nat
  order : Nat
  deriving Repr, DecidableEq

abbrev Point := Option (Nat × Nat)

def powMod (m base exponent : Nat) : Nat :=
  if exponent = 0 then 1 % m
  else
    let half := powMod m (base * base % m) (exponent / 2)
    if exponent % 2 = 0 then half else half * base % m
termination_by exponent
decreasing_by omega

def numberBytes (size n : Nat) : List UInt8 :=
  (List.range size).reverse.map fun i => UInt8.ofNat (n / Nat.pow 256 i)

def bytesNumber (bytes : List UInt8) : Nat := bytes.foldl (fun n b => n * 256 + b.toNat) 0

namespace Curve

def p256 : Curve where
  identifier := [0x2A, 0x86, 0x48, 0xCE, 0x3D, 0x03, 0x01, 0x07]
  size := 32
  prime := 0xffffffff00000001000000000000000000000000ffffffffffffffffffffffff
  a := 0xffffffff00000001000000000000000000000000fffffffffffffffffffffffc
  x := 0x6b17d1f2e12c4247f8bce6e563a440f277037d812deb33a0f4a13945d898c296
  y := 0x4fe342e2fe1a7f9b8ee7eb4a7c0f9e162bce33576b315ececbb6406837bf51f5
  order := 0xffffffff00000000ffffffffffffffffbce6faada7179e84f3b9cac2fc632551

def p384 : Curve where
  identifier := [0x2B, 0x81, 0x04, 0x00, 0x22]
  size := 48
  prime := 0xfffffffffffffffffffffffffffffffffffffffffffffffffffffffffffffffeffffffff0000000000000000ffffffff
  a := 0xfffffffffffffffffffffffffffffffffffffffffffffffffffffffffffffffeffffffff0000000000000000fffffffc
  x := 0xaa87ca22be8b05378eb1c71ef320ad746e1d3b628ba79b9859f741e082542a385502f25dbf55296c3a545e3872760ab7
  y := 0x3617de4a96262c6f5d9e98bf9292dc29f8f41dbd289a147ce9da3113b5f0b8c00a60b1ce1d7e819d7a431d7c90ea0e5f
  order := 0xffffffffffffffffffffffffffffffffffffffffffffffffc7634d81f4372ddf581a0db248b0a77aecec196accc52973

/-- The quotient in the field; the divisor is not zero. -/
def divide (c : Curve) (n d : Nat) : Nat := n * powMod c.prime d (c.prime - 2) % c.prime

/-- The third point on the line through two points, mirrored at the axis. -/
def third (c : Curve) (slope x1 y1 x2 : Nat) : Point :=
  let x := (slope * slope + 2 * c.prime - x1 - x2) % c.prime
  some (x, (slope * (x1 + c.prime - x) + c.prime - y1) % c.prime)

def add (c : Curve) : Point → Point → Point
  | none, q => q
  | p, none => p
  | some (x1, y1), some (x2, y2) =>
    if x1 ≠ x2 then
      c.third (c.divide (y2 + c.prime - y1) (x2 + c.prime - x1)) x1 y1 x2
    else if (y1 + y2) % c.prime = 0 then none
    else c.third (c.divide (3 * x1 * x1 + c.a) (2 * y1)) x1 y1 x2

def multiply (c : Curve) (n : Nat) (p : Point) : Point :=
  if n = 0 then none
  else
    let half := c.multiply (n / 2) (c.add p p)
    if n % 2 = 0 then half else c.add half p
termination_by n
decreasing_by omega

def generator (c : Curve) : Point := some (c.x, c.y)

def pointBytes (c : Curve) : Point → List UInt8
  | none => [0]
  | some (x, y) => 4 :: numberBytes c.size x ++ numberBytes c.size y

end Curve

end Attestation.Tls
