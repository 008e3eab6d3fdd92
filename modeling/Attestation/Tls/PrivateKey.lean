import Attestation.Tls.Curve
import Attestation.Tls.Der
import Attestation.Tls.Pem

namespace Attestation.Tls

open Der

structure PrivateKey where
  curve : Curve
  scalar : Nat
  deriving Repr, DecidableEq

namespace PrivateKey

def curves : List Curve := [.p256, .p384]

def keyIdentifier : List UInt8 := [0x2A, 0x86, 0x48, 0xCE, 0x3D, 0x02, 0x01]

def algorithm (c : Curve) : List UInt8 :=
  encode Tag.identifier keyIdentifier ++ encode Tag.identifier c.identifier

def publicBytes (k : PrivateKey) : List UInt8 :=
  k.curve.pointBytes (k.curve.multiply k.scalar k.curve.generator)

def subject (k : PrivateKey) : List UInt8 :=
  encode Tag.sequence (algorithm k.curve) ++ encode Tag.bitString (0 :: k.publicBytes)

def ofScalar? (c : Curve) (bytes : List UInt8) : Option PrivateKey :=
  let n := bytesNumber bytes
  if bytes.length = c.size ∧ 0 < n ∧ n < c.order then some ⟨c, n⟩ else none

/-- A key of a known curve: the number, the curve's name if it is there, and the public key. -/
def bare (c : Curve) : Reader PrivateKey := .within Tag.sequence do
  guard ((← Reader.small) = 1)
  let scalar ← Reader.element Tag.octetString
  if ← Reader.follows (Tag.member 0) then
    guard ((← Reader.element (Tag.member 0)) = encode Tag.identifier c.identifier)
  let publicKey ← Reader.within (Tag.member 1) Reader.wholeBits
  let k ← (ofScalar? c scalar : Option PrivateKey)
  guard (publicKey = k.publicBytes)
  return k

/-- A key with its kind in front. Members behind the key are passed over. -/
def wrapped (c : Curve) : Reader PrivateKey := .within Tag.sequence do
  guard ((← Reader.small) = 0)
  guard ((← Reader.element Tag.sequence) = algorithm c)
  let k ← Reader.within Tag.octetString (bare c)
  if ← Reader.follows (Tag.member 0) then
    let _ ← Reader.element (Tag.member 0)
  return k

def kinds : List Pem.Kind := [.privateKey, .rsaKey, .curveKey]

def ofSection? (s : Pem.Section) : Option PrivateKey :=
  match s.kind with
  | .privateKey => curves.findSome? fun c => (wrapped c).whole s.content
  | .curveKey => curves.findSome? fun c => (bare c).whole s.content
  | _ => none

end PrivateKey

end Attestation.Tls
