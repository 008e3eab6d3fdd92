import Attestation.Tls.Der

namespace Attestation.Tls

open Der

structure Certificate where
  subjectKey : List UInt8
  deriving Repr, DecidableEq

namespace Certificate

structure Extension where
  identifier : List UInt8
  critical : Bool
  value : List UInt8
  deriving Repr, DecidableEq

def flag : Reader Bool := do
  if ← Reader.follows Tag.boolean then
    match ← Reader.element Tag.boolean with
    | [0x00] => return false
    | [0xFF] => return true
    | _ => failure
  else return false

def extension : Reader Extension := .within Tag.sequence do
  return ⟨← Reader.element Tag.identifier, ← flag, ← Reader.element Tag.octetString⟩

def usageOfKey : List UInt8 := [0x55, 0x1D, 15]

/-- The extensions that are understood: use of the key, names, constraints on the path, constraints
on names, places of revocation lists, and extended use of the key. -/
def understood : List (List UInt8) :=
  [usageOfKey, [0x55, 0x1D, 17], [0x55, 0x1D, 19], [0x55, 0x1D, 30], [0x55, 0x1D, 31],
    [0x55, 0x1D, 37]]

/-- An extension that is understood is a sequence; the use of the key may be anything. One that is
not understood must not be critical. -/
def Extension.isFine (e : Extension) : Bool :=
  if e.identifier ∈ understood then
    e.identifier = usageOfKey || ((Reader.element Tag.sequence).whole e.value).isSome
  else !e.critical

def areFine (es : List Extension) : Bool :=
  es.all Extension.isFine &&
    decide ((es.map (·.identifier)).filter (· ∈ understood)).Nodup

/-- What is signed. The kind of the signature is told in it once more. -/
def body (signature : List UInt8) : Reader Certificate := do
  guard ((← Reader.within (Tag.member 0) Reader.small) = 2)
  let _serial ← Reader.element Tag.integer
  guard ((← Reader.element Tag.sequence) = signature)
  let _issuer ← Reader.element Tag.sequence
  let _validity ← Reader.element Tag.sequence
  let _subject ← Reader.element Tag.sequence
  let key ← Reader.element Tag.sequence
  unless (← get).isEmpty do
    let es ← Reader.within (Tag.member 3) (Reader.within Tag.sequence (Reader.many extension))
    guard (areFine es)
  return ⟨key⟩

def certificate : Reader Certificate := .within Tag.sequence do
  let content ← Reader.element Tag.sequence
  let signature ← Reader.element Tag.sequence
  let _ ← Reader.wholeBits
  ((body signature).whole content : Option Certificate)

def ofBytes? (bytes : List UInt8) : Option Certificate := certificate.whole bytes

end Certificate

end Attestation.Tls
