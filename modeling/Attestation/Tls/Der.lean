namespace Attestation.Tls.Der

namespace Tag

def boolean : UInt8 := 0x01

def integer : UInt8 := 0x02

def bitString : UInt8 := 0x03

def octetString : UInt8 := 0x04

def identifier : UInt8 := 0x06

def sequence : UInt8 := 0x30

def member (n : UInt8) : UInt8 := 0xA0 + n

end Tag

def lengthBytes (n : Nat) : List UInt8 :=
  if n < 0x80 then [UInt8.ofNat n]
  else if n < 0x100 then [0x81, UInt8.ofNat n]
  else [0x82, UInt8.ofNat (n / 0x100), UInt8.ofNat n]

def encode (tag : UInt8) (content : List UInt8) : List UInt8 :=
  tag :: lengthBytes content.length ++ content

abbrev Reader (α : Type) := StateT (List UInt8) Option α

namespace Reader

def byte : Reader UInt8 := fun
  | [] => none
  | b :: rest => some (b, rest)

/-- Lengths are written in the shortest way and below 65536. -/
def length : Reader Nat := do
  let first ← byte
  if first < 0x80 then return first.toNat
  else if first = 0x81 then
    let n := (← byte).toNat
    guard (0x80 ≤ n)
    return n
  else
    guard (first = 0x82)
    let high := (← byte).toNat
    let n := high * 0x100 + (← byte).toNat
    guard (0x100 ≤ n)
    return n

def element (tag : UInt8) : Reader (List UInt8) := do
  guard ((← byte) = tag)
  let n ← length
  let bytes ← get
  guard (n ≤ bytes.length)
  set (bytes.drop n)
  return bytes.take n

def follows (tag : UInt8) : Reader Bool := do return (← get).head? = some tag

def whole {α : Type} (x : Reader α) (bytes : List UInt8) : Option α :=
  match x bytes with
  | some (a, []) => some a
  | _ => none

def within {α : Type} (tag : UInt8) (x : Reader α) : Reader α := do
  let content ← element tag
  (x.whole content : Option α)

def small : Reader UInt8 := do
  match ← element Tag.integer with
  | [b] => if b < 0x80 then return b else failure
  | [0, b] => if 0x80 ≤ b then return b else failure
  | _ => failure

def wholeBits : Reader (List UInt8) := do
  match ← element Tag.bitString with
  | 0 :: bytes => return bytes
  | _ => failure

/-- As many elements as there are. The fuel bounds them. -/
def manyWithin {α : Type} (x : Reader α) : Nat → Reader (List α)
  | 0 => failure
  | fuel + 1 => do
    if (← get).isEmpty then return []
    let a ← x
    let more ← manyWithin x fuel
    return a :: more

/-- Reads elements to the end; every element takes at least a byte. -/
def many {α : Type} (x : Reader α) : Reader (List α) := do
  manyWithin x ((← get).length + 1)

end Reader

end Attestation.Tls.Der
