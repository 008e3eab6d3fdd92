import Attestation.Json.Tree
import Attestation.Text.Utf8

namespace Attestation.Json.Reader

def isSpace (b : UInt8) : Bool := b == 0x20 || b == 0x0A || b == 0x0D || b == 0x09

def skipSpace (bytes : List UInt8) : List UInt8 := bytes.dropWhile isSpace

def isDigit (b : UInt8) : Bool := 48 ≤ b && b ≤ 57

def hexValue? (b : UInt8) : Option Nat :=
  if 48 ≤ b ∧ b ≤ 57 then some (b - 48).toNat
  else if 97 ≤ b ∧ b ≤ 102 then some (b - 87).toNat
  else if 65 ≤ b ∧ b ≤ 70 then some (b - 55).toNat
  else none

def escape? (b : UInt8) : Option UInt8 :=
  if b = 0x22 ∨ b = 0x5C ∨ b = 0x2F then some b
  else if b = 0x62 then some 0x08
  else if b = 0x66 then some 0x0C
  else if b = 0x6E then some 0x0A
  else if b = 0x72 then some 0x0D
  else if b = 0x74 then some 0x09
  else none

inductive Position where
  | plain
  | escape
  | number (left : Nat) (value : Nat)
  deriving Repr, DecidableEq

/-- The string so far: its bytes, last one first, the first half of a pair of 16-bit units if one
has been read, and whether all of it is text. -/
structure Draft where
  bytes : List UInt8
  half : Option Nat
  sound : Bool
  deriving Repr, DecidableEq

namespace Draft

def start : Draft := ⟨[], none, true⟩

/-- A half of a pair that is not followed by its other half is no text. -/
def push (d : Draft) (b : UInt8) : Draft := ⟨b :: d.bytes, none, d.sound && d.half.isNone⟩

def pushChar (d : Draft) (n : Nat) : Draft :=
  { d with bytes := (String.utf8EncodeChar (Char.ofNat n)).reverse ++ d.bytes, half := none }

def pushUnit (d : Draft) (u : Nat) : Draft :=
  match d.half with
  | some h =>
    if 0xDC00 ≤ u ∧ u ≤ 0xDFFF then d.pushChar (0x10000 + (h - 0xD800) * 0x400 + (u - 0xDC00))
    else { d with half := none, sound := false }
  | none =>
    if 0xD800 ≤ u ∧ u ≤ 0xDBFF then { d with half := some u }
    else if 0xDC00 ≤ u ∧ u ≤ 0xDFFF then { d with sound := false }
    else d.pushChar u

def finish? (d : Draft) : Option String :=
  if d.sound && d.half.isNone then Text.Utf8.decode? d.bytes.reverse else none

end Draft

/-- Reads a string from behind its opening quote; `none` if it has no well-formed end. -/
def string (d : Draft) (p : Position) : List UInt8 → Option (Option String × List UInt8)
  | [] => none
  | b :: rest =>
    match p with
    | .plain =>
      if b = 0x22 then some (d.finish?, rest)
      else if b = 0x5C then string d .escape rest
      else if b < 0x20 then none
      else string (d.push b) .plain rest
    | .escape =>
      if b = 0x75 then string d (.number 4 0) rest
      else match escape? b with
        | some c => string (d.push c) .plain rest
        | none => none
    | .number left value =>
      match hexValue? b with
      | none => none
      | some v =>
        if left = 1 then string (d.pushUnit (value * 16 + v)) .plain rest
        else string d (.number (left - 1) (value * 16 + v)) rest

def digits (bytes : List UInt8) : List Nat × List UInt8 :=
  ((bytes.takeWhile isDigit).map fun b => (b - 48).toNat, bytes.dropWhile isDigit)

def whole (bytes : List UInt8) : Option (List Nat × List UInt8) :=
  match digits bytes with
  | ([], _) => none
  | (0 :: _ :: _, _) => none
  | (ds, rest) => some (ds, rest)

def fraction : List UInt8 → Option (Option (List Nat) × List UInt8)
  | b :: rest =>
    if b = 0x2E then
      match digits rest with
      | ([], _) => none
      | (ds, rest) => some (some ds, rest)
    else some (none, b :: rest)
  | [] => some (none, [])

def sign : List UInt8 → Bool × List UInt8
  | b :: rest =>
    if b = 0x2D then (true, rest)
    else if b = 0x2B then (false, rest)
    else (false, b :: rest)
  | [] => (false, [])

def exponent : List UInt8 → Option (Option (Bool × List Nat) × List UInt8)
  | b :: rest =>
    if b = 0x65 ∨ b = 0x45 then
      let (down, rest) := sign rest
      match digits rest with
      | ([], _) => none
      | (ds, rest) => some (some (down, ds), rest)
    else some (none, b :: rest)
  | [] => some (none, [])

/-- Reads a number from behind its minus sign, if it has one. -/
def literal (negative : Bool) (bytes : List UInt8) : Option (Literal × List UInt8) := do
  let (ds, rest) ← whole bytes
  let (fs, rest) ← fraction rest
  let (e, rest) ← exponent rest
  return (⟨negative, ds, fs, e⟩, rest)

def number (negative : Bool) (bytes : List UInt8) : Tree × Option (List UInt8) :=
  match literal negative bytes with
  | some (l, rest) => (.number l.value?, some rest)
  | none => (.broken, none)

def afterWord? : List UInt8 → List UInt8 → Option (List UInt8)
  | [], bytes => some bytes
  | w :: ws, b :: rest => if w = b then afterWord? ws rest else none
  | _ :: _, [] => none

def word (w : List UInt8) (t : Tree) (bytes : List UInt8) : Tree × Option (List UInt8) :=
  match afterWord? w bytes with
  | some rest => (t, some rest)
  | none => (.broken, none)

/-- The bytes behind the comma that a further item needs, and none before the first item. -/
def afterComma? (isFirst : Bool) (bytes : List UInt8) : Option (List UInt8) :=
  if isFirst then some bytes
  else match bytes with
    | b :: rest => if b = 0x2C then some (skipSpace rest) else none
    | [] => none

def key? : List UInt8 → Option (Option String × List UInt8)
  | b :: rest => if b = 0x22 then string .start .plain rest else none
  | [] => none

def afterColon? (bytes : List UInt8) : Option (List UInt8) :=
  match skipSpace bytes with
  | b :: rest => if b = 0x3A then some rest else none
  | [] => none

mutual

/-- Reads a value; the rest is `none` if the text broke inside it. -/
def value : Nat → List UInt8 → Tree × Option (List UInt8)
  | 0, _ => (.broken, none)
  | fuel + 1, bytes =>
    match skipSpace bytes with
    | [] => (.broken, none)
    | b :: rest =>
      if b = 0x7B then members fuel [] rest
      else if b = 0x5B then items fuel [] rest
      else if b = 0x22 then
        match string .start .plain rest with
        | some (s, rest) => (.string s, some rest)
        | none => (.broken, none)
      else if b = 0x6E then word [0x75, 0x6C, 0x6C] .null rest
      else if b = 0x74 then word [0x72, 0x75, 0x65] (.bool true) rest
      else if b = 0x66 then word [0x61, 0x6C, 0x73, 0x65] (.bool false) rest
      else if b = 0x2D then number true rest
      else if isDigit b then number false (b :: rest)
      else (.broken, none)

def items : Nat → List Tree → List UInt8 → Tree × Option (List UInt8)
  | 0, done, _ => (.array done.reverse false, none)
  | fuel + 1, done, bytes =>
    match skipSpace bytes with
    | [] => (.array done.reverse false, none)
    | b :: rest =>
      if b = 0x5D then (.array done.reverse true, some rest)
      else match afterComma? done.isEmpty (b :: rest) with
        | none => (.array done.reverse false, none)
        | some body =>
          match value fuel body with
          | (t, some rest) => items fuel (t :: done) rest
          | (t, none) => (.array (t :: done).reverse false, none)

def members : Nat → List (Option String × Tree) → List UInt8 → Tree × Option (List UInt8)
  | 0, done, _ => (.object done.reverse false, none)
  | fuel + 1, done, bytes =>
    match skipSpace bytes with
    | [] => (.object done.reverse false, none)
    | b :: rest =>
      if b = 0x7D then (.object done.reverse true, some rest)
      else match (afterComma? done.isEmpty (b :: rest)).bind key? with
        | none => (.object done.reverse false, none)
        | some (k, rest) =>
          match (afterColon? rest).map (value fuel) with
          | none => (.object ((k, .broken) :: done).reverse false, none)
          | some (t, some rest) => members fuel ((k, t) :: done) rest
          | some (t, none) => (.object ((k, t) :: done).reverse false, none)

end

end Reader

def Document.read (bytes : List UInt8) : Document :=
  match Reader.value (2 * bytes.length + 2) bytes with
  | (t, some rest) => ⟨t, (Reader.skipSpace rest).isEmpty⟩
  | (t, none) => ⟨t, false⟩

end Attestation.Json
