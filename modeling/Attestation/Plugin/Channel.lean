import Attestation.Text.Lines
import Attestation.Text.Utf8

namespace Attestation.Plugin

/-- What is read from a plugin in the place of a line. -/
inductive Frame where
  | line (text : String)
  | undecodable
  | tooLong
  deriving Repr, DecidableEq

def maxLine : Nat := 16 * 1024 * 1024

namespace Frame

def isFault : Frame → Bool
  | .line _ => false
  | _ => true

def ofLine (bytes : List UInt8) : Frame :=
  match Text.Utf8.decode? (Text.dropReturn bytes) with
  | some s => .line s
  | none => .undecodable

end Frame

abbrev Arrival := Nat × Option (List UInt8)

/-- `discarding` tells that the rest of a line is to be set aside, `failed` that a fault has just
been read, `ready` that the buffer may hold a line, and `ended` that the output has ended. After a
fault the output seems to end once, and is looked at again only when more of it arrives. -/
structure Channel where
  buffer : List UInt8
  discarding : Bool
  failed : Bool
  ready : Bool
  ended : Bool
  deriving Repr, DecidableEq

namespace Channel

def start : Channel := ⟨[], false, false, false, false⟩

/-- The number of bytes before the first line feed, counted from `i`, if that is no longer than a
line may be. -/
def lineEnd? (i : Nat) : List UInt8 → Option Nat
  | [] => none
  | b :: bs => if b = 0x0A then some i else if i = maxLine then none else lineEnd? (i + 1) bs

def discard (c : Channel) : Channel :=
  if c.discarding then
    match c.buffer.dropWhile (· ≠ 0x0A) with
    | [] => { c with buffer := [] }
    | _ :: rest => { c with buffer := rest, discarding := false }
  else c

def takeLine (c : Channel) : Option (Frame × Channel) :=
  let c := c.discard
  match lineEnd? 0 c.buffer with
  | some n => some (.ofLine (c.buffer.take n), { c with buffer := c.buffer.drop (n + 1) })
  | none =>
    if maxLine < c.buffer.length then some (.tooLong, { c with discarding := true }) else none

def takeRest (c : Channel) : Option (Frame × Channel) :=
  let c := c.discard
  if c.buffer = [] ∨ c.buffer = [0x0D] then none
  else some (.ofLine c.buffer, { c with buffer := [] })

def attempt (c : Channel) : Option (Option Frame × Channel) :=
  if c.failed then some (none, { c with failed := false, ready := false })
  else if c.ready then
    match if c.ended then c.takeLine <|> c.takeRest else c.takeLine with
    | some (f, c) => some (some f, { c with failed := f.isFault })
    | none => if c.ended then some (none, { c with ready := false }) else none
  else if c.ended then some (none, c)
  else none

def receive (c : Channel) : Option (List UInt8) → Channel
  | some bytes => { c with buffer := c.buffer ++ bytes, ready := true }
  | none => { c with ready := true, ended := true }

/-- What is read next and when, and what arrives behind it; nothing if it never comes. -/
def next (now : Nat) (c : Channel) :
    List Arrival → Option (Nat × Option Frame × Channel × List Arrival)
  | [] => c.attempt.map fun (f, c) => (now, f, c, [])
  | (time, part) :: rest =>
    match c.attempt with
    | some (f, c) => some (now, f, c, (time, part) :: rest)
    | none => next (max now time) (c.receive part) rest

end Channel

end Attestation.Plugin
