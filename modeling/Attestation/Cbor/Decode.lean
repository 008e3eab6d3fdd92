import Attestation.Cbor.Head
import Attestation.Text.Utf8

namespace Attestation.Cbor

def maxDepth : Nat := 256

def maxKeyLength : Nat := 4096

/-- `depth` is how many more arrays, maps and tags may be entered. Tags are passed over. -/
abbrev Decoder (α : Type) := Nat → List UInt8 → Except Error (α × List UInt8)

/-- The chunks of a string of open length, joined; chunks may be open themselves, and `nested`
counts the strings that are. `length` tells the length of a head of the right kind. -/
def chunks (length : Head → Option (Option Nat)) (check : List UInt8 → Bool) :
    Nat → Nat → List (List UInt8) → List UInt8 → Except Error (List UInt8 × List UInt8)
  | 0, _, _, _ => .error .inputEnded
  | fuel + 1, nested, read, bytes => do
    let (h, rest) ← Head.ofBytes bytes
    if h = .stop then
      if nested = 1 then return (read.reverse.flatten, rest)
      else chunks length check fuel (nested - 1) read rest
    else match length h with
      | none => .error .illFormed
      | some none => chunks length check fuel (nested + 1) read rest
      | some (some n) => do
        let (chunk, rest) ← take n rest
        if check chunk then chunks length check fuel nested (chunk :: read) rest
        else .error .illFormed

def content (length : Head → Option (Option Nat)) (check : List UInt8 → Bool)
    (n : Option Nat) (bytes : List UInt8) : Except Error (List UInt8 × List UInt8) :=
  match n with
  | some n => do
    let (s, rest) ← take n bytes
    if check s then return (s, rest) else .error .illFormed
  | none => chunks length check (bytes.length + 1) 1 [] bytes

def isText (bytes : List UInt8) : Bool := (Text.Utf8.decode? bytes).isSome

def bytesLength : Head → Option (Option Nat)
  | .bytes n => some n
  | _ => none

def textLength : Head → Option (Option Nat)
  | .text n => some n
  | _ => none

def byteContent := content bytesLength fun _ => true

def textContent := content textLength isText

def untaggedWithin : Nat → List UInt8 → Except Error (Head × List UInt8)
  | 0, _ => .error .inputEnded
  | fuel + 1, bytes => do
    match ← Head.ofBytes bytes with
    | (.tag _, rest) => untaggedWithin fuel rest
    | found => return found

def untagged (bytes : List UInt8) : Except Error (Head × List UInt8) := do
  match ← Head.ofBytes bytes with
  | (.tag _, rest) => untaggedWithin (rest.length + 1) rest
  | found => return found

/-- The bytes of a number given by a byte string, without the zeros in front. -/
def bigNumber (bytes : List UInt8) : Except Error (List UInt8 × List UInt8) := do
  match ← Head.ofBytes bytes with
  | (.bytes n, rest) => do
    let (s, rest) ← byteContent n rest
    return (s.dropWhile (· == 0), rest)
  | _ => .error .mismatch

def integerHeadWithin : Nat → List UInt8 → Except Error (Head × List UInt8)
  | 0, _ => .error .inputEnded
  | fuel + 1, bytes => do
    match ← Head.ofBytes bytes with
    | (.tag n, rest) =>
      if n = 2 ∨ n = 3 then return (.tag n, rest) else integerHeadWithin fuel rest
    | found => return found

def integerHead (bytes : List UInt8) : Except Error (Head × List UInt8) := do
  match ← Head.ofBytes bytes with
  | (.tag _, _) => integerHeadWithin (bytes.length + 1) bytes
  | found => return found

/-- An integer from 0 to 255; it may be given as a byte string under a tag for large numbers. -/
def octet (bytes : List UInt8) : Except Error (UInt8 × List UInt8) := do
  match ← integerHead bytes with
  | (.positive n, rest) => if n < 256 then return (UInt8.ofNat n, rest) else .error .mismatch
  | (.tag 2, rest) => do
    match ← bigNumber rest with
    | ([], rest) => return (0, rest)
    | ([b], rest) => return (b, rest)
    | _ => .error .mismatch
  | (.tag _, rest) => do
    let _ ← bigNumber rest
    .error .mismatch
  | _ => .error .mismatch

def count {α : Type} (item : List UInt8 → Except Error (α × List UInt8)) :
    Nat → List α → List UInt8 → Except Error (List α × List UInt8)
  | 0, read, bytes => .ok (read.reverse, bytes)
  | n + 1, read, bytes => do
    let (a, rest) ← item bytes
    count item n (a :: read) rest

def untilStop {α : Type} (item : List UInt8 → Except Error (α × List UInt8)) :
    Nat → List α → List UInt8 → Except Error (List α × List UInt8)
  | 0, _, _ => .error .inputEnded
  | fuel + 1, read, bytes => do
    match ← Head.ofBytes bytes with
    | (.stop, rest) => return (read.reverse, rest)
    | _ => do
      let (a, rest) ← item bytes
      untilStop item fuel (a :: read) rest

def items {α : Type} (item : List UInt8 → Except Error (α × List UInt8)) (n : Option Nat)
    (bytes : List UInt8) : Except Error (List α × List UInt8) :=
  match n with
  | some n => count item n [] bytes
  | none => untilStop item (bytes.length + 1) [] bytes

def text : Decoder String := fun _ bytes => do
  match ← untagged bytes with
  | (.text n, rest) => do
    let (s, rest) ← textContent n rest
    return ((Text.Utf8.decode? s).getD "", rest)
  | _ => .error .mismatch

/-- Reads a byte string, or an array of integers from 0 to 255. -/
def blob : Decoder (List UInt8) := fun depth bytes => do
  match ← untagged bytes with
  | (.bytes n, rest) => byteContent n rest
  | (.array n, rest) =>
    if depth = 0 then .error .tooDeep
    else items octet n rest
  | _ => .error .mismatch

def optional {α : Type} (d : Decoder α) : Decoder (Option α) := fun depth bytes => do
  match ← Head.ofBytes bytes with
  | (.simple 22, rest) | (.simple 23, rest) => return (none, rest)
  | _ => do
    let (a, rest) ← d depth bytes
    return (some a, rest)

/-- Passes over an item. A number given by bytes may have any size if it has more than 16 bytes;
a negative one of 16 must be at least -2^127. -/
def skip : Decoder Unit
  | depth, bytes => do
    let (h, rest) ← Head.ofBytes bytes
    match h with
    | .positive _ | .negative _ | .float => return ((), rest)
    | .simple n => if 20 ≤ n ∧ n ≤ 23 then return ((), rest) else .error .mismatch
    | .stop => .error .mismatch
    | .bytes n => do
      let (_, rest) ← byteContent n rest
      return ((), rest)
    | .text n => do
      let (_, rest) ← textContent n rest
      return ((), rest)
    | .tag 2 => do
      let (_, rest) ← bigNumber rest
      return ((), rest)
    | .tag 3 => do
      let (s, rest) ← bigNumber rest
      if s.length = 16 ∧ 0x80 ≤ s.headD 0 then .error .mismatch else return ((), rest)
    | .tag _ =>
      match depth with
      | 0 => .error .tooDeep
      | depth + 1 => skip depth rest
    | .array n =>
      match depth with
      | 0 => .error .tooDeep
      | depth + 1 => do
        let (_, rest) ← items (skip depth) n rest
        return ((), rest)
    | .map n =>
      match depth with
      | 0 => .error .tooDeep
      | depth + 1 => do
        let pair (b : List UInt8) : Except Error (Unit × List UInt8) := do
          let (_, rest) ← skip depth b
          skip depth rest
        let (_, rest) ← items pair n rest
        return ((), rest)

def key (bytes : List UInt8) : Except Error (List UInt8 × List UInt8) := do
  match ← untagged bytes with
  | (.text (some n), rest) =>
    if n ≤ maxKeyLength then textContent (some n) rest else .error .mismatch
  | (.bytes (some n), rest) =>
    if n ≤ maxKeyLength then byteContent (some n) rest else .error .mismatch
  | _ => .error .mismatch

structure Slot (α : Type) where
  name : String
  read : Nat → List UInt8 → α → Except Error (α × List UInt8)

def Slot.of {α β : Type} (name : String) (d : Decoder β) (put : β → α → α) : Slot α :=
  ⟨name, fun depth bytes a => do
    let (b, rest) ← d depth bytes
    return (put b a, rest)⟩

def member {α : Type} (slots : List (Slot α)) (depth : Nat) (seen : List String) (a : α)
    (bytes : List UInt8) : Except Error ((List String × α) × List UInt8) := do
  let (k, rest) ← key bytes
  match slots.find? (Text.Utf8.encode ·.name = k) with
  | none => do
    let (_, rest) ← skip depth rest
    return ((seen, a), rest)
  | some s =>
    if s.name ∈ seen then .error .mismatch
    else do
      let (a, rest) ← s.read depth rest a
      return ((s.name :: seen, a), rest)

def countMembers {α : Type} (slots : List (Slot α)) (depth : Nat) :
    Nat → List String × α → List UInt8 → Except Error (α × List UInt8)
  | 0, (_, a), bytes => .ok (a, bytes)
  | n + 1, (seen, a), bytes => do
    let (next, rest) ← member slots depth seen a bytes
    countMembers slots depth n next rest

def membersUntilStop {α : Type} (slots : List (Slot α)) (depth : Nat) :
    Nat → List String × α → List UInt8 → Except Error (α × List UInt8)
  | 0, _, _ => .error .inputEnded
  | fuel + 1, (seen, a), bytes => do
    match ← Head.ofBytes bytes with
    | (.stop, rest) => return (a, rest)
    | _ => do
      let (next, rest) ← member slots depth seen a bytes
      membersUntilStop slots depth fuel next rest

/-- Reads a map into a record; members that have no slot are passed over. -/
def record {α : Type} (initial : α) (slots : List (Slot α)) : Decoder α := fun depth bytes => do
  match ← untagged bytes with
  | (.map n, rest) =>
    match depth, n with
    | 0, _ => .error .tooDeep
    | depth + 1, some n => countMembers slots depth n ([], initial) rest
    | depth + 1, none => membersUntilStop slots depth (rest.length + 1) ([], initial) rest
  | _ => .error .mismatch

def run {α : Type} (d : Decoder α) (bytes : List UInt8) : Except Error α :=
  (d maxDepth bytes).map (·.1)

end Attestation.Cbor
