namespace Attestation.Text.Utf8

/-- A character of which `left` bytes are missing, the next one between `low` and `high`. -/
structure Pending where
  value : Nat
  left : Nat
  low : UInt8
  high : UInt8
  deriving Repr, DecidableEq

inductive Lead where
  | whole (c : Char)
  | opens (p : Pending)
  | illFormed
  deriving Repr, DecidableEq

/-- The bounds on the second byte keep out overlong forms, surrogates and values past U+10FFFF. -/
def Lead.ofByte (b : UInt8) : Lead :=
  if b < 0x80 then .whole (Char.ofNat b.toNat)
  else if b < 0xC2 then .illFormed
  else if b < 0xE0 then .opens ⟨(b &&& 0x1F).toNat, 1, 0x80, 0xBF⟩
  else if b = 0xE0 then .opens ⟨0, 2, 0xA0, 0xBF⟩
  else if b = 0xED then .opens ⟨0xD, 2, 0x80, 0x9F⟩
  else if b < 0xF0 then .opens ⟨(b &&& 0x0F).toNat, 2, 0x80, 0xBF⟩
  else if b = 0xF0 then .opens ⟨0, 3, 0x90, 0xBF⟩
  else if b < 0xF4 then .opens ⟨(b &&& 0x07).toNat, 3, 0x80, 0xBF⟩
  else if b = 0xF4 then .opens ⟨4, 3, 0x80, 0x8F⟩
  else .illFormed

/-- The characters read so far, last one first, with `none` for an ill-formed stretch. -/
structure Reader where
  read : List (Option Char)
  pending : Option Pending
  deriving Repr, DecidableEq

def Reader.start : Reader := ⟨[], none⟩

def Reader.first (read : List (Option Char)) (b : UInt8) : Reader :=
  match Lead.ofByte b with
  | .whole c => ⟨some c :: read, none⟩
  | .opens p => ⟨read, some p⟩
  | .illFormed => ⟨none :: read, none⟩

/-- A byte that cannot continue the pending character ends it as ill-formed and is then read as a
first byte itself, so that every ill-formed stretch counts once. -/
def Reader.feed (r : Reader) (b : UInt8) : Reader :=
  match r.pending with
  | none => Reader.first r.read b
  | some p =>
    if p.low ≤ b ∧ b ≤ p.high then
      let value := p.value * 64 + (b &&& 0x3F).toNat
      if p.left = 1 then ⟨some (Char.ofNat value) :: r.read, none⟩
      else ⟨r.read, some ⟨value, p.left - 1, 0x80, 0xBF⟩⟩
    else Reader.first (none :: r.read) b

def Reader.finish (r : Reader) : List (Option Char) :=
  (if r.pending.isSome then none :: r.read else r.read).reverse

def characters (bytes : List UInt8) : List (Option Char) :=
  (bytes.foldl Reader.feed Reader.start).finish

def decode? (bytes : List UInt8) : Option String :=
  let cs := characters bytes
  if cs.all Option.isSome then some (String.ofList (cs.filterMap id)) else none

def decodeLossy (bytes : List UInt8) : String :=
  String.ofList ((characters bytes).map (·.getD '\uFFFD'))

/-- The first ill-formed stretch: where it begins, and how many bytes it has; without a length it is
a character that the end of the text cuts off. -/
structure Fault where
  start : Nat
  length : Option Nat
  deriving Repr, DecidableEq

def Fault.message (f : Fault) : String :=
  match f.length with
  | some n => s!"invalid utf-8 sequence of {n} bytes from index {f.start}"
  | none => s!"incomplete utf-8 byte sequence from index {f.start}"

def faultFrom (start seen : Nat) : Option Pending → List UInt8 → Option Fault
  | none, [] => none
  | some _, [] => some ⟨start, none⟩
  | none, b :: bs =>
    match Lead.ofByte b with
    | .whole _ => faultFrom (start + 1) 0 none bs
    | .opens p => faultFrom start 1 (some p) bs
    | .illFormed => some ⟨start, some 1⟩
  | some p, b :: bs =>
    if p.low ≤ b ∧ b ≤ p.high then
      if p.left = 1 then faultFrom (start + seen + 1) 0 none bs
      else faultFrom start (seen + 1) (some ⟨p.value, p.left - 1, 0x80, 0xBF⟩) bs
    else some ⟨start, some seen⟩

def fault? (bytes : List UInt8) : Option Fault := faultFrom 0 0 none bytes

def encode (s : String) : List UInt8 :=
  s.toList.flatMap String.utf8EncodeChar

end Attestation.Text.Utf8
