namespace Attestation.Cbor

inductive Error where
  | inputEnded
  | illFormed
  | mismatch
  | tooDeep
  deriving Repr, DecidableEq

def Error.name : Error → String
  | .inputEnded => "Io"
  | .illFormed => "Syntax"
  | .mismatch => "Semantic"
  | .tooDeep => "RecursionLimitExceeded"

inductive Head where
  | positive (n : Nat)
  | negative (n : Nat)
  | bytes (length : Option Nat)
  | text (length : Option Nat)
  | array (length : Option Nat)
  | map (length : Option Nat)
  | tag (n : Nat)
  | simple (n : Nat)
  | float
  | stop
  deriving Repr, DecidableEq

def take (n : Nat) (bytes : List UInt8) : Except Error (List UInt8 × List UInt8) :=
  let front := bytes.take n
  if front.length = n then .ok (front, bytes.drop n) else .error .inputEnded

def bigEndian (bytes : List UInt8) : Nat := bytes.foldl (fun n b => n * 256 + b.toNat) 0

/-- The number of a head, from the low five bits of its first byte; `none` if it is left open. -/
def argument (low : Nat) (rest : List UInt8) : Except Error (Option Nat × List UInt8) :=
  if low < 24 then .ok (some low, rest)
  else if low < 28 then do
    let (front, rest) ← take (Nat.pow 2 (low - 24)) rest
    return (some (bigEndian front), rest)
  else if low = 31 then .ok (none, rest)
  else .error .illFormed

/-- The head of a major type. Numbers and tags cannot be left open, and the last major type holds
simple values, floats and the mark that ends an item of indefinite length. -/
def Head.ofMajor (major low : Nat) (arg : Option Nat) : Except Error Head :=
  match major, arg with
  | 0, some n => .ok (.positive n)
  | 1, some n => .ok (.negative n)
  | 2, n => .ok (.bytes n)
  | 3, n => .ok (.text n)
  | 4, n => .ok (.array n)
  | 5, n => .ok (.map n)
  | 6, some n => .ok (.tag n)
  | 7, none => .ok .stop
  | 7, some n => if low < 25 then .ok (.simple n) else .ok .float
  | _, _ => .error .illFormed

def Head.ofBytes : List UInt8 → Except Error (Head × List UInt8)
  | [] => .error .inputEnded
  | b :: rest => do
    let low := (b &&& 0x1F).toNat
    let (arg, rest) ← argument low rest
    let h ← Head.ofMajor (b >>> 5).toNat low arg
    return (h, rest)

def encodeHead (major : UInt8) (n : Nat) : List UInt8 :=
  let first (low : UInt8) : UInt8 := (major <<< 5) ||| low
  let tail (width : Nat) : List UInt8 :=
    (List.range width).reverse.map fun i => UInt8.ofNat (n / Nat.pow 256 i % 256)
  if n < 24 then [first (UInt8.ofNat n)]
  else if n < UInt8.size then first 24 :: tail 1
  else if n < UInt16.size then first 25 :: tail 2
  else if n < UInt32.size then first 26 :: tail 4
  else first 27 :: tail 8

end Attestation.Cbor
