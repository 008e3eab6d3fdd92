namespace Attestation.Hex

def digit (n : UInt8) : Char :=
  if n < 10 then Char.ofNat (48 + n.toNat) else Char.ofNat (87 + n.toNat)

def value? (b : UInt8) : Option UInt8 :=
  if 48 ≤ b ∧ b ≤ 57 then some (b - 48)
  else if 97 ≤ b ∧ b ≤ 102 then some (b - 87)
  else if 65 ≤ b ∧ b ≤ 70 then some (b - 55)
  else none

def encode (bytes : List UInt8) : String :=
  String.ofList (bytes.flatMap fun (b : UInt8) => [digit (b >>> 4), digit (b &&& 0x0F)])

/-- Why a text is no hexadecimal form of bytes. A symbol is shown as the character whose number
is the offending byte of the text. -/
inductive Error where
  | oddLength
  | badSymbol (byte : UInt8) (offset : Nat)
  deriving Repr, DecidableEq

def Error.message : Error → String
  | .oddLength => "Odd number of digits"
  | .badSymbol b i => s!"Invalid character '{Char.ofNat b.toNat}' at position {i}"

def pairs (offset : Nat) (read : List UInt8) : List UInt8 → Except Error (List UInt8)
  | hi :: lo :: rest =>
    match value? hi, value? lo with
    | some h, some l => pairs (offset + 2) ((h * 16 + l) :: read) rest
    | none, _ => .error (.badSymbol hi offset)
    | some _, none => .error (.badSymbol lo (offset + 1))
  | _ => .ok read.reverse

def decode (digits : List UInt8) : Except Error (List UInt8) :=
  if digits.length % 2 = 1 then .error .oddLength else pairs 0 [] digits

end Attestation.Hex
