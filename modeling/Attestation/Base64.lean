namespace Attestation.Base64

/-- An alphabet, by its last two symbols, and the rule on padding. -/
structure Variant where
  symbol62 : UInt8
  symbol63 : UInt8
  padded : Bool
  deriving Repr, DecidableEq

def standard : Variant := ⟨43, 47, true⟩

def urlSafe : Variant := ⟨45, 95, false⟩

def padByte : UInt8 := 61

def Variant.symbol (v : Variant) (n : UInt8) : UInt8 :=
  if n < 26 then n + 65
  else if n < 52 then n + 71
  else if n < 62 then n - 4
  else if n = 62 then v.symbol62
  else v.symbol63

def Variant.value? (v : Variant) (b : UInt8) : Option UInt8 :=
  if 65 ≤ b ∧ b ≤ 90 then some (b - 65)
  else if 97 ≤ b ∧ b ≤ 122 then some (b - 71)
  else if 48 ≤ b ∧ b ≤ 57 then some (b + 4)
  else if b = v.symbol62 then some 62
  else if b = v.symbol63 then some 63
  else none

def join (p q r s : UInt8) : UInt8 × UInt8 × UInt8 :=
  ((p <<< 2) ||| (q >>> 4), (q <<< 4) ||| (r >>> 2), (r <<< 6) ||| s)

def symbols (v : Variant) (written : List UInt8) : List UInt8 → List UInt8
  | a :: b :: c :: rest =>
    symbols v (v.symbol (c &&& 0x3F) :: v.symbol (((b &&& 0x0F) <<< 2) ||| (c >>> 6)) ::
      v.symbol (((a &&& 0x03) <<< 4) ||| (b >>> 4)) :: v.symbol (a >>> 2) :: written) rest
  | [a, b] =>
    (if v.padded then [padByte] else []) ++ v.symbol ((b &&& 0x0F) <<< 2) ::
      v.symbol (((a &&& 0x03) <<< 4) ||| (b >>> 4)) :: v.symbol (a >>> 2) :: written
  | [a] =>
    (if v.padded then [padByte, padByte] else []) ++ v.symbol ((a &&& 0x03) <<< 4) ::
      v.symbol (a >>> 2) :: written
  | [] => written

def encodeBytes (v : Variant) (bytes : List UInt8) : List UInt8 :=
  (symbols v [] bytes).reverse

def encode (v : Variant) (bytes : List UInt8) : String :=
  String.ofList ((encodeBytes v bytes).map fun b => Char.ofNat b.toNat)

inductive Error where
  | badSymbol (byte : UInt8) (offset : Nat)
  | badLength (length : Nat)
  | badLastSymbol (byte : UInt8) (offset : Nat)
  | badPadding
  deriving Repr, DecidableEq

def Error.message : Error → String
  | .badSymbol b i => s!"Invalid symbol {b.toNat}, offset {i}."
  | .badLength n => s!"Invalid input length: {n}"
  | .badLastSymbol b i => s!"Invalid last symbol {b.toNat}, offset {i}."
  | .badPadding => "Invalid padding"

def Variant.firstBad (v : Variant) (offset : Nat) : List UInt8 → Option Error
  | [] => none
  | b :: rest => if (v.value? b).isSome then v.firstBad (offset + 1) rest
      else some (.badSymbol b offset)

/-- The symbols of the last group up to the first `=`, and how many `=` follow. A `=` among the
first two places, or one with a symbol behind it, is a bad symbol itself. -/
def Variant.split (v : Variant) (offset : Nat) (group : List UInt8) :
    Except Error (List UInt8 × Nat) :=
  let body := group.takeWhile (· != padByte)
  let tail := group.drop body.length
  match v.firstBad offset body with
  | some e => .error e
  | none =>
    if tail.isEmpty then .ok (body, 0)
    else if body.length < 2 ∨ tail.any (· != padByte) then
      .error (.badSymbol padByte (offset + body.length))
    else .ok (body, tail.length)

def Variant.lastGroup (v : Variant) (offset : Nat) (read : List UInt8) (group : List UInt8) :
    Except Error (List UInt8) :=
  match v.split offset group with
  | .error e => .error e
  | .ok (body, pads) =>
    if ¬ group.isEmpty ∧ body.length < 2 then .error (.badLength (offset + body.length))
    else if v.padded ∧ (body.length + pads) % 4 ≠ 0 then .error .badPadding
    else if ¬ v.padded ∧ pads ≠ 0 then .error .badPadding
    else match body.filterMap v.value?, body.getLast? with
      | [p, q], some final =>
        let (a, b, _) := join p q 0 0
        if b = 0 then .ok (a :: read) else .error (.badLastSymbol final (offset + 1))
      | [p, q, r], some final =>
        let (a, b, c) := join p q r 0
        if c = 0 then .ok (b :: a :: read) else .error (.badLastSymbol final (offset + 2))
      | [p, q, r, s], _ =>
        let (a, b, c) := join p q r s
        .ok (c :: b :: a :: read)
      | _, _ => .ok read

def Variant.groups (v : Variant) (offset : Nat) (read : List UInt8) :
    List UInt8 → Except Error (List UInt8)
  | a :: b :: c :: d :: e :: rest =>
    match v.value? a, v.value? b, v.value? c, v.value? d with
    | some p, some q, some r, some s =>
      let (x, y, z) := join p q r s
      v.groups (offset + 4) (z :: y :: x :: read) (e :: rest)
    | _, _, _, _ => .error ((v.firstBad offset [a, b, c, d]).getD .badPadding)
  | group => v.lastGroup offset read group

/-- A lone symbol after whole groups is looked at before everything else. -/
def Variant.strayEnd (v : Variant) (text : List UInt8) : Option Error :=
  match text.getLast? with
  | some b =>
    if text.length % 4 = 1 ∧ b ≠ padByte ∧ (v.value? b).isNone then
      some (.badSymbol b (text.length - 1))
    else none
  | none => none

/-- Accepts only the form that `encode` writes for the same variant: the unused low bits of a last
group are zero. -/
def decode (v : Variant) (text : List UInt8) : Except Error (List UInt8) :=
  match v.strayEnd text with
  | some e => .error e
  | none => (v.groups 0 [] text).map List.reverse

end Attestation.Base64
