import Attestation.Base64
import Attestation.SystemError
import Attestation.Text.Utf8

namespace Attestation.Tls.Pem

inductive Kind where
  | certificate
  | publicKey
  | rsaKey
  | privateKey
  | curveKey
  | revocationList
  | request
  | helloSettings
  deriving Repr, DecidableEq

def Kind.labels : List (String × Kind) := [
  ("CERTIFICATE", .certificate), ("PUBLIC KEY", .publicKey), ("RSA PRIVATE KEY", .rsaKey),
  ("PRIVATE KEY", .privateKey), ("EC PRIVATE KEY", .curveKey), ("X509 CRL", .revocationList),
  ("CERTIFICATE REQUEST", .request), ("ECHCONFIG", .helloSettings)]

def Kind.ofLabel? (label : List UInt8) : Option Kind :=
  (Kind.labels.find? fun (l, _) => Text.Utf8.encode l = label).map (·.2)

structure Section where
  kind : Kind
  content : List UInt8
  deriving Repr, DecidableEq

inductive Fault where
  | unreadable (e : SystemError)
  | badStart (line : List UInt8)
  | unclosed (marker : List UInt8)
  | badSymbol (byte : UInt8)
  | badPadding
  | absent
  deriving Repr, DecidableEq

def numbers (bytes : List UInt8) : String :=
  "[" ++ ", ".intercalate (bytes.map fun b => toString b.toNat) ++ "]"

def Fault.message : Fault → String
  | .unreadable e => s!"I/O error: {e.text}"
  | .badStart line => s!"illegal section start: {numbers line}"
  | .unclosed marker => s!"missing section end marker: {numbers marker}"
  | .badSymbol b => s!"base64 decode error: InvalidCharacter({b.toNat})"
  | .badPadding => "base64 decode error: InvalidTrailingPadding"
  | .absent => "no items found"

def linesOnto (begun : List UInt8) : List UInt8 → List (List UInt8)
  | [] => if begun.isEmpty then [] else [begun.reverse]
  | b :: rest =>
    if b = 0x0A ∨ b = 0x0D then (b :: begun).reverse :: linesOnto [] rest
    else linesOnto (b :: begun) rest

def lines (text : List UInt8) : List (List UInt8) := linesOnto [] text

def dashes : List UInt8 := Text.Utf8.encode "-----"

def startMark : List UInt8 := Text.Utf8.encode "-----BEGIN "

def endMark (label : List UInt8) : List UInt8 :=
  Text.Utf8.encode "-----END " ++ label ++ dashes

def isTrailing (b : UInt8) : Bool := b = 0x2D || b = 0x0A || b = 0x0D || b = 0x20

/-- The label of a line that begins a section: what stands before the first of the last dashes. -/
def labelOf (line : List UInt8) : Except Fault (List UInt8) :=
  let tail := line.reverse.takeWhile isTrailing
  if tail.count 0x2D = 5 then
    let behind := (tail.reverse.dropWhile (· ≠ 0x2D)).length
    .ok ((line.take (line.length - behind)).drop startMark.length)
  else .error (.badStart line)

def isBlank (b : UInt8) : Bool := (0x09 ≤ b && b ≤ 0x0D) || b = 0x20

def sextet (b : UInt8) : Except Fault UInt8 :=
  match Base64.standard.value? b with
  | some n => .ok n
  | none => .error (if b = Base64.padByte then .badPadding else .badSymbol b)

/-- Groups of four symbols, of which the last may be filled up. Bits that stand for no byte are
free. -/
def decodeGroups : List UInt8 → Except Fault (List UInt8)
  | [] => .ok []
  | p :: q :: r :: s :: rest => do
    let a ← sextet p
    let b ← sextet q
    if rest.isEmpty ∧ s = Base64.padByte then
      if r = Base64.padByte then
        let (x, _, _) := Base64.join a b 0 0
        return [x]
      else
        let (x, y, _) := Base64.join a b (← sextet r) 0
        return [x, y]
    else
      let (x, y, z) := Base64.join a b (← sextet r) (← sextet s)
      let more ← decodeGroups rest
      return x :: y :: z :: more
  | group => do
    for b in group do
      let _ ← sextet b
    throw .badPadding

def decodeBody (body : List UInt8) : Except Fault (List UInt8) :=
  decodeGroups (body.filter (!isBlank ·))

structure Begun where
  label : List UInt8
  body : List UInt8
  deriving Repr, DecidableEq

/-- The sections of lines, up to the first fault. A section that begins inside another one takes
its text over. -/
def sectionsOfLines (begun : Option Begun) : List (List UInt8) → List (Except Fault Section)
  | [] =>
    match begun with
    | none => []
    | some b => [.error (.unclosed (endMark b.label))]
  | line :: rest =>
    if startMark.isPrefixOf line then
      match labelOf line with
      | .error e => [.error e]
      | .ok label => sectionsOfLines (some ⟨label, (begun.map (·.body)).getD []⟩) rest
    else match begun with
      | none => sectionsOfLines none rest
      | some b =>
        if (endMark b.label).isPrefixOf line then
          match Kind.ofLabel? b.label with
          | none => sectionsOfLines none rest
          | some kind =>
            match decodeBody b.body.reverse with
            | .error e => [.error e]
            | .ok content => .ok ⟨kind, content⟩ :: sectionsOfLines none rest
        else sectionsOfLines (some { b with body := line.reverse ++ b.body }) rest

def sections (text : List UInt8) : List (Except Fault Section) :=
  sectionsOfLines none (lines text)

def allOf (kind : Kind) (text : List UInt8) : Except Fault (List (List UInt8)) := do
  let all ← (sections text).mapM id
  return (all.filter (·.kind = kind)).map (·.content)

/-- The first section of one of the kinds. What follows it is not looked at. -/
def firstOf (kinds : List Kind) (text : List UInt8) : Except Fault Section :=
  let found : Except Fault Section → Bool
    | .ok s => s.kind ∈ kinds
    | .error _ => true
  ((sections text).find? found).getD (.error .absent)

end Attestation.Tls.Pem
