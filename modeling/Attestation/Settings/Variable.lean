import Attestation.Json.Value
import Attestation.Number.Extended
import Attestation.Text.Blank
import Attestation.Toml.Quoted

namespace Attestation.Settings.Variable

open Json (Value)
open Toml (Reader)

def isSpace (c : Char) : Bool := c == ' ' || c == '\t' || c == '\n' || c == '\x0c' || c == '\r'

def skipSpace (cs : List Char) : List Char := cs.dropWhile isSpace

def isSeparator (c : Char) : Bool :=
  c == ',' || c == '\x7b' || c == '\x7d' || c == '[' || c == ']'

def isKeyChar (c : Char) : Bool := c.isAlphanum || c == '_' || c == '-'

/-- A float as a number of JSON. No setting is a float, and of one that JSON lacks it is only told
that it is a float: it stands as zero. -/
def ofExtended : Number.Extended → Json.Number
  | .finite x => .float x
  | .infinite negative => .float (.zero negative)
  | .nan => .float (.zero false)

def exponent? : List Char → Option Int
  | [] => some 0
  | c :: cs =>
    let (negative, ds) := Toml.sign cs
    if (c = 'e' ∨ c = 'E') ∧ ds ≠ [] ∧ ds.all Text.isDecimalDigit then
      let n := Text.digitsValue ds
      some (if negative then -n else n)
    else none

def float? (cs : List Char) : Option Number.Extended := do
  let (negative, cs) := Toml.sign cs
  let ds := cs.takeWhile Text.isDecimalDigit
  match cs.dropWhile Text.isDecimalDigit with
  | '.' :: rest =>
    let fs := rest.takeWhile Text.isDecimalDigit
    let e ← exponent? (rest.dropWhile Text.isDecimalDigit)
    let all := ds ++ fs
    if all = [] then none
    return .nearest negative (Text.digitsValue all) (all.dropWhile (· = '0')).length
      (e - fs.length)
  | _ => none

def integer? (s : String) : Option Json.Number :=
  match Text.natBelow? UInt64.size s, s.toList with
  | some n, _ => Json.Number.ofInt? n
  | none, '-' :: ds =>
    if ds ≠ [] ∧ ds.all Text.isDecimalDigit then Json.Number.ofInt? (-(Text.digitsValue ds : Int))
    else none
  | none, _ => none

def bare (s : String) : Value :=
  match float? s.toList, integer? s with
  | some x, _ => .number (ofExtended x)
  | none, some n => .number n
  | none, none => .string s

def bareValue : Reader Value := fun cs =>
  some (bare (Text.trim (String.ofList (cs.takeWhile (!isSeparator ·)))),
    cs.dropWhile (!isSeparator ·))

def items {α : Type} (item : Reader α) (close : Char) : Nat → List α → Reader (List α)
  | 0, _, _ => none
  | _ + 1, _, [] => none
  | fuel + 1, done, c :: cs =>
    if c = close then some (done.reverse, cs)
    else do
      let (a, rest) ← item (c :: cs)
      match rest with
      | ',' :: rest => items item close fuel (a :: done) rest
      | d :: rest => if d = close then some ((a :: done).reverse, rest) else none
      | [] => none

def key : Reader String := fun cs =>
  match cs with
  | '"' :: _ => Toml.shortString cs
  | _ =>
    match cs.takeWhile isKeyChar with
    | [] => none
    | k => some (String.ofList k, cs.dropWhile isKeyChar)

def member (value : Reader Value) : Reader (String × Value) := fun cs => do
  let (k, cs) ← key (skipSpace cs)
  let ((), cs) ← Toml.char '=' (skipSpace cs)
  let (v, cs) ← value (skipSpace cs)
  return ((k, v), skipSpace cs)

def value : Nat → Reader Value
  | 0, _ => none
  | fuel + 1, cs => do
    let cs := skipSpace cs
    let (v, rest) ←
      match Toml.after? "true".toList cs, Toml.after? "false".toList cs with
      | some rest, _ => some (.bool true, rest)
      | none, some rest => some (.bool false, rest)
      | none, none =>
        match cs with
        | '\x7b' :: rest =>
          (items (member (value fuel)) '\x7d' (fuel + 1) [] rest).map fun (ms, rest) =>
            (.object (Table.ofList ms), rest)
        | '[' :: rest =>
          (items (value fuel) ']' (fuel + 1) [] rest).map fun (vs, rest) => (.array vs, rest)
        | '"' :: _ => (Toml.shortString cs).map fun (s, rest) => (.string s, rest)
        | '\'' :: c :: '\'' :: rest => some (.string (String.singleton c), rest)
        | '\'' :: _ => none
        | _ => bareValue cs
    return (v, skipSpace rest)

/-- A truth value, a number, a quoted text, a character in single quotes, a list in brackets or a
table in braces. A text that is none of these stands for itself. -/
def read (text : String) : Value :=
  match value (text.length + 1) text.toList with
  | some (v, []) => v
  | _ => .string text

end Attestation.Settings.Variable
