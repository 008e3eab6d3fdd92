import Attestation.Text.Numeral
import Attestation.Toml.Value

namespace Attestation.Toml

abbrev Reader (α : Type) := List Char → Option (α × List Char)

def isSpace (c : Char) : Bool := c == ' ' || c == '\t'

def skipSpace (cs : List Char) : List Char := cs.dropWhile isSpace

def isText (c : Char) : Bool := c == '\t' || (0x20 ≤ c.toNat && c.toNat != 0x7F)

def hexValue? (c : Char) : Option Nat :=
  if '0' ≤ c ∧ c ≤ '9' then some (c.toNat - '0'.toNat)
  else if 'a' ≤ c ∧ c ≤ 'f' then some (c.toNat - 'a'.toNat + 10)
  else if 'A' ≤ c ∧ c ≤ 'F' then some (c.toNat - 'A'.toNat + 10)
  else none

def digit? (base : Nat) (c : Char) : Option Nat := (hexValue? c).filter (· < base)

def after? : List Char → List Char → Option (List Char)
  | [], cs => some cs
  | w :: ws, c :: cs => if w = c then after? ws cs else none
  | _ :: _, [] => none

/-- Further digits, between any two of which an underscore may stand. -/
def moreDigits (base : Nat) : List Char → List Nat × List Char
  | [] => ([], [])
  | '_' :: c :: cs =>
    match digit? base c with
    | some d => let (ds, rest) := moreDigits base cs; (d :: ds, rest)
    | none => ([], '_' :: c :: cs)
  | c :: cs =>
    match digit? base c with
    | some d => let (ds, rest) := moreDigits base cs; (d :: ds, rest)
    | none => ([], c :: cs)

def digits (base : Nat) : Reader (List Nat)
  | [] => none
  | c :: cs => do
    let d ← digit? base c
    let (ds, rest) := moreDigits base cs
    return (d :: ds, rest)

def ofDigits (base : Nat) (ds : List Nat) : Nat := ds.foldl (fun n d => n * base + d) 0

def sign : List Char → Bool × List Char
  | '-' :: cs => (true, cs)
  | '+' :: cs => (false, cs)
  | cs => (false, cs)

/-- The digits before a point: zero alone, or digits that do not begin with zero. -/
def whole : Reader (List Nat)
  | '0' :: cs => some ([0], cs)
  | cs => digits 10 cs

/-- An integer that fits 64 bits with a sign. -/
def integer? (negative : Bool) (n : Nat) : Option Value :=
  let i : Int := if negative then -n else n
  if -0x8000000000000000 ≤ i ∧ i < 0x8000000000000000 then some (.integer i) else none

def integer : Reader Value
  | '0' :: 'x' :: cs => inBase 16 cs
  | '0' :: 'o' :: cs => inBase 8 cs
  | '0' :: 'b' :: cs => inBase 2 cs
  | cs => do
    let (negative, cs) := sign cs
    let (ds, rest) ← whole cs
    return (← integer? negative (ofDigits 10 ds), rest)
where
  inBase (base : Nat) (cs : List Char) : Option (Value × List Char) := do
    let (ds, rest) ← digits base cs
    return (← integer? false (ofDigits base ds), rest)

def fraction : List Char → Option (Option (List Nat) × List Char)
  | '.' :: cs => do
    let (ds, rest) ← digits 10 cs
    return (some ds, rest)
  | cs => some (none, cs)

def exponent : List Char → Option (Option Int × List Char)
  | [] => some (none, [])
  | c :: cs =>
    if c = 'e' ∨ c = 'E' then do
      let (negative, cs) := sign cs
      let (ds, rest) ← digits 10 cs
      let n := ofDigits 10 ds
      return (some (if negative then -n else n), rest)
    else some (none, c :: cs)

/-- A number with a point or an exponent. A positive one may not be too large. -/
def real : Reader Value := fun cs => do
  let (negative, cs) := sign cs
  match after? "inf".toList cs, after? "nan".toList cs with
  | some rest, _ => return (.real (.infinite negative), rest)
  | _, some rest => return (.real .nan, rest)
  | none, none =>
    let (ds, rest) ← whole cs
    let (fs, rest) ← fraction rest
    let (e, rest) ← exponent rest
    if fs = none ∧ e = none then none
    let all := ds ++ fs.getD []
    let leading := all.dropWhile (· = 0)
    let x := Number.Extended.nearest negative (ofDigits 10 all) leading.length
      (e.getD 0 - (fs.getD []).length)
    if x = Number.Extended.infinite false then none
    return (.real x, rest)

def fixedDigits : Nat → Reader (List Nat)
  | 0, cs => some ([], cs)
  | _ + 1, [] => none
  | n + 1, c :: cs => do
    let d ← digit? 10 c
    let (ds, rest) ← fixedDigits n cs
    return (d :: ds, rest)

def fixed (n limit : Nat) : Reader Nat := fun cs => do
  let (ds, rest) ← fixedDigits n cs
  if ofDigits 10 ds ≤ limit then some (ofDigits 10 ds, rest) else none

def char (c : Char) : Reader Unit
  | [] => none
  | d :: rest => if c = d then some ((), rest) else none

def daysIn (year month : Nat) : Nat :=
  if month = 2 then
    if year % 4 = 0 ∧ (year % 100 ≠ 0 ∨ year % 400 = 0) then 29 else 28
  else if month ∈ [4, 6, 9, 11] then 30
  else 31

def padded (width n : Nat) : String :=
  let s := toString n
  String.ofList (List.replicate (width - s.length) '0') ++ s

def date : Reader String := fun cs => do
  let (year, cs) ← fixed 4 9999 cs
  let ((), cs) ← char '-' cs
  let (month, cs) ← fixed 2 12 cs
  let ((), cs) ← char '-' cs
  let (day, cs) ← fixed 2 (daysIn year month) cs
  if month = 0 ∨ day = 0 then none
  return (s!"{padded 4 year}-{padded 2 month}-{padded 2 day}", cs)

/-- The digits of a fraction of a second, of which nine count. -/
def secondFraction (ds : List Nat) : String :=
  match ((ds.take 9).reverse.dropWhile (· = 0)).reverse with
  | [] => ""
  | ds => "." ++ String.join (ds.map fun d => toString d)

def timeOfDay : Reader String := fun cs => do
  let (hour, cs) ← fixed 2 23 cs
  let ((), cs) ← char ':' cs
  let (minute, cs) ← fixed 2 59 cs
  let ((), cs) ← char ':' cs
  let (second, cs) ← fixed 2 60 cs
  let (ds, cs) := match cs with
    | '.' :: rest =>
      let ds := rest.takeWhile Text.isDecimalDigit
      if ds = [] then ([], cs) else (ds, rest.dropWhile Text.isDecimalDigit)
    | _ => ([], cs)
  return (s!"{padded 2 hour}:{padded 2 minute}:{padded 2 second}" ++
    secondFraction (ds.map fun c => c.toNat - '0'.toNat), cs)

def offset : List Char → String × List Char
  | [] => ("", [])
  | c :: cs =>
    if c = 'Z' ∨ c = 'z' then ("Z", cs)
    else if c = '+' ∨ c = '-' then
      match (do
        let (hours, cs) ← fixed 2 23 cs
        let ((), cs) ← char ':' cs
        let (minutes, cs) ← fixed 2 59 cs
        return (hours, minutes, cs)) with
      | some (hours, minutes, rest) =>
        let sign := if c = '-' ∧ (hours, minutes) ≠ (0, 0) then "-" else "+"
        (s!"{sign}{padded 2 hours}:{padded 2 minutes}", rest)
      | none => ("", c :: cs)
    else ("", c :: cs)

def timeBehindDate (day : String) (cs : List Char) : String × List Char :=
  match cs with
  | [] => (day, [])
  | c :: rest =>
    if c = 'T' ∨ c = 't' ∨ c = ' ' then
      match timeOfDay rest with
      | some (time, rest) => let (o, rest) := offset rest; (s!"{day}T{time}{o}", rest)
      | none => (day, cs)
    else (day, cs)

def time : Reader Value := fun cs =>
  match date cs with
  | some (day, rest) => let (text, rest) := timeBehindDate day rest; some (.time text, rest)
  | none => (timeOfDay cs).map fun (text, rest) => (.time text, rest)

def scalar : Reader Value := fun cs => time cs <|> real cs <|> integer cs

end Attestation.Toml
