import Attestation.Text.Utf8
import Attestation.Toml.Draft
import Attestation.Toml.Quoted

namespace Attestation.Toml

def maxParts : Nat := 80

def maxNesting : Nat := 79

def isBare (c : Char) : Bool := c.isAlphanum || c == '-' || c == '_'

def keyPart : Reader String := fun cs =>
  match cs.takeWhile isBare with
  | [] => shortString cs
  | bare => some (String.ofList bare, cs.dropWhile isBare)

def keyParts : Nat → Reader (List String)
  | 0, _ => none
  | n + 1, cs => do
    let (k, cs) ← keyPart (skipSpace cs)
    match skipSpace cs with
    | '.' :: cs =>
      let (ks, cs) ← keyParts n cs
      return (k :: ks, cs)
    | cs => return ([k], cs)

def key : Reader (List String × String) := fun cs => do
  let (ks, rest) ← keyParts (maxParts - 1) cs
  let last ← ks.getLast?
  return ((ks.dropLast, last), rest)

def skipLines (comment : Bool) : List Char → List Char
  | [] => []
  | c :: cs =>
    if c = '\n' then skipLines false cs
    else if comment then if isText c then skipLines true cs else c :: cs
    else if isSpace c then skipLines false cs
    else if c = '#' then skipLines true cs
    else c :: cs

def arrayItems (item : Reader Value) : Nat → List Value → Reader (List Value)
  | 0, _, _ => none
  | fuel + 1, done, cs =>
    match skipLines false cs with
    | ']' :: rest => some (done.reverse, rest)
    | cs => do
      let (v, rest) ← item cs
      match skipLines false rest with
      | ',' :: rest => arrayItems item fuel (v :: done) rest
      | ']' :: rest => return ((v :: done).reverse, rest)
      | _ => none

def assignment (item : Reader Value) : Reader ((List String × String) × Value) := fun cs => do
  let (k, cs) ← key cs
  let ((), cs) ← char '=' cs
  let (v, cs) ← item (skipSpace cs)
  return ((k, v), cs)

/-- The members of a table in braces, at least one. -/
def tableMembers (item : Reader Value) : Nat → Draft → Reader Draft
  | 0, _, _ => none
  | fuel + 1, d, cs => do
    let (((path, k), v), rest) ← assignment item cs
    let d ← d.assign path k v
    match skipSpace rest with
    | ',' :: rest => tableMembers item fuel d rest
    | '\x7d' :: rest => return (d, rest)
    | _ => none

/-- A value in which arrays and tables are nested at most so deep. -/
def value : Nat → Reader Value
  | depth, cs =>
    match cs with
    | [] => none
    | c :: rest =>
      if c = '"' ∨ c = '\'' then (string cs).map fun (s, rest) => (.string s, rest)
      else if c = '[' then
        match depth with
        | 0 => none
        | depth + 1 =>
          (arrayItems (value depth) (rest.length + 1) [] rest).map fun (vs, rest) =>
            (.array vs, rest)
      else if c = '\x7b' then
        match depth with
        | 0 => none
        | depth + 1 =>
          match skipSpace rest with
          | '\x7d' :: rest => some (.table [], rest)
          | rest =>
            (tableMembers (value depth) (rest.length + 1) [] rest).map fun (d, rest) =>
              (.table d.finish, rest)
      else match after? "true".toList cs, after? "false".toList cs with
        | some rest, _ => some (.bool true, rest)
        | _, some rest => some (.bool false, rest)
        | none, none => scalar cs

def lineEnd? (cs : List Char) : Option (List Char) :=
  let cs := match skipSpace cs with
    | '#' :: cs => cs.dropWhile isText
    | cs => cs
  match cs with
  | [] => some []
  | '\n' :: cs => some cs
  | _ => none

inductive Line where
  | table (path : List String) (key : String)
  | element (path : List String) (key : String)
  | assign (path : List String) (key : String) (value : Value)

def line : Reader Line
  | '[' :: '[' :: cs => do
    let ((path, k), cs) ← key cs
    let ((), cs) ← char ']' cs
    let ((), cs) ← char ']' cs
    return (.element path k, cs)
  | '[' :: cs => do
    let ((path, k), cs) ← key cs
    let ((), cs) ← char ']' cs
    return (.table path k, cs)
  | cs => do
    let (((path, k), v), cs) ← assignment (value maxNesting) cs
    return (.assign path k v, cs)

def linesFrom : Nat → List Line → List Char → Option (List Line)
  | 0, _, _ => none
  | fuel + 1, done, cs =>
    match skipLines false cs with
    | [] => some done.reverse
    | cs => do
      let (l, rest) ← line cs
      linesFrom fuel (l :: done) (← lineEnd? rest)

/-- Writes lines into a draft, assignments under the header at hand. -/
def write : List String → List Line → Draft → Option Draft
  | _, [], d => some d
  | _, .table path k :: ls, d => do write (path ++ [k]) ls (← d.openTable path k)
  | _, .element path k :: ls, d => do write (path ++ [k]) ls (← d.openElement path k)
  | header, .assign path k v :: ls, d => do
    write header ls (← d.within false (fun _ d => d.assign path k v) header .header)

def joinReturns : List Char → List Char
  | '\r' :: '\n' :: cs => '\n' :: joinReturns cs
  | c :: cs => c :: joinReturns cs
  | [] => []

def dropMark : List Char → List Char
  | '\ufeff' :: cs => cs
  | cs => cs

/-- The members of a document; `none` if it is no TOML. -/
def read? (bytes : List UInt8) : Option (List (String × Value)) := do
  let cs := joinReturns (dropMark (← Text.Utf8.decode? bytes).toList)
  return (← write [] (← linesFrom (cs.length + 1) [] cs) []).finish

end Attestation.Toml
