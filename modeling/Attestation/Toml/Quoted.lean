import Attestation.Toml.Scalar

namespace Attestation.Toml

def escape? : Char → Option Char
  | 'b' => some '\x08'
  | 't' => some '\t'
  | 'n' => some '\n'
  | 'f' => some '\x0c'
  | 'r' => some '\r'
  | '"' => some '"'
  | '\\' => some '\\'
  | _ => none

inductive Position where
  | plain (quotes : Nat)
  | escape
  | number (left value : Nat)
  | trailing
  | joining
  deriving Repr, DecidableEq

/-- How strings are written: the quote, whether it stands three times, and whether there are
escapes. -/
structure Style where
  quote : Char
  long : Bool
  escapes : Bool
  deriving Repr, DecidableEq

/-- Quotes in front of the last three, of which there may be two. -/
def surplus (s : Style) (quotes : Nat) : List Char := List.replicate (quotes - 3) s.quote

def stringFrom (s : Style) (done : List Char) (p : Position) : Reader String
  | [] =>
    match p with
    | .plain quotes =>
      if s.long ∧ 3 ≤ quotes then some (String.ofList (surplus s quotes ++ done).reverse, [])
      else none
    | _ => none
  | c :: cs =>
    let plain (done : List Char) : Option (String × List Char) :=
      if c = s.quote then
        if s.long then stringFrom s done (.plain 1) cs else some (String.ofList done.reverse, cs)
      else if c = '\\' ∧ s.escapes then stringFrom s done .escape cs
      else if isText c ∨ (s.long ∧ c = '\n') then stringFrom s (c :: done) (.plain 0) cs
      else none
    match p with
    | .plain quotes =>
      if 3 ≤ quotes then
        if c = s.quote ∧ quotes < 5 then stringFrom s done (.plain (quotes + 1)) cs
        else some (String.ofList (surplus s quotes ++ done).reverse, c :: cs)
      else if c = s.quote ∧ 0 < quotes then stringFrom s done (.plain (quotes + 1)) cs
      else plain (List.replicate quotes s.quote ++ done)
    | .escape =>
      match escape? c with
      | some e => stringFrom s (e :: done) (.plain 0) cs
      | none =>
        if c = 'u' then stringFrom s done (.number 4 0) cs
        else if c = 'U' then stringFrom s done (.number 8 0) cs
        else if s.long ∧ isSpace c then stringFrom s done .trailing cs
        else if s.long ∧ c = '\n' then stringFrom s done .joining cs
        else none
    | .number left value =>
      match hexValue? c with
      | none => none
      | some d =>
        let value := value * 16 + d
        if 1 < left then stringFrom s done (.number (left - 1) value) cs
        else if Nat.isValidChar value then
          stringFrom s (Char.ofNat value :: done) (.plain 0) cs
        else none
    | .trailing =>
      if isSpace c then stringFrom s done .trailing cs
      else if c = '\n' then stringFrom s done .joining cs
      else none
    | .joining =>
      if isSpace c ∨ c = '\n' then stringFrom s done .joining cs
      else plain done

def shortString : Reader String
  | '"' :: cs => stringFrom ⟨'"', false, true⟩ [] (.plain 0) cs
  | '\'' :: cs => stringFrom ⟨'\'', false, false⟩ [] (.plain 0) cs
  | _ => none

def dropNewline : List Char → List Char
  | '\n' :: cs => cs
  | cs => cs

def string : Reader String
  | '"' :: '"' :: '"' :: cs => stringFrom ⟨'"', true, true⟩ [] (.plain 0) (dropNewline cs)
  | '\'' :: '\'' :: '\'' :: cs =>
    stringFrom ⟨'\'', true, false⟩ [] (.plain 0) (dropNewline cs)
  | cs => shortString cs

end Attestation.Toml
