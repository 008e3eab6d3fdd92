namespace Attestation.Shell

inductive Part where
  | text (cs : List Char)
  | named (name : String)
  deriving Repr, DecidableEq

abbrev Word := List Part

/-- What a redirection does to a descriptor: it writes to a file, from its beginning or its end,
or becomes another descriptor; `<` reads from a file. -/
inductive Mode where
  | write
  | append
  | duplicate
  | read
  deriving Repr, DecidableEq

structure Redirection where
  descriptor : Nat
  mode : Mode
  target : Word
  deriving Repr, DecidableEq

structure Command where
  words : List Word
  redirections : List Redirection
  deriving Repr, DecidableEq

inductive Condition where
  | always
  | onSuccess
  | onFailure
  deriving Repr, DecidableEq

structure Statement where
  condition : Condition
  pipeline : List Command
  deriving Repr, DecidableEq

/-- A byte of a script is read as the character with its number. There are no loops and no
functions. -/
abbrev Script := List Statement

inductive Token where
  | word (w : Word)
  | redirect (descriptor : Nat) (mode : Mode)
  | pipe
  | next (condition : Condition)
  deriving Repr, DecidableEq

structure Draft where
  parts : List Part := []
  text : List Char := []

namespace Draft

def push (d : Draft) (c : Char) : Draft := { d with text := c :: d.text }

def flush (d : Draft) : List Part :=
  if d.text = [] then d.parts else .text d.text.reverse :: d.parts

def pushVariable (d : Draft) (name : String) : Draft := ⟨.named name :: d.flush, []⟩

def word (d : Draft) : Word := d.flush.reverse

def descriptor? (d : Draft) : Option Nat :=
  match d.parts, d.text with
  | [], [c] => if c.isDigit then some (c.toNat - '0'.toNat) else none
  | _, _ => none

end Draft

inductive Quote where
  | none
  | single
  | double
  | comment
  deriving Repr, DecidableEq

def isNameChar (c : Char) : Bool := c.isAlphanum || c == '_'

/-- The name of a variable behind the dollar sign: one character that is no letter, or letters,
digits and underscores, which may stand in braces. -/
def variableName : List Char → Option (String × List Char)
  | [] => none
  | c :: cs =>
    if c = '\x7b' then
      some (String.ofList (cs.takeWhile (· ≠ '\x7d')), (cs.dropWhile (· ≠ '\x7d')).drop 1)
    else if c.isDigit ∨ c ∈ ['$', '?', '#', '@', '*'] then some (String.singleton c, cs)
    else if isNameChar c then
      some (String.ofList ((c :: cs).takeWhile isNameChar), (c :: cs).dropWhile isNameChar)
    else none

def finishWord (d : Option Draft) (done : List Token) : List Token :=
  match d with
  | some d => .word d.word :: done
  | none => done

def redirectToken (d : Option Draft) (mode : Mode) (standard : Nat) (done : List Token) :
    List Token :=
  match d.bind Draft.descriptor? with
  | some n => .redirect n mode :: done
  | none => .redirect standard mode :: finishWord d done

/-- Splits a script into tokens; `done` is in reverse order. A script that ends inside quotes has
none. The fuel is the length of the text. -/
def tokens : Nat → Quote → Option Draft → List Token → List Char → Option (List Token)
  | _, .none, d, done, [] => some (finishWord d done).reverse
  | _, .comment, _, done, [] => some done.reverse
  | _, .single, _, _, [] | _, .double, _, _, [] => none
  | 0, _, _, _, _ :: _ => none
  | fuel + 1, q, d, done, c :: cs =>
    let push (c : Char) : Option Draft := some ((d.getD {}).push c)
    match q with
    | .single =>
      if c = '\'' then tokens fuel .none d done cs else tokens fuel .single (push c) done cs
    | .double =>
      if c = '"' then tokens fuel .none d done cs
      else if c = '$' then
        match variableName cs with
        | some (name, rest) =>
          tokens fuel .double (some ((d.getD {}).pushVariable name)) done rest
        | none => tokens fuel .double (push '$') done cs
      else if c = '\\' then
        match cs with
        | '\n' :: rest => tokens fuel .double d done rest
        | e :: rest =>
          if e ∈ ['$', '"', '\\', '\x60'] then tokens fuel .double (push e) done rest
          else tokens fuel .double (push '\\') done (e :: rest)
        | [] => none
      else tokens fuel .double (push c) done cs
    | .comment =>
      if c = '\n' then tokens fuel .none none (.next .always :: done) cs
      else tokens fuel .comment none done cs
    | .none =>
      if c = '\'' then tokens fuel .single (some (d.getD {})) done cs
      else if c = '"' then tokens fuel .double (some (d.getD {})) done cs
      else if c = '$' then
        match variableName cs with
        | some (name, rest) =>
          tokens fuel .none (some ((d.getD {}).pushVariable name)) done rest
        | none => tokens fuel .none (push '$') done cs
      else if c = '#' ∧ d.isNone then tokens fuel .comment none done cs
      else if c = ' ' ∨ c = '\t' then tokens fuel .none none (finishWord d done) cs
      else if c = '\n' ∨ c = ';' then
        tokens fuel .none none (.next .always :: finishWord d done) cs
      else match c, cs with
        | '\\', '\n' :: rest => tokens fuel .none d done rest
        | '\\', e :: rest => tokens fuel .none (push e) done rest
        | '|', '|' :: rest =>
          tokens fuel .none none (.next .onFailure :: finishWord d done) rest
        | '&', '&' :: rest =>
          tokens fuel .none none (.next .onSuccess :: finishWord d done) rest
        | '|', rest => tokens fuel .none none (.pipe :: finishWord d done) rest
        | '>', '>' :: rest => tokens fuel .none none (redirectToken d .append 1 done) rest
        | '>', '&' :: rest => tokens fuel .none none (redirectToken d .duplicate 1 done) rest
        | '>', rest => tokens fuel .none none (redirectToken d .write 1 done) rest
        | '<', '&' :: rest => tokens fuel .none none (redirectToken d .duplicate 0 done) rest
        | '<', rest => tokens fuel .none none (redirectToken d .read 0 done) rest
        | c, rest => tokens fuel .none (push c) done rest

def Command.empty : Command := ⟨[], []⟩

def finishStatement (condition : Condition) (pipeline : List Command) (c : Command)
    (done : List Statement) : List Statement :=
  if pipeline = [] ∧ c = .empty then done else ⟨condition, (c :: pipeline).reverse⟩ :: done

def statements (condition : Condition) (pipeline : List Command) (c : Command)
    (done : List Statement) : List Token → Option Script
  | [] => some (finishStatement condition pipeline c done).reverse
  | .word w :: ts => statements condition pipeline { c with words := c.words ++ [w] } done ts
  | .redirect n mode :: .word w :: ts =>
    statements condition pipeline { c with redirections := c.redirections ++ [⟨n, mode, w⟩] }
      done ts
  | .redirect _ _ :: _ => none
  | .pipe :: ts => statements condition (c :: pipeline) .empty done ts
  | .next following :: ts =>
    statements following [] .empty (finishStatement condition pipeline c done) ts

def Script.ofBytes? (bytes : List UInt8) : Option Script := do
  let cs := bytes.map fun b => Char.ofNat b.toNat
  statements .always [] .empty [] (← tokens cs.length .none none [] cs)

end Attestation.Shell
