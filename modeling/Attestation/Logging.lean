import Attestation.Json.Decode
import Attestation.Text.Alphanumeric
import Attestation.Text.Blank
import Attestation.Text.Numeral

namespace Attestation.Logging

open Json (Value Decoder Slot)

inductive Format where
  | text
  | json
  deriving Repr, DecidableEq, Inhabited

namespace Format

def names : List (String × Format) := [("text", .text), ("json", .json)]

def name : Format → String
  | .text => "text"
  | .json => "json"

def toValue (f : Format) : Value := .string f.name

def decode : Decoder Format := .choice names

end Format

structure Settings where
  level : String := "info"
  format : Format := .text
  deriving Repr, DecidableEq, Inhabited

namespace Settings

def toValue (s : Settings) : Value :=
  .object [("level", .string s.level), ("format", s.format.toValue)]

def record : Json.Record Settings where
  name := "LoggingConfig"
  initial := {}
  slots := [
    .optional "level" .string fun x s => { s with level := x },
    .optional "format" Format.decode fun x s => { s with format := x }]

end Settings

inductive Reason where
  | directive
  | level
  deriving Repr, DecidableEq

def Reason.message : Reason → String
  | .directive => "invalid filter directive"
  | .level => "error parsing level filter: expected one of \"off\", \"error\", \"warn\", " ++
    "\"info\", \"debug\", \"trace\", or a number 0-5"

/-- The names of the levels, in any case, from the quietest on. -/
def levels : List String := ["off", "error", "warn", "info", "debug", "trace"]

/-- A level is a number that counts the levels, or a name; nothing at all is one too. -/
def isLevel (s : String) : Bool :=
  s.isEmpty || (Text.natBelow? levels.length s).isSome ||
    levels.contains (s.map Char.toLower)

def startsTarget (c : Char) : Bool := c == '-' || c == ':' || c == '_' || Text.isAlphanumeric c

/-- The level behind the equals sign. It is not found if blanks stand in front of the directive. -/
def checkLevel (indented : Bool) (level : List Char) : Except Reason Unit :=
  if ¬ indented ∧ isLevel (String.ofList level) then .ok () else .error .level

def checkAfterSpan (indented : Bool) (cs : List Char) : Except Reason Unit :=
  match cs with
  | '=' :: level => checkLevel indented level
  | _ => if cs.all Text.isBlank then .ok () else .error .directive

def checkFields (indented : Bool) (begun : List Char) : List Char → Except Reason Unit
  | [] => .error .directive
  | c :: cs =>
    if c = '\x7d' then
      if begun.all Text.isBlank then .error .directive
      else match cs with
        | ']' :: rest => checkAfterSpan indented rest
        | _ => .error .directive
    else checkFields indented (c :: begun) cs

def checkSpan (indented : Bool) : List Char → Except Reason Unit
  | [] => .error .directive
  | c :: cs =>
    if c = ']' then checkAfterSpan indented cs
    else if c = '\x7b' then checkFields indented [] cs
    else checkSpan indented cs

def checkTarget (indented : Bool) : List Char → Except Reason Unit
  | [] => .ok ()
  | '=' :: level => checkLevel indented level
  | '[' :: span => checkSpan indented span
  | _ :: cs => checkTarget indented cs

def checkDirective (directive : List Char) : Except Reason Unit :=
  let indented := directive.head?.any Text.isBlank
  match Text.dropBlanks directive with
  | [] => .error .directive
  | '[' :: span => checkSpan indented span
  | c :: cs => if startsTarget c then checkTarget indented cs else .error .directive

/-- Checks all directives of a level and gives the first reason to refuse one. -/
def check (level : String) : Except Reason Unit :=
  ((level.toList.splitOn ',').filter (!·.isEmpty)).forM checkDirective

structure Error where
  level : String
  reason : Reason
  deriving Repr, DecidableEq

def Error.message (e : Error) : String :=
  s!"invalid log level {Text.quoted e.level}: {e.reason.message}"

def start (level : String) : Except Error Unit :=
  match check level with
  | .ok () => .ok ()
  | .error r => .error ⟨level, r⟩

end Attestation.Logging
