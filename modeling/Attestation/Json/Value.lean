import Attestation.Json.Tree
import Attestation.Number.Shortest
import Attestation.Table

namespace Attestation.Json

inductive Value where
  | null
  | bool (b : Bool)
  | number (n : Number)
  | string (s : String)
  | array (items : List Value)
  | object (members : List (String × Value))
  deriving Repr, BEq, Inhabited

def Number.text : Number → String
  | .nat n => toString n.toNat
  | .negSucc n => "-" ++ toString (n.val + 1)
  | .float x => x.text

namespace Value

def ofNat (n : UInt64) : Value := .number (.nat n)

mutual

def sorted : Value → Value
  | .array vs => .array (sortedItems vs)
  | .object ms => .object (Table.ofList (sortedMembers ms))
  | v => v

def sortedItems : List Value → List Value
  | [] => []
  | v :: vs => v.sorted :: sortedItems vs

def sortedMembers : List (String × Value) → List (String × Value)
  | [] => []
  | (k, v) :: ms => (k, v.sorted) :: sortedMembers ms

end

/-- The value of the last member with the key. -/
def get? (members : List (String × Value)) (k : String) : Option Value :=
  (members.reverse.find? (·.1 = k)).map (·.2)

def unicodeEscape (c : Char) : List Char :=
  ['\\', 'u', '0', '0', Nat.digitChar (c.toNat / 16), Nat.digitChar (c.toNat % 16)]

def escapedChar (c : Char) : List Char :=
  match c with
  | '"' => ['\\', '"']
  | '\\' => ['\\', '\\']
  | '\x08' => ['\\', 'b']
  | '\x0c' => ['\\', 'f']
  | '\n' => ['\\', 'n']
  | '\r' => ['\\', 'r']
  | '\t' => ['\\', 't']
  | c => if c.toNat < 0x20 then unicodeEscape c else [c]

def renderString (s : String) : List Char :=
  '"' :: (s.toList.flatMap escapedChar ++ ['"'])

mutual

def render : Value → List Char
  | .null => ['n', 'u', 'l', 'l']
  | .bool true => ['t', 'r', 'u', 'e']
  | .bool false => ['f', 'a', 'l', 's', 'e']
  | .number n => n.text.toList
  | .string s => renderString s
  | .array vs => '[' :: (renderItems vs ++ [']'])
  | .object ms => '\x7b' :: (renderMembers ms ++ ['\x7d'])

def renderItems : List Value → List Char
  | [] => []
  | [v] => v.render
  | v :: vs => v.render ++ ',' :: renderItems vs

def renderMembers : List (String × Value) → List Char
  | [] => []
  | [(k, v)] => renderString k ++ ':' :: v.render
  | (k, v) :: ms => renderString k ++ ':' :: (v.render ++ ',' :: renderMembers ms)

end

def text (v : Value) : String := String.ofList v.render

mutual

def toTree : Value → Tree
  | .null => .null
  | .bool b => .bool b
  | .number n => .number (some n)
  | .string s => .string (some s)
  | .array vs => .array (treesOf vs) true
  | .object ms => .object (memberTreesOf ms) true

def treesOf : List Value → List Tree
  | [] => []
  | v :: vs => v.toTree :: treesOf vs

def memberTreesOf : List (String × Value) → List (Option String × Tree)
  | [] => []
  | (k, v) :: ms => (some k, v.toTree) :: memberTreesOf ms

end

end Value

end Attestation.Json
