import Attestation.Json.Number

namespace Attestation.Json

/-- A document as far as it could be read: `broken` stands for what should have followed. A number
that is too large and a string that is no Unicode text spoil a value that is used, but not one that
is skipped. -/
inductive Tree where
  | null
  | bool (b : Bool)
  | number (n : Option Number)
  | string (s : Option String)
  | array (items : List Tree) (closed : Bool)
  | object (members : List (Option String × Tree)) (closed : Bool)
  | broken
  deriving Repr, BEq, Inhabited

namespace Tree

mutual

def intact : Tree → Bool
  | .array items closed => allIntact items && closed
  | .object members closed => membersIntact members && closed
  | .broken => false
  | _ => true

def allIntact : List Tree → Bool
  | [] => true
  | t :: ts => t.intact && allIntact ts

def membersIntact : List (Option String × Tree) → Bool
  | [] => true
  | (_, t) :: ms => t.intact && membersIntact ms

end

end Tree

structure Document where
  tree : Tree
  ended : Bool
  deriving Repr, BEq, Inhabited

end Attestation.Json
