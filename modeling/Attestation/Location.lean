namespace Attestation

/-- Whether the way starts at the root, and the names on it. -/
structure Location where
  absolute : Bool
  names : List String
  deriving Repr, DecidableEq

namespace Location

def ofPath (path : String) : Location where
  absolute := path.startsWith "/"
  names := (path.splitOn "/").filter fun n => n ≠ "" && n ≠ "."

def child (p : Location) (name : String) : Location := { p with names := p.names ++ [name] }

def holds (p q : Location) : Bool :=
  p.absolute == q.absolute && p.names.isPrefixOf q.names && p.names.length < q.names.length

end Location

end Attestation
