namespace Attestation.Text

/-- A line, and whether a line feed ended it. -/
structure Line where
  bytes : List UInt8
  ended : Bool
  deriving Repr, DecidableEq

def splitOnto (done : List Line) (begun : List UInt8) : List UInt8 → List Line
  | [] => (if begun = [] then done else ⟨begun.reverse, false⟩ :: done).reverse
  | b :: rest =>
    if b = 0x0A then splitOnto (⟨begun.reverse, true⟩ :: done) [] rest
    else splitOnto done (b :: begun) rest

def splitLines (bytes : List UInt8) : List Line := splitOnto [] [] bytes

def dropReturn (bytes : List UInt8) : List UInt8 :=
  if bytes.getLast? = some 0x0D then bytes.dropLast else bytes

/-- The text of a line; a carriage return counts as a part of the line feed. -/
def Line.content (l : Line) : List UInt8 := if l.ended then dropReturn l.bytes else l.bytes

def Line.raw (l : Line) : List UInt8 := if l.ended then l.bytes ++ [0x0A] else l.bytes

end Attestation.Text
