import Attestation.Text.Utf8

namespace Attestation.Http

structure Request where
  method : String
  target : String
  headers : List (String × List UInt8)
  body : List UInt8
  deriving Repr, DecidableEq

structure Response where
  status : UInt16
  headers : List (String × String)
  body : String
  deriving Repr, DecidableEq

/-- The value of a header, under its name in lower case; of several headers of a name the first one
counts. -/
def header? (headers : List (String × List UInt8)) (name : String) : Option (List UInt8) :=
  (headers.find? (·.1.map Char.toLower = name)).map (·.2)

/-- A byte that may stand in the text of a header: visible ASCII, space or tab. -/
def isVisible (b : UInt8) : Bool := (32 ≤ b && b < 127) || b == 9

def visibleText? (value : List UInt8) : Option String :=
  if value.all isVisible then some (String.ofList (value.map fun b => Char.ofNat b.toNat))
  else none

def headerText? (headers : List (String × List UInt8)) (name : String) : Option String :=
  (header? headers name).bind visibleText?

def endsPath (c : Char) : Bool := c == '?' || c == '#'

def afterScheme? : List Char → Option (List Char)
  | ':' :: '/' :: '/' :: rest => some rest
  | _ :: rest => afterScheme? rest
  | [] => none

/-- The path of a target: of an absolute one that which follows the host, at least a slash. A
target that is a host alone has an empty path. -/
def pathOf (target : List Char) : List Char :=
  if target.head? = some '/' ∨ target.head? = some '*' then
    target.takeWhile (!endsPath ·)
  else match afterScheme? target with
    | none => []
    | some rest =>
      match (rest.dropWhile fun c => c != '/' && !endsPath c).takeWhile (!endsPath ·) with
      | [] => ['/']
      | path => path

def Request.path (r : Request) : String := String.ofList (pathOf r.target.toList)

namespace Response

def withHeader (r : Response) (name value : String) : Response :=
  { r with headers := r.headers ++ [(name, value)] }

def measured (r : Response) : Response :=
  r.withHeader "content-length" (toString r.body.utf8ByteSize)

def withoutBody (r : Response) : Response := { r with body := "" }

end Response

end Attestation.Http
