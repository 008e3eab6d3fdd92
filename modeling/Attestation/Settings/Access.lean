import Attestation.Json.Decode
import Attestation.Table

namespace Attestation

open Json (Value Decoder Slot Place Tree Fault Mismatch fault)

/-- The users are given with the hashes of their passwords, in ascending order of names. -/
inductive Access where
  | none
  | passthrough
  | basic (users : List (String × String))
  deriving Repr, DecidableEq, Inhabited

namespace Access

inductive Kind where
  | none
  | passthrough
  | basic
  deriving Repr, DecidableEq

def Kind.names : List (String × Kind) :=
  [("none", .none), ("passthrough", .passthrough), ("basic", .basic)]

def userRecord : Json.Record String where
  name := "BasicUser"
  initial := ""
  slots := [.mandatory "password" .string fun x _ => x]

def basicRecord : Json.Record (List (String × String)) where
  name := "variant AuthConfig::Basic"
  initial := []
  slots := [.optional "users" (.members userRecord.decode) fun x _ => Table.ofList x]

def toMembers : Access → List (String × Value)
  | .none => [("type", .string "none")]
  | .passthrough => [("type", .string "passthrough")]
  | .basic users => [("type", .string "basic"),
      ("users", .object (users.map fun (n, h) => (n, .object [("password", .string h)])))]

def toValue (a : Access) : Value := .object a.toMembers

def kind (t : Tree) : Except Fault Kind :=
  match t with
  | .string (some s) => Decoder.variant Kind.names s
  | _ => Json.unexpected "variant identifier" t

/-- Reads what was set aside, for a rule of the kind. A rule without content takes any object. -/
def ofContent (k : Kind) (p : Place) (content : Tree) : Except Fault Access :=
  let p := { p with origin := .setAside }
  let empty (a : Access) : Except Fault Access :=
    match content with
    | .array (t :: ts) _ =>
      .error (fault (.invalidLength (t :: ts).length "0 elements in sequence"))
    | _ => .ok a
  match k with
  | .none => empty .none
  | .passthrough => empty .passthrough
  | .basic => ((basicRecord.decode p content).map .basic).mapError Fault.atTop

/-- Sets members aside until the end, and reads the tag among them. -/
def tagAmong (p : Place) : Option Kind → List (Option String × Tree) →
    List (Option String × Tree) → Except Fault (Option Kind × List (Option String × Tree))
  | tag, done, [] => .ok (tag, done.reverse)
  | tag, done, (k, t) :: ms => do
    let k ← Decoder.key k
    if k = "type" then
      if tag.isSome then .error (fault (.duplicateField "type"))
      else match kind t with
        | .ok tag => tagAmong p (some tag) done ms
        | .error e => .error (e.under "type")
    else
      let _ ← (Decoder.value p t).mapError Fault.atTop
      tagAmong p tag ((some k, t) :: done) ms

def setAside (p : Place) : List Tree → Except Fault Unit
  | [] => .ok ()
  | t :: ts => do
    let _ ← (Decoder.value p t).mapError Fault.atTop
    setAside p ts

def decode : Decoder Access := fun p t =>
  match t with
  | .object ms closed => do
    let q ← p.inner
    let (tag, content) ← tagAmong q .none [] ms
    let tag ← Decoder.ending closed tag
    match tag with
    | .none => .error (fault (.missingField "type"))
    | some k => ofContent k p (.object content true)
  | .array [] closed => do
    let _ ← p.inner
    Decoder.ending closed ()
    .error (fault (.missingField "type"))
  | .array (tag :: rest) closed => do
    let q ← p.inner
    let k ← kind tag
    setAside q rest
    Decoder.ending closed ()
    ofContent k p (.array rest true)
  | _ => Json.unexpected "internally tagged enum AuthConfig" t

end Access

end Attestation
