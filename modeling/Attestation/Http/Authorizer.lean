import Attestation.Bcrypt
import Attestation.Http.Message
import Attestation.Problem
import Attestation.Settings.Access
import Attestation.Text.Blank
import Attestation.Text.Quoted

namespace Attestation.Http

inductive Authorizer where
  | everyone
  | listed (table : List (String × String))
  deriving Repr, DecidableEq

structure InvalidUser where
  name : String
  reason : Bcrypt.Error
  deriving Repr, DecidableEq

def InvalidUser.message (u : InvalidUser) : String :=
  s!"invalid user {Text.quoted u.name}: password is not a bcrypt hash"

namespace Authorizer

def invalidUser? : List (String × String) → Option InvalidUser
  | [] => none
  | (name, hash) :: rest =>
    match Bcrypt.Hash.parse hash with
    | .ok _ => invalidUser? rest
    | .error e => some ⟨name, e⟩

/-- Admits users; the last hash of a name counts. -/
def ofUsers (users : List (String × String)) : Except InvalidUser Authorizer :=
  match invalidUser? users with
  | some u => .error u
  | none => .ok (.listed (Table.ofList users))

def ofAccess : Access → Except InvalidUser Authorizer
  | .none | .passthrough => .ok .everyone
  | .basic users => ofUsers users

def splitFirst? (c : Char) (cs : List Char) : Option (List Char × List Char) :=
  match cs.dropWhile (· != c) with
  | [] => none
  | _ :: rest => some (cs.takeWhile (· != c), rest)

/-- The user and the password that a request names: base64 behind the word "Basic", with a colon
between the two. -/
def credentials? (headers : List (String × List UInt8)) : Option (String × String) := do
  let value ← headerText? headers "authorization"
  let (scheme, encoded) ← splitFirst? ' ' value.toList
  if scheme.map Char.toLower ≠ "basic".toList then none
  let encoded := Text.Utf8.encode (Text.trim (String.ofList encoded))
  let decoded ← Text.Utf8.decode? (← (Base64.decode Base64.standard encoded).toOption)
  let (user, password) ← splitFirst? ':' decoded.toList
  return (String.ofList user, String.ofList password)

def authorize (a : Authorizer) (headers : List (String × List UInt8)) : Except Problem Unit :=
  match a with
  | .everyone => .ok ()
  | .listed table =>
    match credentials? headers with
    | none => .error (.unauthorized "no Basic Authorization given")
    | some (user, password) =>
      match Table.find? table user with
      | none => .error (.unauthorized s!"no such user: {user}")
      | some hash =>
        if Bcrypt.verify password hash = some true then .ok ()
        else .error (.unauthorized "wrong username or password")

end Authorizer

end Attestation.Http
