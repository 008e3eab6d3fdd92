import Attestation.SystemError
import Attestation.Text.Numeral

namespace Attestation.Daemon

structure Address where
  host : String
  port : UInt16
  deriving Repr, DecidableEq

inductive Address.Error where
  | noPort
  | badPort
  | unknownHost
  | system (e : SystemError)
  deriving Repr, DecidableEq

namespace Address

def Error.message : Error → String
  | .noPort => "invalid socket address"
  | .badPort => "invalid port value"
  | .unknownHost => "failed to lookup address information: Name or service not known"
  | .system e => e.text

/-- The port stands behind the last colon. -/
def ofText (text : String) : Except Error Address :=
  let cs := text.toList.reverse
  match cs.dropWhile (· ≠ ':') with
  | [] => .error .noPort
  | _ :: host =>
    match Text.natBelow? UInt16.size (String.ofList (cs.takeWhile (· ≠ ':')).reverse) with
    | some port => .ok ⟨String.ofList host.reverse, UInt16.ofNat port⟩
    | none => .error .badPort

def octet? (cs : List Char) : Option Nat :=
  match Text.natBelow? 256 (String.ofList cs) with
  | some n => if (toString n).toList = cs then some n else none
  | none => none

def octets? (host : String) : Option (List Nat) :=
  match (host.toList.splitOn '.').mapM octet? with
  | some [p, q, r, s] => some [p, q, r, s]
  | _ => none

/-- Whether a machine that knows nothing but itself can listen at an address. -/
def checkLocal (a : Address) : Except Error Unit :=
  match octets? a.host with
  | some ns =>
    if ns.head? = some 127 ∨ ns = [0, 0, 0, 0] then .ok ()
    else .error (.system .addressNotAvailable)
  | none =>
    if a.host ∈ ["localhost", "[::1]", "[::]"] then .ok () else .error .unknownHost

end Address

end Attestation.Daemon
