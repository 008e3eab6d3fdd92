import Attestation.Table
import Attestation.Text.Blank
import Attestation.Text.Numeral

namespace Attestation.Plugin

structure Handshake where
  coreVersion : UInt32
  appVersion : UInt32
  pluginType : String
  codec : String
  deriving Repr, DecidableEq

namespace Handshake

def current : Handshake := ⟨1, 1, "subattester", "jsonrpc"⟩

def fields (line : List Char) : List (List Char) := line.splitOn '|'

def version? (field : List Char) : Option UInt32 :=
  (Text.natBelow? UInt32.size (String.ofList field)).map UInt32.ofNat

/-- Reads a line, without the blanks around it; it must have four fields and two versions. -/
def parse? (line : String) : Option Handshake :=
  match fields (Text.trim line).toList with
  | [core, app, type, codec] => do
    return ⟨← version? core, ← version? app, String.ofList type, String.ofList codec⟩
  | _ => none

def line (h : Handshake) : String :=
  s!"{h.coreVersion.toNat}|{h.appVersion.toNat}|{h.pluginType}|{h.codec}"

def sameKind (h k : Handshake) : Bool := h.pluginType == k.pluginType && h.codec == k.codec

def sameVersion (h k : Handshake) : Bool :=
  h.coreVersion == k.coreVersion && h.appVersion == k.appVersion

end Handshake

def launchMark : String × String := ("RATSD_PLUGIN", "RATSD")

/-- Whether the variables are those of a plugin; the last one of a name counts. -/
def isLaunched (environment : List (String × String)) : Bool :=
  Table.find? environment.reverse launchMark.1 = some launchMark.2

end Attestation.Plugin
