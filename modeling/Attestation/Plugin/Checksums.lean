import Attestation.Hex
import Attestation.Plugin.Error
import Attestation.Sha256
import Attestation.Table
import Attestation.Text.Utf8

namespace Attestation.Plugin

abbrev Checksums := List (String × List UInt8)

namespace Checksums

def digestSize : Nat := 32

def digest (name text : String) : Except Error (List UInt8) :=
  match Hex.decode (Text.Utf8.encode (Text.trim text)) with
  | .error e => .error (.invalidChecksum name e.message)
  | .ok bytes =>
    if bytes.length = digestSize then .ok bytes
    else .error (.invalidChecksum name s!"expected {digestSize} bytes, got {bytes.length}")

/-- The table of all pairs, the last one of a name; or the fault of the first bad one. -/
def ofPairs (pairs : List (String × String)) : Except Error Checksums := do
  let digests ← pairs.mapM fun (name, text) => do return (name, ← digest name text)
  return Table.ofList digests

def check (table : Checksums) (name path : String) (content : List UInt8) : Except Error Unit :=
  match Table.find? table name with
  | none => .error (.unregistered name path)
  | some expected =>
    if Sha256.hash content = expected then .ok () else .error (.checksumMismatch name path)

end Checksums

end Attestation.Plugin
