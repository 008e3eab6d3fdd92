import Attestation.Hex
import Attestation.Report
import Attestation.Tsm.Error

namespace Attestation.Tsm

structure ReportRequest where
  inBlob : List UInt8
  privilegeLevel : UInt32
  wantsAuxBlob : Bool
  deriving Repr, DecidableEq

/-- Reports that a backend gives need not be valid. -/
structure Backend (m : Type → Type) where
  available : m (Except Error Unit)
  report : ReportRequest → m (Except Error Report)

namespace Backend

/-- The report of `echo`: its report blob names the privilege level and the input blob. -/
def echoReport (r : ReportRequest) : Report where
  provider := "fake\n"
  serviceProvider := none
  outBlob := Text.Utf8.encode
    s!"privlevel: {r.privilegeLevel.toNat}\ninblob: {Hex.encode r.inBlob}"
  auxBlob := if r.wantsAuxBlob then Text.Utf8.encode "auxblob" else []
  manifestBlob := none

def echo : Backend Id where
  available := .ok ()
  report r := .ok (echoReport r)

end Backend

end Attestation.Tsm
