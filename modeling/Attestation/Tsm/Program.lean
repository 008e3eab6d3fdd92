import Attestation.Rpc.Server
import Attestation.Tsm.Attester

namespace Attestation.Tsm

structure Exit where
  code : UInt8
  output : List (List Char)
  errors : String
  deriving Repr, DecidableEq

def notice (service : String) : String :=
  s!"{service} is a ratsd plugin and is not meant to be executed directly.\n" ++
    s!"Install it as {service}.plugin in the ratsd plugin directory.\n"

structure Program where
  profile : Profile
  backend : Backend Id

namespace Program

def mock : Program := ⟨.mock, .echo⟩

def reportRoot : String := "/sys/kernel/config/tsm/report"

/-- The program with reports of the platform, where there are none. -/
def withoutReports : Program :=
  ⟨.platform, ⟨.error (.unavailable reportRoot), fun _ => .error (.unavailable reportRoot)⟩⟩

def run (p : Program) (environment : List (String × String)) (input : List UInt8) : Exit :=
  if Plugin.isLaunched environment then
    match Rpc.serve (p.profile.subAttester p.backend) input with
    | (lines, .ok ()) => ⟨0, lines, ""⟩
    | (lines, .error _) => ⟨1, lines, ""⟩
  else ⟨1, [], notice p.profile.name⟩

end Program

end Attestation.Tsm
