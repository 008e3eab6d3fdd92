import Attestation.Daemon.Start
import Attestation.Tsm.Configfs
import Attestation.Tsm.Program

namespace Attestation.Main

/-- Numbers of errors come negative from some calls. -/
def plainNumber (n : UInt32) : Nat := if n < 0x80000000 then n.toNat else (0 - n).toNat

def errorNumber : IO.Error → Nat
  | .alreadyExists _ n _ | .otherError n _ | .resourceBusy n _ | .resourceVanished n _
  | .unsupportedOperation n _ | .hardwareFault n _ | .unsatisfiedConstraints n _
  | .illegalOperation n _ | .protocolError n _ | .timeExpired n _ | .interrupted _ n _
  | .noFileOrDirectory _ n _ | .invalidArgument _ n _ | .permissionDenied _ n _
  | .resourceExhausted _ n _ | .inappropriateType _ n _ | .noSuchThing _ n _ => plainNumber n
  | .unexpectedEof | .userError _ => 5

def attempt {α : Type} (x : IO α) : IO (Except SystemError α) := do
  match ← x.toBaseIO with
  | .ok a => return .ok a
  | .error e => return .error ⟨errorNumber e⟩

def readFile (path : String) : IO (Except SystemError (List UInt8)) := do
  return (← attempt (IO.FS.readBinFile path)).map (·.data.toList)

def presence (path : String) : IO Daemon.Presence := do
  match ← readFile path with
  | .ok _ => return .file
  | .error e => return if e = .isDirectory then .directory else .absent

/-- Loading plugins takes processes. -/
def performPlugin : (a : Plugin.Action) → IO a.Reply
  | .list _ => return .error .notImplemented
  | .read path => readFile path
  | .start _ => return .error .notImplemented
  | .greet _ _ => return .ended
  | .identify path => return Plugin.answerOf .identity (.error (Plugin.closedOutput path))
  | .stop _ => return ()

def performDaemon : (a : Daemon.Action) → IO a.Reply
  | .look path => presence path
  | .read path => readFile path
  | .plugin a => performPlugin a
  | .listen a => return a.checkLocal

def performReport (taken : IO.Ref UInt64) (s : Tsm.Configfs.Site) :
    (a : Tsm.Configfs.Action) → IO a.Reply
  | .look => do return (← presence s.root) = .directory
  | .take => taken.modifyGet fun n => (n, n + 1)
  | .create n => attempt (IO.FS.createDir (s.entryPath n))
  | .write n a value =>
    attempt (IO.FS.writeBinFile (s.entryPath n ++ "/" ++ a.name) ⟨value.toArray⟩)
  | .read n a => readFile (s.entryPath n ++ "/" ++ a.name)
  | .remove n => do
    let _ ← attempt (IO.FS.removeDir (s.entryPath n))

def variableOf (bytes : List UInt8) : String × String :=
  (Text.Utf8.decodeLossy (bytes.takeWhile (· ≠ 0x3D)),
    Text.Utf8.decodeLossy ((bytes.dropWhile (· ≠ 0x3D)).drop 1))

def environment : IO (List (String × String)) := do
  match ← readFile "/proc/self/environ" with
  | .ok bytes => return (bytes.splitOn 0).map variableOf
  | .error _ => return []

/-- The number of the process; zero where it cannot be told. -/
def processNumber : IO Nat := do
  match ← readFile "/proc/self/stat" with
  | .ok bytes =>
    let digits := Text.Utf8.decodeLossy (bytes.takeWhile (· ≠ 0x20))
    return (Text.natBelow? UInt32.size digits).getD 0
  | .error _ => return 0

partial def readLine (input : IO.FS.Stream) (begun : List UInt8) : IO Text.Line := do
  match (← input.read 1).data.toList with
  | [] => return ⟨begun.reverse, false⟩
  | b :: _ => if b = 0x0A then return ⟨begun.reverse, true⟩ else readLine input (b :: begun)

def respond (answer : (q : Query) → IO q.Answer) (line : List UInt8) : IO Rpc.Response := do
  match Rpc.Question.ofLine line with
  | .error refusal => return refusal
  | .ok q => return .ofResult q.id (q.query.answerValue (← answer q.query)).sorted

def write (output : IO.FS.Stream) (cs : List Char) : IO Unit := do
  output.putStr (String.ofList cs)
  output.flush

partial def serve (answer : (q : Query) → IO q.Answer) (input output : IO.FS.Stream) :
    IO UInt32 := do
  let line ← readLine input []
  if line.bytes.isEmpty ∧ ¬ line.ended then return 0
  match Text.Utf8.decode? line.content with
  | none => return 1
  | some s =>
    unless Text.blank s do
      write output (← respond answer line.content).line
    serve answer input output

def runPlugin (p : Tsm.Profile) (answer : (q : Query) → IO q.Answer) : IO UInt32 := do
  if Plugin.isLaunched (← environment) then
    let output ← IO.getStdout
    write output Rpc.handshakeLine
    serve answer (← IO.getStdin) output
  else
    (← IO.getStderr).putStr (Tsm.notice p.name)
    return 1

def runMock : IO UInt32 :=
  let a := Tsm.Profile.mock.subAttester .echo
  runPlugin .mock fun q => return a.answer q

def runReport : IO UInt32 := do
  let taken ← IO.mkRef 0
  let s : Tsm.Configfs.Site := ⟨Tsm.Program.reportRoot, ← processNumber⟩
  runPlugin .platform fun q =>
    (Tsm.Profile.platform.answer (Tsm.Configfs.backend s) q).run (performReport taken s)

def runDaemon (words : List String) : IO UInt32 := do
  let outcome ← (Daemon.run words (← environment)).run performDaemon
  (← IO.getStdout).putStr outcome.output
  (← IO.getStderr).putStr outcome.errors
  return outcome.code.toUInt32

end Attestation.Main

def main (words : List String) : IO UInt32 := do
  match ((toString (← IO.appPath)).splitOn "/").getLast? with
  | some "mock-tsm-plugin" => Attestation.Main.runMock
  | some "tsm-report-plugin" => Attestation.Main.runReport
  | _ => Attestation.Main.runDaemon words
