import Attestation.Compositor.Clock
import Attestation.Location
import Attestation.Plugin.Loader
import Attestation.Plugin.Process

namespace Attestation.Plugin

structure File where
  path : String
  directory : Bool
  content : List UInt8
  mode : Nat
  deriving Repr, DecidableEq

def File.location (f : File) : Location := .ofPath f.path

structure Save where
  time : Nat
  path : String
  append : Bool
  bytes : List UInt8
  deriving Repr, DecidableEq

/-- Milliseconds until a process notices something. So whoever sends several requests at once has
sent them all before the first is answered. -/
def latency : Nat := 1

/-- A call that has been made: its number, when it was made, and the error of a request that could
not be sent. -/
structure Sent where
  id : UInt64
  time : Nat
  failure : Option Error
  deriving Repr, DecidableEq

structure Child where
  path : String
  process : Process
  arrivals : List Arrival
  saves : List Save
  closed : Bool
  exited : Option Nat
  stopped : Option Nat
  nextId : UInt64
  channel : Channel

namespace Child

def observe (c : Child) (time : Nat) : Shell.Event → Child
  | .output bytes => { c with arrivals := c.arrivals ++ [(time, some bytes)] }
  | .close => { c with arrivals := c.arrivals ++ [(time, none)], closed := true }
  | .save path append bytes => { c with saves := c.saves ++ [⟨time, path, append, bytes⟩] }
  | .exit =>
    let arrivals := if c.closed then c.arrivals else c.arrivals ++ [(time, none)]
    { c with arrivals := arrivals, closed := true, exited := some time }

def follow (c : Child) (x : Process.Ran) : Child :=
  { x.2.foldl (fun c (time, e) => c.observe time e) c with process := x.1 }

def start (path : String) (x : Process.Ran) : Child :=
  follow ⟨path, x.1, [], [], false, none, none, 1, .start⟩ x

def ended (c : Child) (now : Nat) : Bool := c.exited.any (· ≤ now) || c.stopped.any (· ≤ now)

def visible (c : Child) : List Arrival :=
  match c.stopped with
  | none => c.arrivals
  | some time =>
    let before := c.arrivals.filter (·.1 ≤ time)
    if before.any (·.2.isNone) then before else before ++ [(time, none)]

def stop (c : Child) (now : Nat) : Child :=
  if c.stopped.isSome then c
  else
    let c := { c with stopped := some now }
    { c with arrivals := c.visible, saves := c.saves.filter (·.time ≤ now) }

/-- Sends a request under the next number. To a process that has ended nothing can be sent. -/
def send (now : Nat) (q : Query) (c : Child) : Sent × Child :=
  let id := c.nextId
  let c := { c with nextId := id + 1 }
  if c.ended now then (⟨id, now, some (.io SystemError.brokenPipe.text)⟩, c)
  else (⟨id, now, none⟩, c.follow (c.process.deliver (now + latency) (requestLine id q)))

def next (c : Child) (now : Nat) : Option (Nat × Option Frame × Child) :=
  (c.channel.next now c.visible).map fun (time, f, channel, arrivals) =>
    (time, f, { c with channel := channel, arrivals := arrivals })

def frameBound (c : Child) : Nat :=
  c.arrivals.foldl (fun n a => n + 2 + (a.2.getD []).length) (c.channel.buffer.length + 3)

/-- Reads until a frame settles the call with the number. The fuel bounds the frames. -/
def settle (id : UInt64) : Nat → Nat → Child → Option (Nat × Except Error Json.Value × Child)
  | 0, _, _ => none
  | fuel + 1, now, c =>
    match c.next now with
    | none => none
    | some (time, f, c) =>
      match judge c.path id f with
      | .skip => settle id fuel time c
      | .settled outcome => some (time, outcome, c)

def skip (id : UInt64) (now : Nat) : Nat → Child → Child
  | 0, c => c
  | fuel + 1, c =>
    match c.next 0 with
    | none => c
    | some (time, f, after) =>
      match judge c.path id f with
      | .skip => if time ≤ now then skip id now fuel after else c
      | .settled _ => c

end Child

/-- The children are found by the paths of their files. -/
structure Host where
  files : List File
  children : List (String × Child)

namespace Host

def child? (h : Host) (path : String) : Option Child :=
  (h.children.find? (·.1 = path)).map (·.2)

def setChild (h : Host) (path : String) (c : Child) : Host :=
  { h with children := h.children.map fun m => if m.1 = path then (path, c) else m }

/-- What a path leads to. A directory is there if it was made, or if something lies in it. -/
inductive Node where
  | file (f : File)
  | directory
  deriving Repr, DecidableEq

def look (h : Host) (path : String) : Except SystemError Node :=
  let location := Location.ofPath path
  if path = "" then .error .notFound
  else match h.files.find? fun f => f.location = location && !f.directory with
    | some f => if path.endsWith "/" then .error .notDirectory else .ok (.file f)
    | none =>
      if h.files.any fun f => f.location = location || location.holds f.location then .ok .directory
      else if h.files.any fun f => !f.directory && f.location.holds location then
        .error .notDirectory
      else .error .notFound

def entryOf? (directory : Location) (f : File) : Option Entry :=
  match f.location.names.getLast? with
  | some name => if directory.child name = f.location then some ⟨name, !f.directory⟩ else none
  | none => none

def list (h : Host) (directory : String) : Except SystemError (List Entry) :=
  match h.look directory with
  | .error e => .error e
  | .ok (.file _) => .error .notDirectory
  | .ok .directory => .ok (h.files.filterMap (entryOf? (Location.ofPath directory)))

def read (h : Host) (path : String) : Except SystemError (List UInt8) :=
  match h.look path with
  | .error e => .error e
  | .ok (.file f) => .ok f.content
  | .ok .directory => .error .isDirectory

def interpreters : List String := ["/bin/sh", "/usr/bin/sh", "/bin/bash", "/usr/bin/env"]

def interpreter? (content : List UInt8) : Option String :=
  match content with
  | 0x23 :: 0x21 :: rest =>
    let line := Text.Utf8.decodeLossy (rest.takeWhile (· ≠ 0x0A))
    some (String.ofList ((Text.dropBlanks line.toList).takeWhile fun c => c ≠ ' ' && c ≠ '\t'))
  | _ => none

def environment : List (String × String) :=
  [launchMark, ("RATSD_PLUGIN_PROTOCOL_VERSION", toString Handshake.current.appVersion.toNat)]

def launch (h : Host) (path : String) (now : Nat) : Except SystemError Shell.Machine :=
  match h.look path with
  | .error e => .error e
  | .ok .directory => .error .denied
  | .ok (.file f) =>
    if f.mode &&& 0o111 = 0 then .error .denied
    else match interpreter? f.content with
      | none => .error .badFormat
      | some program =>
        if program ∈ interpreters then
          .ok (.start path environment ((Shell.Script.ofBytes? f.content).getD []) (now + latency))
        else .error .notFound

def start (h : Host) (path : String) (now : Nat) : Except SystemError Host :=
  (h.launch path now).map fun m => { h with
    children := h.children ++ [(path, .start path (Process.ofMachine m))] }

def stop (h : Host) (path : String) (now : Nat) : Host :=
  match h.child? path with
  | some c => h.setChild path (c.stop now)
  | none => h

def send (now : Nat) (path : String) (q : Query) (h : Host) : Sent × Host :=
  match h.child? path with
  | none => (⟨0, now, some (.io SystemError.brokenPipe.text)⟩, h)
  | some c =>
    let (s, c) := c.send now q
    (s, h.setChild path c)

def receive (path : String) (q : Query) (s : Sent) (h : Host) : Option (Nat × q.Answer × Host) :=
  match s.failure, h.child? path with
  | some e, _ => some (s.time, answerOf q (.error e), h)
  | none, none => none
  | none, some c =>
    (c.settle s.id c.frameBound s.time).map fun (time, outcome, c) =>
      (time, answerOf q outcome, h.setChild path c)

def abandon (now : Nat) (path : String) (s : Sent) (h : Host) : Host :=
  match h.child? path with
  | none => h
  | some c => h.setChild path (c.skip s.id now c.frameBound)

def world : Compositor.World Host String Sent := ⟨send, receive, abandon⟩

abbrev Time := Compositor.Clock Host String Sent

def greet (path : String) (timeout : Nat) : StateM Time Greeting := do
  let t ← get
  let late : StateM Time Greeting := do
    set { t with now := t.now + timeout }
    return .late
  match (t.world.child? path).bind fun c => c.next t.now with
  | none => late
  | some (time, f, c) =>
    if t.now + timeout < time then late
    else
      set { t with now := time, world := t.world.setChild path c }
      return match f with
        | some f => .frame f
        | none => .ended

/-- Does what the loader asks for; nothing if a plugin never answers. -/
def perform : (a : Action) → OptionT (StateM Time) a.Reply
  | .list directory => do return (← get).world.list directory
  | .read path => do return (← get).world.read path
  | .start path => do
    let t ← get
    match t.world.start path t.now with
    | .error e => return .error e
    | .ok h =>
      set { t with world := h }
      return .ok ()
  | .greet path timeout => OptionT.lift (greet path timeout)
  | .identify path => Compositor.Clock.query world none path .identity
  | .stop path => modify fun t => { t with world := t.world.stop path t.now }

def runLoad {α : Type} (x : Load α) : OptionT (StateM Time) α := x.run perform

def runner : Compositor.Runner (StateM Time) String := Compositor.Clock.run world

def saves (h : Host) : List Save :=
  (h.children.flatMap (·.2.saves)).mergeSort fun a b => a.time ≤ b.time

def contentOf? (h : Host) (path : String) : Option (List UInt8) :=
  h.saves.foldl (fun content s =>
    if Location.ofPath s.path ≠ Location.ofPath path then content
    else if s.append then some (content.getD [] ++ s.bytes)
    else some s.bytes) ((h.read path).toOption)

end Host

end Attestation.Plugin
