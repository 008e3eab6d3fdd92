import Attestation.Compositor
import Attestation.Plugin.Checksums
import Attestation.Plugin.Client
import Attestation.SystemError

namespace Attestation.Plugin

structure Entry where
  name : String
  regular : Bool
  deriving Repr, DecidableEq

/-- What the loader does. A plugin is addressed by its path. -/
inductive Action where
  | list (directory : String)
  | read (path : String)
  | start (path : String)
  | greet (path : String) (timeout : Nat)
  | identify (path : String)
  | stop (path : String)
  deriving Repr, DecidableEq

@[reducible] def Action.Reply : Action → Type
  | .list _ => Except SystemError (List Entry)
  | .read _ => Except SystemError (List UInt8)
  | .start _ => Except SystemError Unit
  | .greet _ _ => Greeting
  | .identify _ => IdentityAnswer
  | .stop _ => Unit

abbrev Load (α : Type) := Dialogue Action.Reply α

abbrev Stage (α : Type) := ExceptT Error (Dialogue Action.Reply) α

def request (a : Action) : Stage a.Reply := ExceptT.mk (.ask a fun r => .done (.ok r))

def extension : String := "plugin"

/-- The name of a file before its last point, and behind it. A point in front is no such point. -/
def splitExtension? (name : String) : Option (String × String) :=
  let cs := name.toList.reverse
  match cs.dropWhile (· ≠ '.') with
  | '.' :: c :: stem =>
    some (String.ofList (c :: stem).reverse, String.ofList (cs.takeWhile (· ≠ '.')).reverse)
  | _ => none

structure Candidate where
  name : String
  stem : String
  path : String
  deriving Repr, DecidableEq

def Candidate.ofEntry? (directory : String) (e : Entry) : Option Candidate :=
  match splitExtension? e.name with
  | some (stem, ext) =>
    if e.regular ∧ ext = extension then
      let path := if directory.endsWith "/" then directory ++ e.name else s!"{directory}/{e.name}"
      some ⟨e.name, stem, path⟩
    else none
  | none => none

def Candidate.ofEntries (directory : String) (entries : List Entry) : List Candidate :=
  (entries.filterMap (Candidate.ofEntry? directory)).mergeSort fun a b => decide (a.name ≤ b.name)

structure Loaded where
  path : String
  identity : Identity
  deriving Repr, DecidableEq

abbrev Plugins := List (String × Loaded)

/-- The plugins that have been loaded, and the paths of those that run. -/
structure Manager where
  plugins : Plugins
  running : List String
  deriving Repr, DecidableEq

namespace Manager

def ofPlugins (plugins : Plugins) : Manager := ⟨plugins, plugins.map (·.2.path)⟩

def names (m : Manager) : List String := m.plugins.map (·.1)

def lookup (m : Manager) (name : String) : Except Error Loaded :=
  match Table.find? m.plugins name with
  | some p => .ok p
  | none => .error (.notFound name)

def registry (m : Manager) : Compositor.Registry String where
  names := m.names
  lookup name := (m.lookup name).map (·.path)

def shutdown (m : Manager) (path : String) : Load Manager :=
  if path ∈ m.running then
    .ask (.stop path) fun _ => .done { m with running := m.running.erase path }
  else .done m

/-- Stops the plugins. They stay registered. -/
def close (m : Manager) : Load Manager := (m.plugins.map (·.2.path)).foldlM shutdown m

end Manager

structure Loader where
  location : String
  handshakeTimeout : Nat
  checksums : Option Checksums
  deriving Repr, DecidableEq

namespace Loader

def defaultTimeout : Nat := 10000

def ofLocation (location : String) : Loader := ⟨location, defaultTimeout, none⟩

/-- Registers checksums, which puts the loader into secure mode, or leaves it as it is. -/
def setChecksums (l : Loader) (pairs : List (String × String)) : Except Error Loader :=
  (Checksums.ofPairs pairs).map fun table => { l with checksums := some table }

def isSecure (l : Loader) : Bool := l.checksums.isSome

def candidates (l : Loader) : Load (Except Error (List Candidate)) :=
  if l.location = "" then .done (.error .notInitialized)
  else .ask (.list l.location) fun
    | .error e => .done (.error (.io e.text))
    | .ok entries => .done (.ok (Candidate.ofEntries l.location entries))

def approve (l : Loader) (c : Candidate) : Stage Unit :=
  match l.checksums with
  | none => return ()
  | some table =>
    match Table.find? table c.stem with
    | none => throw (.unregistered c.stem c.path)
    | some _ => ExceptT.mk (.ask (.read c.path) fun
      | .error e => .done (.error (.io e.text))
      | .ok content => .done (table.check c.stem c.path content))

def identityOf (path : String) (a : IdentityAnswer) : Except Error Identity :=
  match a.status.result, a.identity with
  | true, some i => .ok i
  | _, _ => .error (.identity path
      (if a.status.error = "" then "no identity returned" else a.status.error))

def unique (loaded : Plugins) (path : String) (i : Identity) : Except Error Loaded :=
  match Table.find? loaded i.name with
  | some first => .error (.duplicateName i.name first.path path)
  | none => .ok ⟨path, i⟩

def orStop {α : Type} (path : String) (x : Except Error α) : Stage α :=
  ExceptT.mk (match x with
    | .ok a => .done (.ok a)
    | .error e => .ask (.stop path) fun _ => .done (.error e))

/-- Starts a plugin, and stops it again if it is not one or cannot be registered. -/
def loadOne (l : Loader) (loaded : Plugins) (c : Candidate) : Stage Loaded := do
  l.approve c
  match ← request (.start c.path) with
  | .error e => throw (.spawn c.path e.text)
  | .ok () =>
    let greeting ← request (.greet c.path l.handshakeTimeout)
    orStop c.path (greeting.check c.path)
    let answer ← request (.identify c.path)
    let i ← orStop c.path (identityOf c.path answer)
    orStop c.path (unique loaded c.path i)

def loadAll (l : Loader) (loaded : Plugins) : List Candidate → Load (Except Error Plugins)
  | [] => .done (.ok loaded)
  | c :: cs => do
    match ← (l.loadOne loaded c).run with
    | .ok p => loadAll l (Table.insert p.identity.name p loaded) cs
    | .error (.unknownPlugin _) => loadAll l loaded cs
    | .error e =>
      let _ ← (Manager.ofPlugins loaded).close
      return .error e

/-- Starts every regular file with the extension of plugins, in ascending order of paths. A file
that turns out to be no plugin is stopped and passed over; any other failure ends the load, and
stops all that have been started. -/
def discover (l : Loader) : Load (Except Error Plugins) := do
  match ← l.candidates with
  | .error e => return .error e
  | .ok cs => l.loadAll [] cs

end Loader

end Attestation.Plugin
