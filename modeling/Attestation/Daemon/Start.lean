import Attestation.Daemon.Address
import Attestation.Daemon.Command
import Attestation.Http.App
import Attestation.Mock
import Attestation.Plugin.Loader
import Attestation.Settings.Load
import Attestation.Tls

namespace Attestation.Daemon

inductive Presence where
  | absent
  | file
  | directory
  deriving Repr, DecidableEq

inductive Action where
  | look (path : String)
  | read (path : String)
  | plugin (a : Plugin.Action)
  | listen (a : Address)
  deriving Repr, DecidableEq

@[reducible] def Action.Reply : Action → Type
  | .look _ => Presence
  | .read _ => Except SystemError (List UInt8)
  | .plugin a => a.Reply
  | .listen _ => Except Address.Error Unit

inductive StartError where
  | settings (e : Settings.LoadError)
  | logging (e : Logging.Error)
  | unreadableEvidence (path : String) (e : SystemError)
  | invalidEvidence (path : String) (e : Mock.Error)
  | checksums (e : Plugin.Error)
  | plugins (directory : String) (e : Plugin.Error)
  | users (e : Http.InvalidUser)
  | listen (address : String) (e : Address.Error)
  | tls (e : Tls.Error)
  deriving Repr, DecidableEq

/-- What is said of a failure, from the outermost message to its cause. -/
def StartError.messages : StartError → List String
  | .settings e => e.messages
  | .logging e => [e.message]
  | .unreadableEvidence path e => [s!"failed to read mock evidence {path}", e.text]
  | .invalidEvidence path e => [s!"invalid mock evidence {path}", e.message]
  | .checksums e => "invalid plugin checksum table" :: e.message :: e.causes
  | .plugins directory e => s!"failed to load plugins from {directory}" :: e.message :: e.causes
  | .users e => ["failed to set up auth", e.message, e.reason.message]
  | .listen address e => [s!"failed to bind {address}", e.message]
  | .tls e => ["failed to configure TLS", e.message]

inductive Attesters where
  | plugins (m : Plugin.Manager)
  | canned (attesters : Mock.Attesters)
  deriving Repr, DecidableEq

structure Ready where
  settings : Settings
  attesters : Attesters
  authorizer : Http.Authorizer
  identity : Option Tls.ServerIdentity
  deriving Repr, DecidableEq

abbrev Start (α : Type) := ExceptT StartError (Dialogue Action.Reply) α

def request (a : Action) : Start a.Reply := ExceptT.mk (.ask a fun r => .done (.ok r))

def orFail {ε α : Type} (f : ε → StartError) (x : Except ε α) : Start α :=
  ExceptT.mk (.done (x.mapError f))

def defaultFile : String := "ratsd.toml"

/-- A file that is named must be there. A directory in its place holds no settings. -/
def source (named : Option String) : Start Settings.Source := do
  let path := named.getD defaultFile
  match ← request (.look path) with
  | .absent => return if named.isSome then .missing path else .none
  | .directory => return .none
  | .file =>
    match ← request (.read path) with
    | .ok bytes => return .file bytes
    | .error _ => throw (.settings .notToml)

def loadPlugins (s : Settings) : Start Plugin.Manager := do
  let plain : Plugin.Loader := ⟨s.pluginDirectory, s.handshakeTimeout.toNat * 1000, none⟩
  let l ← if s.secureLoader then orFail .checksums (plain.setChecksums s.plugins) else pure plain
  let loaded : Dialogue Action.Reply (Except Plugin.Error Plugin.Plugins) :=
    l.discover.run fun a => Dialogue.question (Q := Action) (.plugin a)
  let plugins ← orFail (.plugins s.pluginDirectory) (← ExceptT.lift loaded)
  return .ofPlugins plugins

def loadEvidence (path : String) : Start Mock.Attesters := do
  let bytes ← orFail (.unreadableEvidence path) (← request (.read path))
  orFail (.invalidEvidence path) (Mock.ofJson bytes)

def attesters (s : Settings) : Origin → Start Attesters
  | .plugins => .plugins <$> loadPlugins s
  | .file path => .canned <$> loadEvidence path

def file (path : String) : Start Tls.File := do return ⟨path, ← request (.read path)⟩

def identity (s : Settings) : Start (Option Tls.ServerIdentity) :=
  match s.protocol, s.certificate, s.certificateKey with
  | .https, some certificate, some key => do
    let c ← file certificate
    let k ← file key
    some <$> orFail .tls (Tls.ServerIdentity.ofFiles c k)
  | _, _, _ => return none

def listen (address : String) : Start Unit := do
  let a ← orFail (.listen address) (Address.ofText address)
  orFail (.listen address) (← request (.listen a))

/-- Starts the daemon with a configuration file, the environment, and an origin of evidence. The
first failure ends the start: of the settings, the logging, the attesters, the users, the address,
the certificates, in this order. -/
def start (configuration : Option String) (environment : List (String × String)) (origin : Origin) :
    Start Ready := do
  let s ← orFail .settings (Settings.load (← source configuration) environment)
  orFail .logging (Logging.start s.logging.level)
  let as ← attesters s origin
  let authorizer ← orFail .users (Http.Authorizer.ofAccess s.access)
  listen s.listenAddress
  return ⟨s, as, authorizer, ← identity s⟩

inductive Outcome where
  | misuse
  | help
  | version
  | failed (e : StartError)
  | ready (r : Ready)
  deriving Repr, DecidableEq

def release : String := "0.1.0"

def usage : String :=
  "Compose attestation evidence from sub-attester plugins\n" ++
  "\n" ++
  "Usage: ratsd [OPTIONS] [COMMAND]\n" ++
  "\n" ++
  "Commands:\n" ++
  "  serve  Load plugins from the plugin directory and serve (default)\n" ++
  "  mock   Serve canned evidence from a JSON file instead of plugins\n" ++
  "  help   Print this message or the help of the given subcommand(s)\n" ++
  "\n" ++
  "Options:\n" ++
  "      --config <CONFIG>  Path to the TOML configuration " ++
  "(defaults to ./ratsd.toml when present) [env: RATSD_CONFIG=]\n" ++
  "  -h, --help             Print help\n" ++
  "  -V, --version          Print version\n"

namespace Outcome

def code : Outcome → UInt8
  | .misuse => 2
  | .failed _ => 1
  | .help | .version | .ready _ => 0

def output : Outcome → String
  | .help => usage
  | .version => s!"ratsd {release}\n"
  | _ => ""

def messages : Outcome → List String
  | .failed e => e.messages
  | _ => []

def causeLines : List String → List String
  | [] => []
  | [cause] => ["", "Caused by:", s!"    {cause}"]
  | causes => "" :: "Caused by:" :: causes.zipIdx.map fun (cause, i) => s!"    {i}: {cause}"

def errors (o : Outcome) : String :=
  match o, o.messages with
  | .misuse, _ => usage
  | _, message :: causes =>
    String.join ((s!"Error: {message}" :: causeLines causes).map (· ++ "\n"))
  | _, [] => ""

end Outcome

def configurationVariable : String := "RATSD_CONFIG"

def run (words : List String) (environment : List (String × String)) :
    Dialogue Action.Reply Outcome := do
  match Command.ofWords words (Table.find? environment.reverse configurationVariable) with
  | none => return .misuse
  | some .help => return .help
  | some .version => return .version
  | some (.start configuration origin) =>
    match ← (start configuration environment origin).run with
    | .ok r => return .ready r
    | .error e => return .failed e

end Attestation.Daemon
