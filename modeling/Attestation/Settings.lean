import Attestation.Bcrypt
import Attestation.Compositor.Settings
import Attestation.Logging
import Attestation.Settings.Access

namespace Attestation

open Json (Value Decoder Slot)

inductive Protocol where
  | http
  | https
  deriving Repr, DecidableEq, Inhabited

namespace Protocol

def names : List (String × Protocol) := [("http", .http), ("https", .https)]

def name : Protocol → String
  | .http => "http"
  | .https => "https"

def toValue (p : Protocol) : Value := .string p.name

def decode : Decoder Protocol := .choice names

end Protocol

/-- Timeouts are in seconds. The plugins are file stems with checksums in ascending order, which
the loader requires in secure mode. -/
structure Settings where
  listenAddress : String := "localhost:8895"
  protocol : Protocol := .http
  certificate : Option String := none
  certificateKey : Option String := none
  pluginDirectory : String := "./plugins"
  listMode : Compositor.ListMode := .all
  secureLoader : Bool := false
  plugins : List (String × String) := []
  fanOut : Compositor.FanOut := .parallel
  requestTimeout : UInt64 := 30
  handshakeTimeout : UInt64 := 10
  access : Access := .none
  logging : Logging.Settings := {}
  deriving Repr, DecidableEq, Inhabited

namespace Settings

def path : Decoder String := fun _ t =>
  match t with
  | .string (some s) => .ok s
  | _ => Json.unexpected "path string" t

def optionalText : Option String → Value
  | some s => .string s
  | none => .null

def toMembers (s : Settings) : List (String × Value) := [
  ("listen_addr", .string s.listenAddress),
  ("protocol", s.protocol.toValue),
  ("cert", optionalText s.certificate),
  ("cert_key", optionalText s.certificateKey),
  ("plugin_dir", .string s.pluginDirectory),
  ("list_options", s.listMode.toValue),
  ("secure_loader", .bool s.secureLoader),
  ("plugins", .object (s.plugins.map fun (n, d) => (n, .string d))),
  ("fan_out", s.fanOut.toValue),
  ("request_timeout_secs", .ofNat s.requestTimeout),
  ("handshake_timeout_secs", .ofNat s.handshakeTimeout),
  ("auth", s.access.toValue),
  ("logging", s.logging.toValue)]

def toValue (s : Settings) : Value := .object s.toMembers

/-- Members that are left out keep their defaults. -/
def record : Json.Record Settings where
  name := "RatsdConfig"
  initial := {}
  slots := [
    .optional "listen_addr" .string fun x s => { s with listenAddress := x },
    .optional "protocol" Protocol.decode fun x s => { s with protocol := x },
    .optional "cert" (.optional path) fun x s => { s with certificate := x },
    .optional "cert_key" (.optional path) fun x s => { s with certificateKey := x },
    .optional "plugin_dir" path fun x s => { s with pluginDirectory := x },
    .optional "list_options" Compositor.ListMode.decode fun x s => { s with listMode := x },
    .optional "secure_loader" .bool fun x s => { s with secureLoader := x },
    .optional "plugins" (.members .string) fun x s => { s with plugins := Table.ofList x },
    .optional "fan_out" Compositor.FanOut.decode fun x s => { s with fanOut := x },
    .optional "request_timeout_secs" (.nat 64)
      fun x s => { s with requestTimeout := UInt64.ofNat x },
    .optional "handshake_timeout_secs" (.nat 64)
      fun x s => { s with handshakeTimeout := UInt64.ofNat x },
    .optional "auth" Access.decode fun x s => { s with access := x },
    .optional "logging" Logging.Settings.record.decode fun x s => { s with logging := x }]

inductive Invalid where
  | noAddress
  | noCertificate
  | noPluginDirectory
  | noRequestTimeout
  | noHandshakeTimeout
  | noChecksums
  | password (user : String) (reason : Bcrypt.Error)
  deriving Repr, DecidableEq

def Invalid.message : Invalid → String
  | .noAddress => "listen_addr cannot be empty"
  | .noCertificate =>
    "both cert and cert_key must be specified when protocol is \"https\""
  | .noPluginDirectory => "plugin_dir cannot be empty"
  | .noRequestTimeout => "request_timeout_secs must be > 0"
  | .noHandshakeTimeout => "handshake_timeout_secs must be > 0"
  | .noChecksums => "secure_loader is enabled but no plugin checksums are configured"
  | .password user _ => s!"password for user {Text.quoted user} is not a bcrypt hash"

def Invalid.causes : Invalid → List String
  | .password _ reason => [reason.message]
  | _ => []

/-- Each password must have the form of a hash. -/
def checkPasswords : List (String × String) → Except Invalid Unit
  | [] => .ok ()
  | (user, hash) :: users =>
    match Bcrypt.Hash.parse hash with
    | .ok _ => checkPasswords users
    | .error e => .error (.password user e)

def usersOf : Access → List (String × String)
  | .basic users => users
  | _ => []

def validate (s : Settings) : Except Invalid Unit :=
  if Text.blank s.listenAddress then .error .noAddress
  else if s.protocol = .https ∧ (s.certificate.isNone ∨ s.certificateKey.isNone) then
    .error .noCertificate
  else if s.pluginDirectory = "" then .error .noPluginDirectory
  else if s.requestTimeout = 0 then .error .noRequestTimeout
  else if s.handshakeTimeout = 0 then .error .noHandshakeTimeout
  else if s.secureLoader ∧ s.plugins = [] then .error .noChecksums
  else checkPasswords (usersOf s.access)

def composition (s : Settings) : Compositor.Settings :=
  ⟨s.listMode, s.fanOut, s.requestTimeout.toNat * 1000⟩

end Settings

end Attestation
