import Attestation.Plugin.Handshake
import Attestation.Text.Quoted

namespace Attestation.Plugin

inductive Error where
  | unknownPlugin (text : String)
  | incompatibleVersion (path : String) (expected got : Handshake)
  | handshakeTimeout (path : String)
  | spawn (path reason : String)
  | io (reason : String)
  | rpc (text : String)
  | notFound (name : String)
  | duplicateName (name first second : String)
  | checksumMismatch (name path : String)
  | unregistered (name path : String)
  | invalidChecksum (name reason : String)
  | identity (path reason : String)
  | notLaunchedByHost
  | notInitialized
  deriving Repr, DecidableEq

def Error.message : Error → String
  | .unknownPlugin t => s!"unknown plugin: {t}"
  | .incompatibleVersion path expected got =>
    s!"incompatible plugin {path}: expected protocol {expected.line}, got {got.line}"
  | .handshakeTimeout path => s!"plugin {path} did not complete the handshake in time"
  | .spawn path reason => s!"failed to spawn plugin {path}: {reason}"
  | .io reason => s!"I/O error: {reason}"
  | .rpc t => s!"RPC error: {t}"
  | .notFound name => s!"plugin {name} not found"
  | .duplicateName name first second =>
    s!"plugin {Text.quoted name} provided by two sources: [{first}] and [{second}]"
  | .checksumMismatch name path => s!"checksum mismatch for plugin {Text.quoted name} ({path})"
  | .unregistered name path =>
    s!"plugin {Text.quoted name} ({path}) has no registered checksum"
  | .invalidChecksum name reason => s!"failed to load sha256 checksum for {name}: {reason}"
  | .identity path reason => s!"failed to retrieve sub-attester ID from {path}: {reason}"
  | .notLaunchedByHost => "this binary is a ratsd plugin and must be launched by ratsd"
  | .notInitialized => "plugin manager has not been initialized"

def Error.causes : Error → List String
  | .spawn _ reason | .io reason => [reason]
  | _ => []

end Attestation.Plugin
