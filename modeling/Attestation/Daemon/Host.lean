import Attestation.Daemon.Start
import Attestation.Plugin.Host

namespace Attestation.Daemon.Host

def presence (h : Plugin.Host) (path : String) : Presence :=
  match h.look path with
  | .error _ => .absent
  | .ok (.file _) => .file
  | .ok .directory => .directory

/-- Does what a start asks for; nothing if a plugin never answers. -/
def perform : (a : Action) → OptionT (StateM Plugin.Host.Time) a.Reply
  | .look path => do return presence (← get).world path
  | .read path => do return (← get).world.read path
  | .plugin a => Plugin.Host.perform a
  | .listen a => return a.checkLocal

def run (files : List Plugin.File) (words : List String) (environment : List (String × String)) :
    Option Outcome :=
  (StateT.run (OptionT.run ((Daemon.run words environment).run perform)) (.start 0 ⟨files, []⟩)).1

end Attestation.Daemon.Host
