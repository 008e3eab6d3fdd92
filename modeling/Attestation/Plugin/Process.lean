import Attestation.Rpc.Server
import Attestation.Shell.Machine

namespace Attestation.Plugin

/-- How output arrives: in parts, each so many milliseconds after it was written. The parts may
depend on all that was written before, but no byte is lost. -/
structure Pipe where
  parts : (before : List UInt8) → (now : Nat) → (bytes : List UInt8) → List (Nat × List UInt8)
  whole : ∀ before now bytes, (parts before now bytes).flatMap (·.2) = bytes

/-- A program that serves a sub-attester on its input and output. -/
structure Server where
  attester : SubAttester
  pipe : Pipe
  written : List UInt8
  ended : Bool

namespace Server

/-- The events are in the order in which they come about. -/
def write (s : Server) (now : Nat) (lines : List (List Char)) :
    Server × List (Nat × Shell.Event) :=
  let bytes := lines.flatMap fun line => Text.Utf8.encode (.ofList line)
  ({ s with written := s.written ++ bytes },
    (s.pipe.parts s.written now bytes).map fun (delay, part) => (now + delay, .output part))

def start (a : SubAttester) (pipe : Pipe) (now : Nat) : Server × List (Nat × Shell.Event) :=
  write ⟨a, pipe, [], false⟩ now [Rpc.handshakeLine]

def deliver (s : Server) (now : Nat) (line : List UInt8) : Server × List (Nat × Shell.Event) :=
  if s.ended then (s, [])
  else
    let (lines, outcome) := Rpc.answers s.attester [⟨line, true⟩]
    let (s, events) := s.write now lines
    match outcome with
    | .ok () => (s, events)
    | .error _ => ({ s with ended := true }, events ++ [(now, .exit)])

end Server

inductive Process where
  | script (m : Shell.Machine)
  | server (s : Server)

namespace Process

abbrev Ran := Process × List (Nat × Shell.Event)

def ofMachine (m : Shell.Machine) : Ran := (.script { m with events := [] }, m.events.reverse)

def ofServer (x : Server × List (Nat × Shell.Event)) : Ran := (.server x.1, x.2)

def deliver (now : Nat) (line : List UInt8) : Process → Ran
  | .script m => ofMachine (m.deliver now line)
  | .server s => ofServer (s.deliver now line)

end Process

end Attestation.Plugin
