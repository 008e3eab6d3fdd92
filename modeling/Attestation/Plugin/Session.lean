import Attestation.Plugin.Client
import Attestation.Rpc.Server

namespace Attestation.Plugin

open Json (Value)

/-- A call that is queued waits for the channel. One that holds it may have to send first what
others have left unsent; it has handed its own request over when it is sending, and all has been
sent when it is reading. -/
inductive Phase where
  | queued
  | holding
  | sending
  | reading
  | done (outcome : Except Error Value)
  | cancelled

namespace Phase

def holds : Phase → Bool
  | .holding | .sending | .reading => true
  | _ => false

end Phase

structure SharedCall where
  question : Rpc.Question
  phase : Phase

/-- Calls are known by their places in the list. What has been handed over is unsent, then among the
requests, then heard by the plugin; the responses are what it has written and has not arrived. -/
structure Session where
  nextId : UInt64
  calls : List SharedCall
  holder : Option Nat
  unsent : List UInt8
  requests : List UInt8
  heard : List (List UInt8)
  responses : List UInt8
  channel : Channel

namespace Session

/-- One thing that happens: a call goes on or is given up, or the plugin reads a line and answers
it. The pipes carry any number of bytes at a time. -/
inductive Move where
  | call (q : Query)
  | lock (i : Nat)
  | submit (i : Nat)
  | send (i n : Nat)
  | sent (i : Nat)
  | hear
  | receive (i n : Nat)
  | take (i : Nat)
  | cancel (i : Nat)
  deriving Repr, DecidableEq

def start : Session := ⟨1, [], none, [], [], [], [], ⟨[], false, false, true, false⟩⟩

def phase? (s : Session) (i : Nat) : Option Phase := s.calls[i]?.map (·.phase)

def advance (s : Session) (i : Nat) (p : Phase) : Session :=
  { s with calls := s.calls.modify i fun c => { c with phase := p } }

def judged (s : Session) (i : Nat) (channel : Channel) : Verdict → Session
  | .skip => { s with channel := channel }
  | .settled outcome =>
    { s.advance i (.done outcome) with holder := none, channel := channel }

def firstLine? (bytes : List UInt8) : Option (Text.Line × List UInt8) :=
  match Text.splitLines bytes with
  | l :: _ => if l.ended then some (l, bytes.drop l.raw.length) else none
  | [] => none

/-- What becomes of a session by a move; nothing if the move is not possible. -/
def step (a : SubAttester) (path : String) (s : Session) : Move → Option Session
  | .call q =>
    some { s with
      nextId := s.nextId + 1
      calls := s.calls ++ [⟨⟨s.nextId, q⟩, .queued⟩] }
  | .lock i =>
    match s.phase? i, s.holder with
    | some .queued, none => some { s.advance i .holding with holder := some i }
    | _, _ => none
  | .submit i =>
    match s.calls[i]? with
    | some ⟨x, .holding⟩ =>
      some { s.advance i .sending with
        unsent := s.unsent ++ (requestLine x.id x.query ++ [0x0A]) }
    | _ => none
  | .send i n =>
    match s.phase? i with
    | some .holding | some .sending =>
      some { s with requests := s.requests ++ s.unsent.take n, unsent := s.unsent.drop n }
    | _ => none
  | .sent i =>
    match s.phase? i, s.unsent with
    | some .sending, [] => some (s.advance i .reading)
    | _, _ => none
  | .hear =>
    match firstLine? s.requests with
    | some (line, rest) =>
      match Rpc.answers a [line] with
      | (written, .ok ()) =>
        some { s with
          requests := rest
          heard := s.heard ++ [line.bytes]
          responses := s.responses ++
            written.flatMap fun cs => Text.Utf8.encode (String.ofList cs) }
      | (_, .error _) => none
    | none => none
  | .receive i n =>
    match s.phase? i, s.responses.take n with
    | some .reading, b :: part =>
      some { s with
        responses := s.responses.drop n
        channel := s.channel.receive (some (b :: part)) }
    | _, _ => none
  | .take i =>
    match s.calls[i]?, s.channel.attempt with
    | some ⟨x, .reading⟩, some (f, channel) => some (s.judged i channel (judge path x.id f))
    | _, _ => none
  | .cancel i =>
    match s.phase? i with
    | some .queued => some (s.advance i .cancelled)
    | some p => if p.holds then some { s.advance i .cancelled with holder := none } else none
    | none => none

def run (a : SubAttester) (path : String) (moves : List Move) : Option Session :=
  moves.foldlM (step a path) start

end Session

end Attestation.Plugin
