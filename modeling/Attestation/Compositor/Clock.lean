import Attestation.Compositor

namespace Attestation.Compositor

/-- Attesters that answer in time. `T` tells the questions apart that have been sent; an answer
comes with its time and with the state in which it leaves the world, or never. -/
structure World (σ H T : Type) where
  send : (now : Nat) → H → Query → σ → T × σ
  receive : H → (q : Query) → T → σ → Option (Nat × q.Answer × σ)
  abandon : (now : Nat) → H → T → σ → σ

/-- The time, the world, and the requests that are under way in the order in which they were sent.
Time passes only while a composition waits. -/
structure Clock (σ H T : Type) where
  now : Nat
  world : σ
  underWay : List (H × EvidenceRequest × T)

namespace Clock

variable {σ H T : Type}

def start (now : Nat) (world : σ) : Clock σ H T := ⟨now, world, []⟩

def inTime (deadline : Option Nat) (time : Nat) : Bool := deadline.all (time ≤ ·)

def answers (w : World σ H T) (c : Clock σ H T) :
    List (Nat × Nat × EvidenceAnswer × σ) :=
  c.underWay.zipIdx.filterMap fun ((h, r, t), i) =>
    (w.receive h (.evidence r) t c.world).map fun (time, a, world) =>
      (max c.now time, i, a, world)

/-- The first answer, of several at one time the one in the first place. -/
def first {α : Type} : List (Nat × α) → Option (Nat × α)
  | [] => none
  | x :: xs =>
    match first xs with
    | none => some x
    | some y => if x.1 ≤ y.1 then some x else some y

def take (w : World σ H T) (c : Clock σ H T) (deadline : Option Nat) :
    Option (Nat × EvidenceAnswer × Clock σ H T) :=
  match first (answers w c) with
  | some (time, i, a, world) =>
    if inTime deadline time then some (i, a, ⟨time, world, c.underWay.eraseIdx i⟩) else none
  | none => none

def abandonAll (w : World σ H T) (now : Nat) (c : Clock σ H T) : Clock σ H T where
  now := now
  world := c.underWay.foldl (fun world (h, _, t) => w.abandon now h t world) c.world
  underWay := []

abbrev Run (σ H T α : Type) := OptionT (StateM (Clock σ H T)) α

def expire {α : Type} (w : World σ H T) (deadline : Option Nat) : Run σ H T α :=
  OptionT.mk fun c => (none, abandonAll w (max c.now (deadline.getD c.now)) c)

def query (w : World σ H T) (deadline : Option Nat) (h : H) (q : Query) : Run σ H T q.Answer :=
  OptionT.mk fun c =>
    let (t, world) := w.send c.now h q c.world
    match w.receive h q t world with
    | some (time, a, after) =>
      let time := max c.now time
      if inTime deadline time then (some a, { c with now := time, world := after })
      else
        let now := deadline.getD c.now
        (none, { c with now := now, world := w.abandon now h t world })
    | none =>
      let now := max c.now (deadline.getD c.now)
      (none, { c with now := now, world := w.abandon now h t world })

def await (w : World σ H T) (deadline : Option Nat) (n : Nat) :
    Run σ H T (Fin n × EvidenceAnswer) := do
  match take w (← get) deadline with
  | some (i, a, c) =>
    if h : i < n then
      set c
      return (⟨i, h⟩, a)
    else expire w deadline
  | none => expire w deadline

def proceed (w : World σ H T) (next : Plan H) (n : Nat) :
    Run σ H T (Option (Fin n × EvidenceAnswer)) := do
  let c ← get
  let sendNext : Run σ H T (Option (Fin n × EvidenceAnswer)) := do
    let (t, world) := w.send c.now next.attester (.evidence next.request) c.world
    set { c with
      world := world
      underWay := c.underWay ++ [(next.attester, next.request, t)] }
    return none
  match take w c (some c.now) with
  | some (i, a, after) =>
    if h : i < n then
      set after
      return some (⟨i, h⟩, a)
    else sendNext
  | none => sendNext

def reply (w : World σ H T) (deadline : Option Nat) : (c : Call H) → Run σ H T c.Reply
  | .query h q => query w deadline h q
  | .proceed next underWay => proceed w next underWay.length
  | .await underWay => await w deadline underWay.length

/-- Runs a composition; `timeout` counts from now. -/
def run (w : World σ H T) : Runner (StateM (Clock σ H T)) H := fun timeout x => do
  let deadline := timeout.map ((← get).now + ·)
  let result ← (Dialogue.run (m := OptionT (StateM (Clock σ H T))) (reply w deadline) x).run
  modify fun c => abandonAll w c.now c
  return result

end Clock

structure TimedAttester where
  name : String
  attester : SubAttester
  formatsDelay : Nat
  evidenceDelay : Nat

namespace TimedAttester

def delay (a : TimedAttester) : Query → Nat
  | .formats => a.formatsDelay
  | .evidence _ => a.evidenceDelay
  | _ => 0

/-- The world of such attesters. It remembers the requests for evidence, the last one first. -/
def world : World (List (String × EvidenceRequest)) TimedAttester Nat where
  send now a q log :=
    (now + a.delay q,
      match q with
      | .evidence r => (a.name, r) :: log
      | _ => log)
  receive a q due log := some (due, a.attester.answer q, log)
  abandon _ _ _ log := log

/-- The registry of attesters, in which the first one of a name is found, and of names that are
listed without an attester. -/
def registry (attesters : List TimedAttester) (ghosts : List String) :
    Registry TimedAttester where
  names := attesters.map (·.name) ++ ghosts
  lookup name :=
    match attesters.find? (·.name = name) with
    | some a => .ok a
    | none => .error (.notFound name)

end TimedAttester

end Attestation.Compositor
