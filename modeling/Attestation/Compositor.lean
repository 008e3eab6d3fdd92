import Attestation.Compositor.Envelope
import Attestation.Compositor.Request
import Attestation.Dialogue
import Attestation.Plugin.Error

namespace Attestation.Compositor

open Json (Value)

/-- The attesters at hand. `H` is what an attester is addressed by once it has been found. -/
structure Registry (H : Type) where
  names : List String
  lookup : String → Except Plugin.Error H

structure Plan (H : Type) where
  name : String
  attester : H
  request : EvidenceRequest

/-- A composition puts a question and waits for the answer, sends its next request unless one of
those under way is answered first, or waits for one of these. -/
inductive Call (H : Type) where
  | query (attester : H) (q : Query)
  | proceed (next : Plan H) (underWay : List (Plan H))
  | await (underWay : List (Plan H))

variable {H : Type}

@[reducible] def Call.Reply : Call H → Type
  | .query _ q => q.Answer
  | .proceed _ underWay => Option (Fin underWay.length × EvidenceAnswer)
  | .await underWay => Fin underWay.length × EvidenceAnswer

abbrev Composition (H α : Type) := Dialogue (Call.Reply (H := H)) α

abbrev Part (H α : Type) := ExceptT Problem (Dialogue (Call.Reply (H := H))) α

def ask (attester : H) (q : Query) : Part H q.Answer :=
  ExceptT.mk (.ask (.query attester q) fun answer => .done (.ok answer))

def ofExcept {α : Type} (x : Except Problem α) : Part H α := ExceptT.mk (.done x)

def contentTypeOption : String := "content-type"

/-- The media type that is asked for: one of those offered, by default the first. -/
def contentType (name : String) (offered : List Format) (first : Format)
    (options : List (String × Value)) : Except Problem String :=
  match Value.get? options contentTypeOption with
  | none => .ok first.contentType
  | some (.string desired) =>
    if offered.any (·.contentType = desired) then .ok desired
    else .error (.invalidRequest s!"{name} does not support content type {desired}")
  | some _ => .error (.invalidRequest
      s!"failed to parse options for {name}: {contentTypeOption} must be a string")

def request (name : String) (nonce : List UInt8) (answer : FormatsAnswer)
    (entry : Option Value) : Except Problem EvidenceRequest :=
  match answer.status.result, answer.formats with
  | true, first :: _ =>
    match entry with
    | none | some .null => .ok ⟨first.contentType, nonce, []⟩
    | some (.object options) => do
      let type ← contentType name answer.formats first options
      return ⟨type, nonce, Text.Utf8.encode (Value.object options).text⟩
    | some _ => .error (.invalidRequest
        s!"failed to parse options for {name}: expected an object")
  | _, _ => .error (.internal
      s!"no supported formats from attester {name}: {answer.status.error}")

def lookup (registry : Registry H) (name : String) : Except Problem H :=
  match registry.lookup name with
  | .ok h => .ok h
  | .error e => .error (.internal s!"failed to get handle from {name}: {e.message}")

def negotiate (registry : Registry H) (nonce : List UInt8) (selection : Selection)
    (name : String) : Part H (Plan H) := do
  let h ← ofExcept (lookup registry name)
  let answer ← ask h .formats
  let r ← ofExcept (request name nonce answer (Value.get? selection name))
  return ⟨name, h, r⟩

def negotiateAll (registry : Registry H) (nonce : List UInt8) (selection : Selection) :
    List String → Part H (List (Plan H))
  | [] => return []
  | name :: names => do
    let plan ← negotiate registry nonce selection name
    return plan :: (← negotiateAll registry nonce selection names)

abbrev Item := String × Cmw.Record

def contribution (plan : Plan H) (a : EvidenceAnswer) : Except Problem Item :=
  if a.status.result then
    .ok (plan.name, ⟨plan.request.contentType, a.evidence, none⟩)
  else .error (.internal
    s!"failed to get attestation report from {plan.name}: {a.status.error}")

def invokeInTurn : List (Plan H) → Part H (List Item)
  | [] => return []
  | plan :: plans => do
    let answer ← ask plan.attester (.evidence plan.request)
    let item ← ofExcept (contribution plan answer)
    return item :: (← invokeInTurn plans)

def invokeAtOnce : (waiting underWay : List (Plan H)) → (done : List Item) → Part H (List Item)
  | [], [], done => return done.reverse
  | [], plan :: plans, done =>
    ExceptT.mk (.ask (.await (plan :: plans)) fun (i, answer) =>
      match contribution (plan :: plans)[i] answer with
      | .error p => .done (.error p)
      | .ok item => (invokeAtOnce [] ((plan :: plans).eraseIdx i) (item :: done)).run)
  | next :: rest, underWay, done =>
    ExceptT.mk (.ask (.proceed next underWay) fun
      | none => (invokeAtOnce rest (underWay ++ [next]) done).run
      | some (i, answer) =>
        match contribution underWay[i] answer with
        | .error p => .done (.error p)
        | .ok item => (invokeAtOnce (next :: rest) (underWay.eraseIdx i) (item :: done)).run)
termination_by waiting underWay => 2 * waiting.length + underWay.length
decreasing_by
  · have := i.isLt
    simp only [List.length_eraseIdx, List.length_cons, List.length_nil] at this ⊢
    split <;> omega
  · simp only [List.length_append, List.length_cons, List.length_nil]
    omega
  · have := i.isLt
    simp only [List.length_eraseIdx, List.length_cons]
    split <;> omega

def invoke (fanOut : FanOut) (plans : List (Plan H)) : Part H (List Item) :=
  match fanOut with
  | .sequential => invokeInTurn plans
  | .parallel => invokeAtOnce plans [] []

def merge (items : List Item) : Except Problem Cmw.Collection :=
  items.foldlM
    (fun c (name, r) =>
      match c.add name (.record r) with
      | .ok c => .ok c
      | .error e => .error (.internal e.message))
    (Cmw.Collection.empty Envelope.kind)

def sortNames (names : List String) : List String := names.mergeSort fun a b => decide (a ≤ b)

/-- A request that has passed the checks that need no attester. -/
structure Task where
  nonceText : String
  nonce : List UInt8
  selection : Option Selection
  deriving Repr, BEq

def Task.targets (t : Task) (mode : ListMode) (registry : Registry H) : List String :=
  match mode, t.selection with
  | .selected, some selection => selection.map (·.1)
  | _, _ => sortNames registry.names

/-- Checks a request in a fixed order: its nonce, the registry, its selection. -/
def prepare (mode : ListMode) (registry : Registry H) (body : List UInt8) :
    Except Problem Task := do
  let c := Challenge.ofBody body
  if c.nonce = "" then throw missingNonce
  let nonce ← decodeNonce c.nonce
  if registry.names.isEmpty then throw (.internal "no sub-attester available")
  let selection ← effective mode (← selectionOf c.selection)
  return ⟨c.nonce, nonce, selection⟩

def collect (mode : ListMode) (fanOut : FanOut) (registry : Registry H) (t : Task) :
    Part H Cmw.Collection := do
  let plans ← negotiateAll registry t.nonce (t.selection.getD []) (t.targets mode registry)
  let items ← invoke fanOut plans
  ofExcept (merge items)

/-- The response to a task whose collection has this outcome; none means that the deadline
came first. -/
def conclude (timeout : Nat) (t : Task) :
    Option (Except Problem Cmw.Collection) → Except Problem Envelope
  | none => .error (.internal s!"evidence collection timed out after {timeout / 1000}s")
  | some outcome => outcome.map (Envelope.wrap t.nonceText)

/-- The sub-attesters with the options that they declare, in ascending order of names. What a
failed answer says about options counts too. -/
def infos (registry : Registry H) : List String → Part H (List AttesterInfo)
  | [] => return []
  | name :: names => do
    let h ← ofExcept (lookup registry name)
    let answer ← ask h .options
    return ⟨name, answer.options⟩ :: (← infos registry names)

def subattesters (registry : Registry H) : Part H (List AttesterInfo) :=
  infos registry (sortNames registry.names)

/-- Runs dialogues with attesters: to their end, or at most for so many milliseconds. Nothing is
the result of a dialogue that did not end in time, or not at all. -/
abbrev Runner (m : Type → Type) (H : Type) :=
  {α : Type} → Option Nat → Composition H α → m (Option α)

variable {m : Type → Type} [Monad m]

/-- Answers the body of a request with an envelope. It is all or nothing: the first attester that
fails makes the request fail. -/
def compose (run : Runner m H) (s : Settings) (registry : Registry H) (body : List UInt8) :
    m (Except Problem Envelope) :=
  match prepare s.listMode registry body with
  | .error p => pure (.error p)
  | .ok t => do
    let outcome ← run (some s.timeout) (collect s.listMode s.fanOut registry t).run
    return conclude s.timeout t outcome

def checkMediaTypes (contentType accept : Option String) : Except Problem Unit :=
  let type := contentType.getD ""
  if type ≠ mediaType then
    .error (.invalidRequest s!"wrong content type, expect {mediaType} (got {type})")
  else match accept with
    | none => .ok ()
    | some a =>
      if a = Envelope.mediaType ∨ a = "*/*" then .ok ()
      else .error (.notAcceptable
        s!"wrong accept type, expect {Envelope.mediaType} (got {a})")

end Attestation.Compositor
