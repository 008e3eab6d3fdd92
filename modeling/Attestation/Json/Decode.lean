import Attestation.Json.Fault
import Attestation.Json.Reader
import Attestation.Json.Value

namespace Attestation.Json

/-- Text that is read once, a value that had been read before, members that were set aside until the
tag of their object was known, or settings merged from several layers. -/
inductive Origin where
  | text
  | value
  | setAside
  | settings
  deriving Repr, DecidableEq

/-- Where a tree stands: its origin and the number of arrays and objects around it. -/
structure Place where
  origin : Origin
  depth : Nat
  deriving Repr, DecidableEq

def maxDepth : Nat := 127

def Place.inner (p : Place) : Except Fault Place :=
  if p.origin = .text ∧ maxDepth ≤ p.depth then .error .syntaxError
  else .ok { p with depth := p.depth + 1 }

/-- A decoder meets a tree in the order of its text and gives the first fault. -/
abbrev Decoder (α : Type) := Place → Tree → Except Fault α

def fault (what : Mismatch) : Fault := .mismatch [] what

def Tree.found : Tree → Except Fault Found
  | .null => .ok .null
  | .bool b => .ok (.bool b)
  | .number (some (.float x)) => .ok (.float x)
  | .number (some n) => .ok (.int (n.toInt?.getD 0))
  | .string (some s) => .ok (.string s)
  | .array _ _ => .ok .sequence
  | .object _ _ => .ok .map
  | .number none | .string none | .broken => .error .syntaxError

def unexpected {α : Type} (expected : String) (t : Tree) : Except Fault α :=
  match t.found with
  | .ok found => .error (fault (.invalidType found expected))
  | .error e => .error e

namespace Decoder

def string : Decoder String := fun _ t =>
  match t with
  | .string (some s) => .ok s
  | _ => unexpected "a string" t

def bool : Decoder Bool := fun _ t =>
  match t with
  | .bool b => .ok b
  | _ => unexpected "a boolean" t

def int (name : String) (low high : Int) : Decoder Int := fun _ t =>
  match t with
  | .number (some n) =>
    match n.toInt? with
    | some i =>
      if low ≤ i ∧ i ≤ high then .ok i else .error (fault (.invalidValue (.int i) name))
    | none => unexpected name t
  | _ => unexpected name t

def nat (bits : Nat) : Decoder Nat := fun p t =>
  (int s!"u{bits}" 0 ((Nat.pow 2 bits : Nat) - 1) p t).map Int.toNat

def optional {α : Type} (d : Decoder α) : Decoder (Option α) := fun p t =>
  match t with
  | .null => .ok none
  | _ => (d p t).map some

def itemsFrom {α : Type} (d : Decoder α) (p : Place) : Nat → List α → List Tree →
    Except Fault (List α)
  | _, done, [] => .ok done.reverse
  | i, done, t :: ts =>
    match d p t with
    | .ok a => itemsFrom d p (i + 1) (a :: done) ts
    | .error e => .error (e.under (toString i))

/-- An end that was not reached is a fault. -/
def ending {α : Type} (closed : Bool) (a : α) : Except Fault α :=
  if closed then .ok a else .error .syntaxError

def list {α : Type} (d : Decoder α) : Decoder (List α) := fun p t =>
  match t with
  | .array items closed => do
    let q ← p.inner
    ending closed (← itemsFrom d q 0 [] items)
  | _ => unexpected "a sequence" t

def key : Option String → Except Fault String
  | some k => .ok k
  | none => .error .syntaxError

def membersFrom {α : Type} (d : Decoder α) (p : Place) :
    List (String × α) → List (Option String × Tree) → Except Fault (List (String × α))
  | done, [] => .ok done.reverse
  | done, (k, t) :: ms => do
    let k ← key k
    match d p t with
    | .ok a => membersFrom d p ((k, a) :: done) ms
    | .error e => .error (e.under k)

def members {α : Type} (d : Decoder α) : Decoder (List (String × α)) := fun p t =>
  match t with
  | .object ms closed => do
    let q ← p.inner
    ending closed (← membersFrom d q [] ms)
  | _ => unexpected "a map" t

end Decoder

/-- Whether a slot must be filled. One that is `positional` may be left out of an object, but
not out of an array. -/
inductive Need where
  | mandatory
  | positional
  | optional
  deriving Repr, DecidableEq

/-- A member of a record and how it is read into the record. A slot that is not filled keeps its
initial content. -/
structure Slot (α : Type) where
  name : String
  need : Need
  read : Place → Tree → α → Except Fault α

namespace Slot

def of {α β : Type} (need : Need) (name : String) (d : Decoder β) (put : β → α → α) : Slot α :=
  ⟨name, need, fun p t a => (d p t).map (put · a)⟩

def mandatory {α β : Type} (name : String) (d : Decoder β) (put : β → α → α) : Slot α :=
  .of .mandatory name d put

def optional {α β : Type} (name : String) (d : Decoder β) (put : β → α → α) : Slot α :=
  .of .optional name d put

end Slot

/-- How a record is decoded: its name in messages, its content before any slot is filled, and its
slots. `lengthCounts` is the number of slots that a message about a short array gives. -/
structure Record (α : Type) where
  name : String
  initial : α
  slots : List (Slot α)

namespace Record

variable {α : Type}

/-- A member that has no slot is skipped if its text is well formed. -/
def skip (t : Tree) : Except Fault Unit :=
  if t.intact then .ok () else .error .syntaxError

def fromMembers (r : Record α) (p : Place) :
    List String → α → List (Option String × Tree) → Except Fault (List String × α)
  | seen, a, [] => .ok (seen, a)
  | seen, a, (k, t) :: ms => do
    let k ← Decoder.key k
    match r.slots.find? (·.name = k) with
    | none =>
      skip t
      fromMembers r p seen a ms
    | some s =>
      if k ∈ seen then .error (fault (.duplicateField k))
      else match s.read p t a with
        | .ok a => fromMembers r p (k :: seen) a ms
        | .error e => .error (e.under k)

def missing? (r : Record α) (seen : List String) : Option String :=
  (r.slots.find? fun s => s.need = .mandatory ∧ s.name ∉ seen).map (·.name)

def fromItems (r : Record α) (p : Place) :
    Nat → α → List (Slot α) → List Tree → Bool → Except Fault (α × List Tree)
  | _, a, [], ts, _ => .ok (a, ts)
  | i, a, s :: ss, t :: ts, closed =>
    match s.read p t a with
    | .ok a => fromItems r p (i + 1) a ss ts closed
    | .error e => .error (e.under (toString i))
  | i, a, s :: ss, [], closed =>
    if ¬ closed then .error .syntaxError
    else if s.need ≠ .optional then
      .error (fault (.invalidLength i s!"struct {r.name} with {r.slots.length} elements"))
    else fromItems r p i a ss [] closed

def leftover (o : Origin) (total : Nat) (slots : Nat) (closed : Bool) (rest : List Tree) :
    Except Fault Unit :=
  match o with
  | .settings => .ok ()
  | .text => if rest.isEmpty && closed then .ok () else .error .syntaxError
  | .value =>
    if rest.isEmpty then .ok ()
    else .error (fault (.invalidLength total "fewer elements in array"))
  | .setAside =>
    if rest.isEmpty then .ok ()
    else .error (fault (.invalidLength total
      (if slots = 1 then "1 element in sequence" else s!"{slots} elements in sequence")))

def decode (r : Record α) : Decoder α := fun p t =>
  match t with
  | .object ms closed => do
    let q ← p.inner
    let (seen, a) ← r.fromMembers q [] r.initial ms
    let a ← Decoder.ending closed a
    match r.missing? seen with
    | some f => .error (fault (.missingField f))
    | none => return a
  | .array ts closed => do
    let q ← p.inner
    let (a, rest) ← r.fromItems q 0 r.initial r.slots ts closed
    leftover p.origin ts.length r.slots.length closed rest
    return a
  | _ => unexpected s!"struct {r.name}" t

end Record

namespace Decoder

def unit : Decoder Unit := fun _ t =>
  match t with
  | .null => .ok ()
  | _ => unexpected "unit" t

def variant {α : Type} (variants : List (String × α)) (name : String) : Except Fault α :=
  match variants.find? (·.1 = name) with
  | some (_, a) => .ok a
  | none => .error (fault (.unknownVariant name (variants.map (·.1))))

/-- One of several names; a name may also stand as the key of an object with the one member
null. -/
def choice {α : Type} (variants : List (String × α)) : Decoder α := fun p t =>
  match t, p.origin with
  | .string (some s), _ => variant variants s
  | .object ms closed, o =>
    match ms, o with
    | [], .text => .error .syntaxError
    | [], .settings => .error (fault (.invalidType .map "enum"))
    | [], _ => .error (fault (.invalidValue .map "map with a single key"))
    | (k, t) :: rest, o => do
      let q ← p.inner
      if (o = .value ∨ o = .setAside) ∧ ¬ rest.isEmpty then
        .error (fault (.invalidValue .map "map with a single key"))
      let k ← key k
      let a ← variant variants k
      match unit q t with
      | .error e => .error (e.under k)
      | .ok () =>
        if o = .text ∧ ¬ (rest.isEmpty ∧ closed) then .error .syntaxError else return a
  | _, .text => .error .syntaxError
  | _, .settings => unexpected "variant of an enum" t
  | _, _ => unexpected "string or map" t

mutual

/-- A free-form value: the members of objects are ordered, and the last of a key counts. -/
def value : Decoder Value := fun p t =>
  match t with
  | .null => .ok .null
  | .bool b => .ok (.bool b)
  | .number (some n) => .ok (.number n)
  | .string (some s) => .ok (.string s)
  | .array ts closed => do
    let q ← p.inner
    ending closed (.array (← valueItems q [] ts))
  | .object ms closed => do
    let q ← p.inner
    ending closed (.object (Table.ofList (← valueMembers q [] ms)))
  | .number none | .string none | .broken => .error .syntaxError

def valueItems (p : Place) (done : List Value) : List Tree → Except Fault (List Value)
  | [] => .ok done.reverse
  | t :: ts => do
    let v ← value p t
    valueItems p (v :: done) ts

def valueMembers (p : Place) (done : List (String × Value)) :
    List (Option String × Tree) → Except Fault (List (String × Value))
  | [] => .ok done.reverse
  | (k, t) :: ms => do
    let k ← key k
    let v ← value p t
    valueMembers p ((k, v) :: done) ms

end

/-- Reads a document of text: what follows the value comes last. -/
def run {α : Type} (d : Decoder α) (bytes : List UInt8) : Except Fault α := do
  let doc := Document.read bytes
  let a ← d ⟨.text, 0⟩ doc.tree
  ending doc.ended a

def ofValue {α : Type} (d : Decoder α) (v : Value) : Except Fault α :=
  d ⟨.value, 0⟩ v.toTree

end Decoder

end Attestation.Json
