import Attestation.Blob
import Attestation.Token

namespace Attestation

structure Cmw.Record where
  mediaType : String
  value : List UInt8
  indicator : Option UInt64
  deriving Repr, DecidableEq, Inhabited

inductive Cmw where
  | record (r : Cmw.Record)
  | collection (kind : String) (items : List (String × Cmw))
  deriving Repr, BEq, Inhabited

/-- A kind and labelled items, in the order in which they were added. -/
structure Cmw.Collection where
  kind : String
  items : List (String × Cmw)
  deriving Repr, BEq, Inhabited

namespace Cmw

def kindLabel : String := "__cmwc_t"

namespace Collection

def empty (kind : String) : Collection := ⟨kind, []⟩

def toCmw (c : Collection) : Cmw := .collection c.kind c.items

def get? (c : Collection) (label : String) : Option Cmw :=
  (c.items.find? (·.1 = label)).map (·.2)

def labels (c : Collection) : List String := c.items.map (·.1)

def size (c : Collection) : Nat := c.items.length

/-- Appends an item under a new label to the collection at hand. -/
def append (label : String) (item : Cmw) : ExceptT Token.Error (StateM Collection) Unit := do
  if label = "" ∨ label = kindLabel then
    throw (.invalidCmw ("reserved or empty label " ++ Text.quoted label))
  if ((← get).get? label).isSome then throw (.duplicateLabel label)
  modify fun c => { c with items := c.items ++ [(label, item)] }

def add (c : Collection) (label : String) (item : Cmw) : Except Token.Error Collection :=
  let (outcome, c) := (append label item).run c
  outcome.map fun () => c

end Collection

def Record.toValue (r : Record) : Json.Value :=
  .array ([.string r.mediaType, .string (Base64.encode Base64.urlSafe r.value)] ++
    (r.indicator.map Json.Value.ofNat).toList)

mutual

def toValue : Cmw → Json.Value
  | .record r => r.toValue
  | .collection kind items => .object ((kindLabel, .string kind) :: itemValues items)

def itemValues : List (String × Cmw) → List (String × Json.Value)
  | [] => []
  | (l, c) :: items => (l, c.toValue) :: itemValues items

end

namespace Collection

def toValue (c : Collection) : Json.Value := c.toCmw.toValue

def toJson (c : Collection) : List Char := c.toValue.render

end Collection

open Json (Fault Decoder Place Tree fault unexpected)

/-- The bytes of a record; any number of `=` may follow their encoding. -/
def recordBytes (s : String) : Except Fault (List UInt8) :=
  let body := (s.toList.reverse.dropWhile (· == '=')).reverse
  Blob.ofText Base64.urlSafe ("invalid CMW value encoding: " ++ ·) (String.ofList body)

def recordOfItems (p : Place) (items : List Tree) (closed : Bool) : Except Fault Record := do
  let short (n : Nat) : Except Fault Record :=
    if closed then .error (fault (.invalidLength n "a [type, value] record"))
    else .error .syntaxError
  match items with
  | [] => short 0
  | type :: rest =>
    let mediaType ← Decoder.string p type
    match rest with
    | [] => short 1
    | encoded :: rest =>
      let encoded ← Decoder.string p encoded
      let indicator ← match rest.head? with
        | some t => (Decoder.nat 64 p t).map some
        | none => .ok none
      match rest.tail with
      | extra :: _ =>
        if extra.intact then .error (fault (.custom "CMW record has too many elements"))
        else .error .syntaxError
      | [] =>
        if ¬ closed then .error .syntaxError
        else return ⟨mediaType, ← recordBytes encoded, indicator.map UInt64.ofNat⟩

def addRead (c : Collection) (label : String) (item : Cmw) : Except Fault Collection :=
  match c.add label item with
  | .ok c => .ok c
  | .error e => .error (fault (.custom e.message))

/-- The collection once all members are read: its kind must have been among them. -/
def withKind (kind : Option String) (c : Collection) : Except Fault Collection :=
  match kind with
  | some k => .ok { c with kind := k }
  | none => .error (fault (.missingField kindLabel))

mutual

def ofTree (p : Place) : Tree → Except Fault Cmw
  | .array items closed => do
    let q ← p.inner
    return .record (← recordOfItems q items closed)
  | .object members closed => do
    let q ← p.inner
    let c ← ofMembers q none (.empty "") members closed
    return c.toCmw
  | t => unexpected "a CMW record or collection" t

/-- Reads members into a collection whose kind may stand anywhere among them. -/
def ofMembers (p : Place) (kind : Option String) (c : Collection) :
    List (Option String × Tree) → Bool → Except Fault Collection
  | [], closed => if closed then withKind kind c else .error .syntaxError
  | (l, t) :: ms, closed => do
    let l ← Decoder.key l
    if l = kindLabel then
      if kind.isSome then .error (fault (.duplicateField kindLabel))
      else ofMembers p (some (← Decoder.string p t)) c ms closed
    else
      ofMembers p kind (← addRead c l (← ofTree p t)) ms closed

end

def recordOfTree : Decoder Record := fun p t =>
  match t with
  | .array items closed => do recordOfItems (← p.inner) items closed
  | t => unexpected "a CMW record" t

def collectionOfTree : Decoder Collection := fun p t =>
  match t with
  | .object members closed => do ofMembers (← p.inner) none (.empty "") members closed
  | t => unexpected "a CMW collection" t

def Collection.ofJson (data : List UInt8) : Except Token.Error Collection :=
  match Json.Decoder.run collectionOfTree data with
  | .ok c => .ok c
  | .error e => .error (.json e)

end Cmw

end Attestation
