import Attestation.Tsm.Configfs

namespace Attestation.Tsm.Configfs

inductive Node where
  | file (content : List UInt8)
  | directory
  deriving Repr, DecidableEq

structure Entry where
  number : UInt64
  nodes : List (String × Node)
  deriving Repr

/-- `changed` is what the generation of an entry becomes when its provider has been read. An entry
starts with the attributes of the template, and can be removed only while it holds nothing. -/
structure Root where
  found : Bool
  template : List (String × Node)
  changed : Option (List UInt8)
  refusal : Option SystemError
  taken : UInt64
  entries : List Entry
  deriving Repr

namespace Entry

def node? (e : Entry) (a : Attribute) : Option Node :=
  (e.nodes.find? (·.1 = a.name)).map (·.2)

def put (e : Entry) (a : Attribute) (n : Node) : Entry :=
  { e with nodes := (a.name, n) :: e.nodes.filter (·.1 ≠ a.name) }

def content? (e : Entry) (a : Attribute) : Option (List UInt8) :=
  match e.node? a with
  | some (.file content) => some content
  | _ => none

def read (e : Entry) (a : Attribute) : Except SystemError (List UInt8) :=
  match e.node? a with
  | some (.file content) => .ok content
  | some .directory => .error .isDirectory
  | none => .error .notFound

def write (e : Entry) (a : Attribute) (value : List UInt8) : Except SystemError Entry :=
  match e.node? a with
  | some .directory => .error .isDirectory
  | _ => .ok (e.put a (.file value))

end Entry

namespace Root

def entry? (r : Root) (n : UInt64) : Option Entry := r.entries.find? (·.number = n)

def update (r : Root) (e : Entry) : Root :=
  { r with entries := r.entries.map fun f => if f.number = e.number then e else f }

def afterRead (r : Root) (e : Entry) : Attribute → Entry
  | .provider =>
    match r.changed, e.content? .provider with
    | some later, some _ => e.put .generation (.file later)
    | _, _ => e
  | _ => e

def perform (r : Root) : (a : Action) → a.Reply × Root
  | .look => (r.found, r)
  | .take => (r.taken, { r with taken := r.taken + 1 })
  | .create n =>
    match r.refusal with
    | some e => (.error e, r)
    | none => (.ok (), { r with entries := r.entries ++ [⟨n, r.template⟩] })
  | .write n a value =>
    match r.entry? n with
    | none => (.error .notFound, r)
    | some e =>
      match e.write a value with
      | .error err => (.error err, r)
      | .ok e => (.ok (), r.update e)
  | .read n a =>
    match r.entry? n with
    | none => (.error .notFound, r)
    | some e => (e.read a, r.update (r.afterRead e a))
  | .remove n =>
    ((), { r with entries := r.entries.filter fun e => e.number ≠ n ∨ ¬ e.nodes.isEmpty })

def run {α : Type} (r : Root) (x : Exchange α) : α × Root :=
  (x.run (m := StateM Root) fun a r => r.perform a).run r

end Root

end Attestation.Tsm.Configfs
