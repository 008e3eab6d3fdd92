import Attestation.Toml.Value

namespace Attestation.Toml

/-- What introduced a table. One that has a header of its own is closed to dotted keys and to a
second header, one that a header of an inner table has implied may still get its own header, and one
that a dotted key has introduced is open to further dotted keys only. -/
inductive Origin where
  | header
  | implied
  | dotted
  deriving Repr, DecidableEq

inductive Item where
  | value (v : Value)
  | table (origin : Origin) (items : List (String × Item))
  | tables (all : List (List (String × Item)))
  deriving Inhabited

/-- The items of a table, in the order in which they were introduced. -/
abbrev Draft := List (String × Item)

namespace Draft

def item? (d : Draft) (k : String) : Option Item := (d.find? (·.1 = k)).map (·.2)

def replace (k : String) (i : Item) (d : Draft) : Draft :=
  d.map fun m => if m.1 = k then (k, i) else m

def add (k : String) (i : Item) (d : Draft) : Option Draft :=
  match item? d k with
  | none => some (d ++ [(k, i)])
  | some _ => none

/-- Changes the table at the end of a path, which is walked by a dotted key or by a header. Tables
that are missing on the way are introduced; of an array of tables the last one is meant. -/
def within (dotted : Bool) (change : Origin → Draft → Option Draft) :
    List String → Origin → Draft → Option Draft
  | [], o, d => change o d
  | k :: ks, _, d =>
    match item? d k with
    | none => do
      let o := if dotted then Origin.dotted else .implied
      return d ++ [(k, .table o (← within dotted change ks o []))]
    | some (.value _) => none
    | some (.table o inner) =>
      if dotted ∧ o = .header then none
      else do return d.replace k (.table o (← within dotted change ks o inner))
    | some (.tables []) => none
    | some (.tables (last :: before)) => do
      return d.replace k (.tables ((← within dotted change ks .header last) :: before))

def assign (path : List String) (k : String) (v : Value) (d : Draft) : Option Draft :=
  within true (fun o d => if path ≠ [] ∧ o ≠ .dotted then none else d.add k (.value v))
    path .header d

def openTable (path : List String) (k : String) (d : Draft) : Option Draft :=
  within false (fun _ d =>
    match item? d k with
    | none => d.add k (.table .header [])
    | some (.table .implied inner) => some (d.replace k (.table .header inner))
    | some _ => none) path .header d

def openElement (path : List String) (k : String) (d : Draft) : Option Draft :=
  within false (fun _ d =>
    match item? d k with
    | none => d.add k (.tables [[]])
    | some (.tables all) => some (d.replace k (.tables ([] :: all)))
    | some _ => none) path .header d

mutual

def valueOf : Item → Value
  | .value v => v
  | .table _ items => .table (Table.ofList (membersOf items))
  | .tables all => .array (tablesOf all).reverse

def membersOf : List (String × Item) → List (String × Value)
  | [] => []
  | (k, i) :: rest => (k, valueOf i) :: membersOf rest

def tablesOf : List (List (String × Item)) → List Value
  | [] => []
  | t :: ts => .table (Table.ofList (membersOf t)) :: tablesOf ts

end

def finish (d : Draft) : List (String × Value) := Table.ofList (membersOf d)

end Draft

end Attestation.Toml
