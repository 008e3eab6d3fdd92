import Attestation.Settings.Variable
import Attestation.Toml.Document

namespace Attestation.Settings.Layer

open Json (Value)

mutual

/-- The second value over the first one: the members of objects are merged, and elsewhere the second
value counts. -/
def merge : Value → Value → Value
  | .object under, .object upper => .object (mergeMembers under upper)
  | _, v => v

def mergeMembers (under : List (String × Value)) : List (String × Value) → List (String × Value)
  | [] => under
  | (k, v) :: ms =>
    let v := match Table.find? under k with
      | some u => merge u v
      | none => v
    mergeMembers (Table.insert k v under) ms

end

/-- The key of the one member by which a layer holds a date or a time. -/
def timeKey : String := "$__toml_private_datetime"

def ofInteger (i : Int) : Value :=
  match Json.Number.ofInt? i with
  | some n => .number n
  | none => .null

mutual

def ofToml : Toml.Value → Value
  | .bool b => .bool b
  | .integer i => ofInteger i
  | .real x => .number (Variable.ofExtended x)
  | .time text => .object [(timeKey, .string text)]
  | .string s => .string s
  | .array vs => .array (itemsOf vs)
  | .table ms => .object (membersOf ms)

def itemsOf : List Toml.Value → List Value
  | [] => []
  | v :: vs => ofToml v :: itemsOf vs

def membersOf : List (String × Toml.Value) → List (String × Value)
  | [] => []
  | (k, v) :: ms => (k, ofToml v) :: membersOf ms

end

def ofFile? (bytes : List UInt8) : Option Value :=
  (Toml.read? bytes).map fun ms => .object (membersOf ms)

def namePrefix : String := "RATSD_"

def lower (cs : List Char) : List Char := cs.map Char.toLower

def unprefixed? (name : String) : Option String :=
  let cs := (Text.trim name).toList
  let begin := namePrefix.toList
  if lower (cs.take begin.length) = lower begin then
    some (Text.trim (String.ofList (cs.drop begin.length)))
  else none

def pointed : List Char → List Char
  | '_' :: '_' :: cs => '.' :: pointed cs
  | c :: cs => c :: pointed cs
  | [] => []

/-- The keys that lead to the setting of a variable, none of which is empty. -/
def keys? (name : String) : Option (List String) := do
  let rest ← unprefixed? name
  let ks := (lower (pointed rest.toList)).splitOn '.'
  if ks.any (·.isEmpty) then none else some (ks.map String.ofList)

def ofVariable (name text : String) : Value :=
  match keys? name with
  | some ks => ks.foldr (fun k v => .object [(k, v)]) (Variable.read text)
  | none => .object []

/-- The layer of the environment; later variables lie over earlier ones. -/
def ofEnvironment (environment : List (String × String)) : Value :=
  environment.foldl (fun layer (name, text) => merge layer (ofVariable name text)) (.object [])

end Attestation.Settings.Layer
