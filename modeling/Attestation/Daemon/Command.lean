namespace Attestation.Daemon

inductive Origin where
  | plugins
  | file (path : String)
  deriving Repr, DecidableEq

inductive Command where
  | help
  | version
  | start (configuration : Option String) (origin : Origin)
  deriving Repr, DecidableEq

namespace Command

inductive Scope where
  | top
  | serve
  | mock
  deriving Repr, DecidableEq

inductive Key where
  | configuration
  | evidence
  deriving Repr, DecidableEq

/-- The options of a scope. `waiting` is the last one, which has not been looked at yet. -/
structure Options where
  configuration : Option String
  evidence : Option String
  waiting : Option (Key × String)
  deriving Repr, DecidableEq

namespace Options

def empty : Options := ⟨none, none, none⟩

def put (o : Options) : Key → String → Option Options
  | .configuration, v =>
    if v = "" ∨ o.configuration.isSome then none else some { o with configuration := some v }
  | .evidence, v =>
    if v = "" ∨ o.evidence.isSome then none else some { o with evidence := some v }

def settle (o : Options) : Option Options :=
  match o.waiting with
  | none => some o
  | some (k, v) => { o with waiting := none }.put k v

end Options

inductive Word where
  | help
  | version
  | option (key : Key) (value : Option String)
  | barrier
  | plain
  | unknown
  deriving Repr, DecidableEq

def Word.ofLong (scope : Scope) (name : String) (value : Option String) : Word :=
  match name, value with
  | "help", none => .help
  | "version", none => if scope = .top then .version else .unknown
  | "config", v => .option .configuration v
  | "evidence", v => if scope = .mock then .option .evidence v else .unknown
  | _, _ => .unknown

def Word.ofText (scope : Scope) (text : String) : Word :=
  match text.toList with
  | ['-', '-'] => .barrier
  | '-' :: '-' :: cs =>
    Word.ofLong scope (String.ofList (cs.takeWhile (· ≠ '=')))
      ((cs.dropWhile (· ≠ '=')).tail?.map String.ofList)
  | '-' :: 'h' :: _ => .help
  | '-' :: 'V' :: _ => if scope = .top then .version else .unknown
  | '-' :: _ :: _ => .unknown
  | _ => .plain

def isValue (text : String) : Bool :=
  match text.toList with
  | '-' :: _ :: _ => false
  | _ => true

/-- How the options of a scope end: at once, with a command to carry out or nothing that makes
sense; with the last word; or with a plain word and others behind it. -/
inductive Ending where
  | outright (c : Option Command)
  | complete (o : Options)
  | name (o : Options) (word : String) (rest : List String)

def scan (scope : Scope) (o : Options) : List String → Ending
  | [] => .complete o
  | word :: rest =>
    match Word.ofText scope word with
    | .help => .outright (o.settle.map fun _ => .help)
    | .version => .outright (o.settle.map fun _ => .version)
    | .option key (some value) =>
      match o.settle.bind fun o => o.put key value with
      | some o => scan scope o rest
      | none => .outright none
    | .option key none =>
      match rest, o.settle with
      | value :: rest, some o =>
        if isValue value then scan scope { o with waiting := some (key, value) } rest
        else .outright none
      | _, _ => .outright none
    | .barrier => if rest.isEmpty then .complete o else .outright none
    | .plain => .name o word rest
    | .unknown => .outright none

/-- The configuration file that the scopes name, the inner one first, or else the environment. An
empty name from the environment is a fault in every scope that would take it. -/
def configuration (scopes : List Options) (fallback : Option String) : Option (Option String) :=
  if fallback = some "" ∧ scopes.any (·.configuration.isNone) then none
  else some ((scopes.findSome? (·.configuration)) <|> fallback)

def ofOptions (scope : Scope) (scopes : List Options) (fallback : Option String) :
    Option Command := do
  let settled ← scopes.mapM Options.settle
  let file ← configuration settled fallback
  match scope with
  | .mock =>
    let path ← settled.findSome? (·.evidence)
    return .start file (.file path)
  | _ => return .start file .plugins

def ofScope (scope : Scope) (before : Options) (rest : List String) (fallback : Option String) :
    Option Command :=
  match scan scope .empty rest with
  | .outright c => c
  | .complete o => ofOptions scope [o, before] fallback
  | .name _ _ _ => none

def ofHelp : List String → Option Command
  | [] => some .help
  | [name] => if name ∈ ["serve", "mock", "help"] then some .help else none
  | _ => none

/-- What a command line asks for, if it makes sense. Options stand before or behind the command; the
fallback is the configuration file that the environment names. -/
def ofWords (words : List String) (fallback : Option String) : Option Command :=
  match scan .top .empty words with
  | .outright c => c
  | .complete o => ofOptions .top [o] fallback
  | .name o "serve" rest => ofScope .serve o rest fallback
  | .name o "mock" rest => ofScope .mock o rest fallback
  | .name _ "help" rest => ofHelp rest
  | .name _ _ _ => none

end Command

end Attestation.Daemon
