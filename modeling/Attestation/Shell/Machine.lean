import Attestation.Shell.Script
import Attestation.Text.Numeral
import Attestation.Text.Utf8

namespace Attestation.Shell

inductive Event where
  | output (bytes : List UInt8)
  | close
  | save (path : String) (append : Bool) (bytes : List UInt8)
  | exit
  deriving Repr, DecidableEq

inductive Sink where
  | output
  | file (path : String) (append : Bool)
  | nowhere
  deriving Repr, DecidableEq

inductive Task where
  | run (rest : Script)
  | copy
  | done
  deriving Repr, DecidableEq

/-- The events are in reverse order. Commands take no time but for `sleep`, and for the time to wait
for input. -/
structure Machine where
  path : String
  bindings : List (String × List Char)
  task : Task
  time : Nat
  status : Nat
  sink : Sink
  input : List (Nat × List Char)
  events : List (Nat × Event)

namespace Machine

def note (m : Machine) (e : Event) : Machine := { m with events := (m.time, e) :: m.events }

def characters (s : String) : List Char :=
  (Text.Utf8.encode s).map fun b => Char.ofNat b.toNat

def bytesOf (cs : List Char) : List UInt8 := cs.map fun c => UInt8.ofNat c.toNat

def pathOf (cs : List Char) : String := Text.Utf8.decodeLossy (bytesOf cs)

def expandPart (m : Machine) : Part → List Char
  | .text cs => cs
  | .named "0" => characters m.path
  | .named "?" => (toString m.status).toList
  | .named name => ((m.bindings.find? (·.1 = name)).map (·.2)).getD []

def expand (m : Machine) (w : Word) : List Char := w.flatMap (expandPart m)

def redirect (m : Machine) (sink : Sink) (rs : List Redirection) : Sink :=
  rs.foldl (fun sink r =>
    let target := pathOf (m.expand r.target)
    if r.descriptor ≠ 1 then sink
    else match r.mode with
      | .write => if target = "/dev/null" then .nowhere else .file target false
      | .append => if target = "/dev/null" then .nowhere else .file target true
      | .duplicate => if target = "1" then sink else .nowhere
      | .read => sink) sink

def write (m : Machine) (sink : Sink) (cs : List Char) : Machine :=
  match sink with
  | .output => if cs = [] then m else m.note (.output (bytesOf cs))
  | .file path append => m.note (.save path append (bytesOf cs))
  | .nowhere => m

def reroute (m : Machine) (sink : Sink) : Machine :=
  if sink = m.sink then m
  else if m.sink = .output then { m.note .close with sink := sink }
  else { m with sink := sink }

def octal : Nat → Nat → List Char → Nat × List Char
  | 0, n, cs => (n, cs)
  | _ + 1, n, [] => (n, [])
  | k + 1, n, c :: cs =>
    if '0' ≤ c ∧ c ≤ '7' then octal k (n * 8 + (c.toNat - '0'.toNat)) cs else (n, c :: cs)

def escapes : List (Char × Char) :=
  [('n', '\n'), ('t', '\t'), ('r', '\r'), ('a', '\x07'), ('b', '\x08'), ('f', '\x0c'),
    ('v', '\x0b'), ('\\', '\\')]

/-- A character behind a backslash, and the rest; an unknown one leaves the backslash. -/
def escape (cs : List Char) : List Char × List Char :=
  match cs with
  | [] => (['\\'], [])
  | c :: rest =>
    if '0' ≤ c ∧ c ≤ '7' then
      let (n, rest) := octal 3 0 cs
      ([Char.ofNat (n % 256)], rest)
    else match escapes.find? (·.1 = c) with
      | some (_, e) => ([e], rest)
      | none => (['\\', c], rest)

/-- One pass over a format: what it prints, and the arguments left over. The fuel is the length of
the format. -/
def formatOnce : Nat → List (List Char) → List Char → List Char × List (List Char)
  | 0, args, _ => ([], args)
  | _ + 1, args, [] => ([], args)
  | fuel + 1, args, c :: cs =>
    match c, cs with
    | '\\', cs =>
      let (e, rest) := escape cs
      let (out, left) := formatOnce fuel args rest
      (e ++ out, left)
    | '%', '%' :: rest =>
      let (out, left) := formatOnce fuel args rest
      ('%' :: out, left)
    | '%', 's' :: rest | '%', 'd' :: rest =>
      let (out, left) := formatOnce fuel args.tail rest
      (args.headD [] ++ out, left)
    | c, rest =>
      let (out, left) := formatOnce fuel args rest
      (c :: out, left)

def printed : Nat → List Char → List (List Char) → List Char
  | 0, format, args => (formatOnce (format.length + 1) args format).1
  | fuel + 1, format, args =>
    let (out, left) := formatOnce (format.length + 1) args format
    if left = [] ∨ left.length = args.length then out else out ++ printed fuel format left

def unescaped : Nat → List Char → List Char
  | 0, _ => []
  | _ + 1, [] => []
  | fuel + 1, c :: cs =>
    if c = '\\' then
      let (e, rest) := escape cs
      e ++ unescaped fuel rest
    else c :: unescaped fuel cs

def translate (source target : List Char) (c : Char) : Char :=
  match source.idxOf? c with
  | some i => (target[i]? <|> target.getLast?).getD c
  | none => c

def filter? (input : List Char) : List (List Char) → Option (List Char)
  | [] => some []
  | name :: args =>
    match String.ofList name, args with
    | "printf", format :: args => some (printed args.length format args)
    | "echo", args => some ((args.intersperse [' ']).flatten ++ ['\n'])
    | ":", _ | "true", _ => some []
    | "cat", [] => some input
    | "head", [option, count, source] =>
      if option = "-c".toList ∧ source = "/dev/zero".toList then
        (Text.natBelow? UInt32.size (String.ofList count)).map fun n => List.replicate n '\x00'
      else none
    | "tr", [source, target] =>
      some (input.map (translate (unescaped (source.length + 1) source)
        (unescaped (target.length + 1) target)))
    | _, _ => none

inductive Step where
  | go (m : Machine)
  | wait
  | stop (m : Machine)
  | copy (m : Machine)

def duration (cs : List Char) : Nat :=
  let fraction := ((cs.dropWhile (· ≠ '.')).drop 1).take 3
  Text.digitsValue (cs.takeWhile (· ≠ '.')) * 1000 +
    Text.digitsValue (fraction ++ List.replicate (3 - fraction.length) '0')

def isAssignment (cs : List Char) : Bool :=
  match cs.takeWhile isNameChar, cs.dropWhile isNameChar with
  | c :: _, '=' :: _ => !c.isDigit
  | _, _ => false

def set (m : Machine) (name : String) (value : List Char) : Machine :=
  { m with bindings := (name, value) :: m.bindings }

def succeed (m : Machine) : Machine := { m with status := 0 }

def runWords (m : Machine) (sink : Sink) (words : List (List Char)) : Step :=
  match words with
  | [] => .go m.succeed
  | name :: args =>
    match String.ofList name, args with
    | "false", _ => .go { m with status := 1 }
    | "exit", args => .stop { m with status := Text.digitsValue (args.headD []) }
    | "kill", _ => .stop m
    | "sleep", args => .go { m.succeed with time := m.time + duration (args.headD []) }
    | "cat", [] => .copy (m.reroute sink)
    | "read", args =>
      match m.input with
      | [] => .wait
      | (at_, line) :: rest =>
        let name := String.ofList ((args.filter fun a => a.head? ≠ some '-').headD [])
        .go (({ m.succeed with time := max m.time at_, input := rest }).set name line)
    | _, _ =>
      match filter? [] words with
      | some out => .go (m.write sink out).succeed
      | none => .go { m with status := 127 }

/-- Runs a command that stands alone. Behind `exec` it takes the place of the script, and its
redirections are for good. -/
def runCommand (m : Machine) (c : Command) : Step :=
  let words := (c.words.map m.expand).dropWhile isAssignment
  let sink := m.redirect m.sink c.redirections
  match words with
  | [] => .go (if sink = m.sink then m.succeed else (m.write sink []).succeed)
  | first :: rest =>
    if first = "exec".toList then
      let m := m.reroute sink
      if rest = [] then .go m.succeed
      else match runWords m sink rest with
        | .go m => .stop m
        | step => step
    else runWords m sink words

/-- Runs the commands of a pipeline; only the first one may be without input. -/
def runPipeline (m : Machine) (commands : List Command) : Step :=
  match commands with
  | [c] => runCommand m c
  | cs =>
    let out := cs.foldl (fun input c => input.bind fun i => filter? i (c.words.map m.expand))
      (some [])
    let sink := match cs.getLast? with
      | some c => m.redirect m.sink c.redirections
      | none => m.sink
    match out with
    | some out => .go (m.write sink out).succeed
    | none => .go { m with status := 127 }

def due (condition : Condition) (status : Nat) : Bool :=
  match condition with
  | .always => true
  | .onSuccess => status = 0
  | .onFailure => status ≠ 0

def finish (m : Machine) : Machine := { m.note .exit with task := .done }

/-- Runs statements until input is needed. -/
def runScript (m : Machine) : Script → Machine
  | [] => m.finish
  | s :: rest =>
    if due s.condition m.status then
      match runPipeline m s.pipeline with
      | .go m => runScript m rest
      | .wait => { m with task := .run (s :: rest) }
      | .stop m => m.finish
      | .copy m => { m with task := .copy }
    else runScript m rest

def copyLines (m : Machine) : List (Nat × List Char) → Machine
  | [] => { m with input := [] }
  | (at_, line) :: rest =>
    copyLines (({ m with time := max m.time at_ }).write m.sink (line ++ ['\n'])) rest

def go (m : Machine) : Machine :=
  match m.task with
  | .run rest => runScript m rest
  | .copy => copyLines m m.input
  | .done => m

def start (path : String) (environment : List (String × String)) (script : Script) (now : Nat) :
    Machine :=
  go ⟨path, environment.map fun (k, v) => (k, characters v), .run script, now, 0, .output, [], []⟩

def deliver (m : Machine) (now : Nat) (line : List UInt8) : Machine :=
  go { m with input := m.input ++ [(now, line.map fun b => Char.ofNat b.toNat)] }

end Machine

end Attestation.Shell
