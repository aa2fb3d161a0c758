import PythonFlow.Render.Format

/-!
# Arguments of the command

What is asked for on a command line: a task, and options in front of it or behind it. Options may be
written long, or short and then several together; a value follows its option or is joined to it.
After two dashes nothing is an option. The first thing wrong with a command line decides; asking for
help is an answer of its own.
-/

set_option autoImplicit false

namespace PythonFlow.Command

inductive Task where
  /-- Writes the graph of one owner of a file. -/
  | graph (file : String) (owner : Option String) (format : OutputFormat)
  /-- Reports the dead statements of files and directories. -/
  | unreachable (paths : List String)
deriving DecidableEq, Repr

structure Request where
  verbosity : Nat
  config : Option String
  task : Task
deriving DecidableEq, Repr

inductive Scope where
  | all | graph | unreachable
deriving DecidableEq, Repr

inductive Refusal where
  | help (scope : Scope)
  | usage
deriving DecidableEq, Repr

inductive Switch where
  | verbose | help | config | owner | format
deriving DecidableEq, Repr

namespace Switch

def long : Switch → String
  | verbose => "verbose"
  | help => "help"
  | config => "config"
  | owner => "owner"
  | format => "format"

def short : Switch → Char
  | verbose => 'v'
  | help => 'h'
  | config => 'c'
  | owner => 'o'
  | format => 'f'

def takesValue : Switch → Bool
  | verbose | help => false
  | config | owner | format => true

end Switch

namespace Scope

def switches : Scope → List Switch
  | all | unreachable => [.verbose, .help, .config]
  | graph => [.verbose, .help, .config, .owner, .format]

def long? (s : Scope) (name : String) : Option Switch := s.switches.find? (·.long == name)

def short? (s : Scope) (name : Char) : Option Switch := s.switches.find? (·.short == name)

def room : Scope → Option Nat
  | all => some 0
  | graph => some 1
  | unreachable => none

end Scope

structure Given where
  verbosity : Nat
  config : Option String
  owner : Option String
  format : Option OutputFormat
  /-- Latest first. -/
  operands : List String

namespace Given

def nothing : Given := ⟨0, none, none, none, []⟩

def turnOn (g : Given) (s : Scope) : Switch → Except Refusal Given
  | .verbose => .ok { g with verbosity := g.verbosity + 1 }
  | .help => .error (.help s)
  | _ => .error .usage

/-- Sets an option, which may be done once. A path must not be empty. -/
def set (g : Given) (value : String) : Switch → Except Refusal Given
  | .config =>
    if g.config.isSome || value.isEmpty then .error .usage else .ok { g with config := some value }
  | .owner => if g.owner.isSome then .error .usage else .ok { g with owner := some value }
  | .format =>
    match g.format, OutputFormat.ofName? value with
    | none, some f => .ok { g with format := some f }
    | _, _ => .error .usage
  | _ => .error .usage

def addOperand (g : Given) (s : Scope) (value : String) : Except Refusal Given :=
  if value.isEmpty || s.room.any (· ≤ g.operands.length) then .error .usage
  else .ok { g with operands := value :: g.operands }

def addOperands (g : Given) (s : Scope) : List String → Except Refusal Given
  | [] => .ok g
  | value :: rest =>
    match g.addOperand s value with
    | .error e => .error e
    | .ok g => g.addOperands s rest

end Given

def isOption (arg : String) : Bool := arg.startsWith "-" && arg != "-"

inductive Grouped where
  | done (given : Given)
  /-- The last of them still needs a value. -/
  | awaits (given : Given) (switch : Switch)

/-- Reads short options. The rest behind one with a value is that value. -/
def readShort (s : Scope) (g : Given) : List Char → Except Refusal Grouped
  | [] => .ok (.done g)
  | c :: rest =>
    match s.short? c with
    | none => .error .usage
    | some switch =>
      if switch.takesValue then
        match rest with
        | [] => .ok (.awaits g switch)
        | '=' :: value => (g.set (String.ofList value) switch).map .done
        | value => (g.set (String.ofList value) switch).map .done
      else
        match g.turnOn s switch with
        | .error e => .error e
        | .ok g => readShort s g rest

def readLong (s : Scope) (g : Given) (body : String) : Except Refusal Grouped :=
  let cs := body.toList
  let name := String.ofList (cs.takeWhile (· != '='))
  match s.long? name, cs.dropWhile (· != '=') with
  | none, _ => .error .usage
  | some switch, [] =>
    if switch.takesValue then .ok (.awaits g switch) else (g.turnOn s switch).map .done
  | some switch, _ :: value =>
    if switch.takesValue then (g.set (String.ofList value) switch).map .done else .error .usage

def readOption (s : Scope) (g : Given) (arg : String) : Except Refusal Grouped :=
  match arg.toList with
  | '-' :: '-' :: body => readLong s g (String.ofList body)
  | _ :: body => readShort s g body
  | [] => .error .usage

/-- What was given, and the arguments from the first on that the scope leaves to another. -/
abbrev Rest := Except Refusal (Given × List String)

/-- Reads arguments; those of a whole command line only up to the name of its task. -/
def readArguments (s : Scope) : Given → List String → Rest
  | g, [] => .ok (g, [])
  | g, arg :: rest =>
    if arg = "--" then
      match g.addOperands s rest with
      | .error e => .error e
      | .ok g => .ok (g, [])
    else if isOption arg then
      match readOption s g arg with
      | .error e => .error e
      | .ok (.done g) => readArguments s g rest
      | .ok (.awaits g switch) =>
        match rest with
        | [] => .error .usage
        | value :: rest =>
          if isOption value then .error .usage
          else
            match g.set value switch with
            | .error e => .error e
            | .ok g => readArguments s g rest
    else if s = .all then .ok (g, arg :: rest)
    else
      match g.addOperand s arg with
      | .error e => .error e
      | .ok g => readArguments s g rest

/-- Options given behind the name of a task count before those in front of it. -/
def request (before behind : Given) (task : Task) : Request :=
  ⟨if behind.verbosity = 0 then before.verbosity else behind.verbosity,
    behind.config <|> before.config, task⟩

def readHelp : List String → Refusal
  | [] => .help .all
  | ["graph"] => .help .graph
  | ["unreachable"] => .help .unreachable
  | ["help"] => .help .all
  | _ => .usage

def readTask (before : Given) : List String → Except Refusal Request
  | "graph" :: rest =>
    match readArguments .graph .nothing rest with
    | .error e => .error e
    | .ok (g, _) =>
      match g.operands with
      | [file] => .ok (request before g (.graph file g.owner (g.format.getD .plain)))
      | _ => .error .usage
  | "unreachable" :: rest =>
    match readArguments .unreachable .nothing rest with
    | .error e => .error e
    | .ok (g, _) =>
      if g.operands.isEmpty then .error .usage
      else .ok (request before g (.unreachable g.operands.reverse))
  | "help" :: rest => .error (readHelp rest)
  | _ => .error .usage

def readRequest (args : List String) : Except Refusal Request :=
  match readArguments .all .nothing args with
  | .error e => .error e
  | .ok (before, rest) => readTask before rest

end PythonFlow.Command
