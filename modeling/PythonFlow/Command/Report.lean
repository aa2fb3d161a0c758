import PythonFlow.Analysis
import PythonFlow.Command.Files
import PythonFlow.Command.Log
import PythonFlow.Lowering.Module
import PythonFlow.Render.Format

/-!
# What the command tells of source texts

The graph of an owner, and the lines on which dead statements begin. Which parser makes the concrete tree of
a text is open, and the files are read through `Files`, so that what is told is the same whatever they are
kept in.
-/

set_option autoImplicit false

namespace PythonFlow.Command

structure Answer where
  status : Nat
  output : String
  /-- The error that ended it, written out. -/
  error : Option String
  log : List LogLine

namespace Answer

def failed (error : String) (log : List LogLine) : Answer := ⟨1, "", some error, log⟩

def shownLog (a : Answer) (verbosity : Nat) : List String :=
  (a.log.filter (·.shownAt verbosity)).map LogLine.display

end Answer

/-- Makes the concrete tree of a source text. A text that is no proper syntax has a tree too. -/
abbrev Parser := String → Concrete

def treeOf (parse : Parser) (source : String) : SyntaxTree × List LogLine :=
  let concrete := parse source
  let t := Lowering.tree source concrete
  (t, LogLine.lowered concrete.hasError t)

/-! ## Graphs -/

def finished (format : OutputFormat) (text : String) : String :=
  match format with
  | .json => text ++ "\n"
  | .plain | .dot => text

def graphOf (parse : Parser) (c : Config) (source : String) (owner : Option String)
    (format : OutputFormat) : Answer :=
  let (t, log) := treeOf parse source
  match t.ownerNamed owner with
  | .error e => .failed e.debug log
  | .ok id =>
    let built := buildOwner t c none id
    match built.outcome with
    | .error s => .failed (AnalysisError.stopped s).debug log
    | .ok f =>
      ⟨0, finished format (f.render t format), none,
        log ++ LogLine.built t c built.truncated f ++ [.ready t f]⟩

/-! ## Dead statements -/

def distinctLines (lines : List Nat) : List Nat := (lines.mergeSort (· ≤ ·)).eraseReps

def deadLines (parse : Parser) (c : Config) (source : String) :
    Except AnalysisError (List Nat) × List LogLine :=
  let (t, log) := treeOf parse source
  let c := { c with parallel := false }
  match analyze t c none with
  | .error e => (.error e, log)
  | .ok flows =>
    let dead := flows.flatMap fun o => o.flow.deadStatements t
    (.ok (distinctLines (dead.map fun id => (t.span id).startLine)),
      log ++ LogLine.building t c :: flows.flatMap fun o => LogLine.built t c o.truncated o.flow)

structure Finding where
  file : String
  line : Nat
deriving DecidableEq, Repr

def Finding.display (f : Finding) : String :=
  f.file ++ ":" ++ toString f.line ++ ": unreachable code\n"

def findingsOf (parse : Parser) (c : Config) (file : String) (read : Except FileError String) :
    List Finding × List LogLine :=
  match read with
  | .error e => ([], [.failed file (.unreadable e)])
  | .ok source =>
    match deadLines parse c source with
    | (.error e, log) => ([], log ++ [.failed file e])
    | (.ok lines, log) => (lines.map (Finding.mk file), log)

def pythonFiles (found : List (Except WalkError String)) : List String × List LogLine :=
  let files := found.filterMap fun
    | .ok path => if Path.isPython path then some path else none
    | .error _ => none
  let skipped := found.filterMap fun
    | .ok _ => none
    | .error e => some (LogLine.skipped e)
  (Path.sort files, skipped)

structure Report where
  findings : List Finding
  log : List LogLine

namespace Report

def ofFiles (skipped : List LogLine) (read : List (List Finding × List LogLine)) : Report :=
  ⟨read.flatMap Prod.fst, skipped ++ .checking read.length :: read.flatMap Prod.snd⟩

def count (r : Report) : Nat := r.findings.length

/-- Each finding is written, and if there is one the command does not end well. -/
def answer (r : Report) : Answer :=
  ⟨if r.count = 0 then 0 else 1, String.join (r.findings.map Finding.display), none, r.log⟩

end Report

section Reading

variable {m : Type → Type} [Monad m]

def reportUnreachable (parse : Parser) (files : Files m) (c : Config) (paths : List String) :
    m Report := do
  let found := (← paths.mapM files.walk).flatten
  let (python, skipped) := pythonFiles found
  let read ← python.mapM fun file => do return findingsOf parse c file (← files.read file)
  return .ofFiles skipped read

def runUnreachable (parse : Parser) (files : Files m) (c : Config) (paths : List String) :
    m Answer := do
  return (← reportUnreachable parse files c paths).answer

def runGraph (parse : Parser) (files : Files m) (c : Config) (file : String)
    (owner : Option String) (format : OutputFormat) : m Answer := do
  match c.validate with
  | .error e => return .failed e.debug []
  | .ok () =>
    match ← files.read file with
    | .error e => return .failed (AnalysisError.unreadable e).debug []
    | .ok source => return graphOf parse c source owner format

end Reading
end PythonFlow.Command
