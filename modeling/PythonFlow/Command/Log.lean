import PythonFlow.Analysis
import PythonFlow.Command.Files

/-!
# The log of a command

What a command tells besides its answer. How much of it is shown depends on how often that was asked
for.
-/

set_option autoImplicit false

namespace PythonFlow.Command

inductive Level where
  | warn | info | debug
deriving DecidableEq, Repr

namespace Level

def name : Level → String
  | warn => "WARN"
  | info => "INFO"
  | debug => "DEBUG"

def rank : Level → Nat
  | warn => 0
  | info => 1
  | debug => 2

end Level

structure LogLine where
  level : Level
  text : String

namespace LogLine

def display (l : LogLine) : String := l.level.name ++ " " ++ l.text

def shownAt (verbosity : Nat) (l : LogLine) : Bool := l.level.rank ≤ verbosity

def lowered (broken : Bool) (t : SyntaxTree) : List LogLine :=
  (if broken then [⟨.debug, "source contains syntax errors, lowering recovered tree"⟩] else []) ++
    [⟨.debug, "lowered python module nodes=" ++ toString t.size⟩]

def truncated (t : SyntaxTree) (c : Config) (id : NodeId) : LogLine :=
  ⟨.warn, "nesting too deep, recording subtree as a single instruction kind=" ++
    Text.quoted (t.kind id).name ++ " line=" ++ toString (t.span id).startLine ++ " max_depth=" ++
    toString c.depth⟩

def built (t : SyntaxTree) (c : Config) (nodes : List NodeId) (f : ControlFlow) : List LogLine :=
  nodes.map (truncated t c) ++
    [⟨.debug, "built control flow owner=n" ++ toString f.owner.index ++ " instructions=" ++
      toString f.graph.size ++ " edges=" ++ toString f.graph.edgeCount⟩]

def building (t : SyntaxTree) (c : Config) : LogLine :=
  ⟨.info, "building control flows owners=" ++ toString (t.selectOwners c).length ++ " parallel=" ++
    toString c.parallel⟩

def ready (t : SyntaxTree) (f : ControlFlow) : LogLine :=
  ⟨.info, "graph built owner=" ++ t.qualifiedName f.owner ++ " instructions=" ++
    toString f.graph.size⟩

def checking (files : Nat) : LogLine :=
  ⟨.info, "checking for unreachable code files=" ++ toString files⟩

def skipped (e : WalkError) : LogLine := ⟨.warn, "skipping unreadable path error=" ++ e.message⟩

def failed (file : String) (e : AnalysisError) : LogLine :=
  ⟨.warn, "analysis failed file=" ++ file ++ " error=" ++ e.message⟩

end LogLine
end PythonFlow.Command
