import PythonFlow.Command.Arguments

/-!
# Help on the command
-/

set_option autoImplicit false

namespace PythonFlow.Command

def aboutAll : String := "Control-flow graphs for Python source"
def aboutGraph : String := "Print the control-flow graph of one owner"
def aboutUnreachable : String := "Report statements no execution path reaches"

def verboseLine : String :=
  "  -v, --verbose...       More log output (-v: info, -vv: debug, -vvv: trace)"
def configLine : String := "  -c, --config <CONFIG>  YAML configuration file (version 1)"
def helpLine : String := "  -h, --help             Print help"

def helpLines : Scope → List String
  | .all =>
    [aboutAll, "", "Usage: pyflow [OPTIONS] <COMMAND>", "", "Commands:",
      "  graph        " ++ aboutGraph, "  unreachable  " ++ aboutUnreachable,
      "  help         Print this message or the help of the given subcommand(s)", "", "Options:",
      verboseLine, configLine, helpLine]
  | .graph =>
    [aboutGraph, "", "Usage: pyflow graph [OPTIONS] <FILE>", "", "Arguments:",
      "  <FILE>  Python source file", "", "Options:",
      "  -o, --owner <OWNER>    Function or class (`Outer.inner` or plain name); " ++
        "the module by default",
      verboseLine,
      "  -f, --format <FORMAT>  Output format [default: text] [possible values: text, dot, json]",
      configLine, helpLine]
  | .unreachable =>
    [aboutUnreachable, "", "Usage: pyflow unreachable [OPTIONS] <PATHS>...", "", "Arguments:",
      "  <PATHS>...  Files or directories (searched recursively for .py files)", "", "Options:",
      verboseLine, configLine, helpLine]

def helpText (s : Scope) : String := String.join ((helpLines s).map (· ++ "\n"))

end PythonFlow.Command
