/-!
# Faults

What goes wrong when an index points at nothing. A fault ends the operation that met it; what the
operation had already done by then stays done.
-/

set_option autoImplicit false

namespace PythonFlow

inductive Fault where
  /-- An index at or beyond the end of what it points into. -/
  | outOfRange (length index : Nat)
  /-- An edge of a finished graph that leads to no instruction. -/
  | edgeOutOfRange
deriving DecidableEq, Repr

namespace Fault

def message : Fault → String
  | outOfRange length index =>
    "index out of bounds: the len is " ++ toString length ++ " but the index is " ++
      toString index
  | edgeOutOfRange => "Graph::add_edge: node indices out of bounds"

end Fault
end PythonFlow
