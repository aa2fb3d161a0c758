import PythonFlow.Config.Writing
import PythonFlow.Command.Disk
import PythonFlow.Flow.Script
import PythonFlow.Main
import PythonFlow.Proofs.Tree.Below
import PythonFlow.Proofs.Tree.Layout
import PythonFlow.Proofs.Tree.Grammar
import PythonFlow.Proofs.Graph.Closure
import PythonFlow.Proofs.Sketch.Basic
import PythonFlow.Proofs.Sketch.Drawing
import PythonFlow.Proofs.Sketch.Faithful
import PythonFlow.Proofs.Frame.Basic
import PythonFlow.Proofs.Frame.Branches
import PythonFlow.Proofs.Frame.Loops
import PythonFlow.Proofs.Frame.Tries
import PythonFlow.Proofs.Frame.Visit
import PythonFlow.Proofs.Reach.Basic
import PythonFlow.Proofs.Reach.Branches
import PythonFlow.Proofs.Reach.Exit
import PythonFlow.Proofs.Frame.Gate
import PythonFlow.Proofs.Tree.Slots
import PythonFlow.Proofs.Tree.Arrangement
import PythonFlow.Proofs.Census.Partition
import PythonFlow.Proofs.Census.Writes
import PythonFlow.Proofs.Reach.Exceptions
import PythonFlow.Proofs.Trace.Paths
import PythonFlow.Proofs.Depth.Limit
import PythonFlow.Proofs.Graph.Construction
import PythonFlow.Proofs.Script.Faults
import PythonFlow.Proofs.Script.Resolution
import PythonFlow.Proofs.Graph.Backward
import PythonFlow.Proofs.Account.Owner
import PythonFlow.Proofs.Build.History
import PythonFlow.Proofs.Locality.Graphs
import PythonFlow.Proofs.Definitions.Lowered
import PythonFlow.Proofs.Choice.Branches
import PythonFlow.Proofs.Choice.Iterations
import PythonFlow.Proofs.Arrival.Pending
import PythonFlow.Proofs.Graph.Calls
import PythonFlow.Proofs.Tree.Growth
import PythonFlow.Proofs.Reach.Dead
import PythonFlow.Proofs.Cancellation.Flag
import PythonFlow.Proofs.Assignment.Chains
import PythonFlow.Proofs.Render.Dot
import PythonFlow.Proofs.Render.Identifier
import PythonFlow.Proofs.Command.Findings
import PythonFlow.Proofs.Config.RoundTrip
import PythonFlow.Proofs.Growing.Walk
