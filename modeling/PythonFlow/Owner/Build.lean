import PythonFlow.Flow.Visit
import PythonFlow.Owner.Name

/-!
# Graphs of owners

One graph for each selected owner, in order of index. The builds share nothing but the cancellation
flag.
-/

set_option autoImplicit false

namespace PythonFlow

namespace Setting

/-- The setting of a build under a configuration. A build without a cancellation flag is never
cancelled. -/
def ofConfig (t : SyntaxTree) (c : Config) (cancel : Option Bool) : Setting :=
  ⟨t, c.depth, cancel.isSome⟩

end Setting

/-- What one build gives: its outcome, and the nodes it recorded by a single instruction, in order
of occurrence. -/
structure Built where
  outcome : Except Stop ControlFlow
  truncated : List NodeId

def buildOwner (t : SyntaxTree) (c : Config) (cancel : Option Bool) (owner : NodeId) : Built :=
  let s := Setting.ofConfig t c cancel
  let (outcome, st) :=
    (Build.build t (Visit.visitOwner s) owner).run (BuildState.initial (cancel.getD false))
  ⟨outcome, st.truncated.reverse⟩

structure OwnerFlow where
  owner : NodeId
  kind : SyntaxKind
  name : String
  flow : ControlFlow
  /-- Nodes recorded by a single instruction, in order of occurrence. -/
  truncated : List NodeId

/-- Builds the owners of the list in turn, as far as the first build that stops. -/
def buildOwners (t : SyntaxTree) (c : Config) (cancel : Option Bool) :
    List NodeId → Except Stop (List OwnerFlow)
  | [] => .ok []
  | owner :: rest =>
    let built := buildOwner t c cancel owner
    match built.outcome with
    | .error stop => .error stop
    | .ok flow =>
      match buildOwners t c cancel rest with
      | .error stop => .error stop
      | .ok flows =>
        .ok (⟨owner, t.kind owner, t.qualifiedName owner, flow, built.truncated⟩ :: flows)

def buildFlows (t : SyntaxTree) (c : Config) (cancel : Option Bool) :
    Except Stop (List OwnerFlow) :=
  buildOwners t c cancel (t.selectOwners c)

end PythonFlow
