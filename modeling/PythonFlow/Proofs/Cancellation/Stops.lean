import PythonFlow.Proofs.Build.History
import PythonFlow.Proofs.Census.Followed

/-!
# Where a build may be stopped

A build is stopped on the way into a node, and only there. Which nodes it comes to is read off the tree:
the node that is visited, and as far down as levels are left whatever its rule follows. The parts that a
rule starts without a visit are not among them, while a node at the limit is, even though nothing below it
is looked at. `Stops` lays a build that may be stopped beside one that runs to its end, with the list of the
nodes that they come to: the lists of the steps of a sequence are put together, and a rule has the list of
the nodes that it follows.
-/

set_option autoImplicit false

namespace PythonFlow
open Build Visit

namespace SyntaxTree

/-- The nodes that the visit of `n` comes to with so many levels left, in order. -/
def visitedFrom (t : SyntaxTree) : Nat → NodeId → List NodeId
  | 0, n => [n]
  | levels + 1, n => n :: (t.followed n).flatMap (t.visitedFrom levels)

def visitedIn (t : SyntaxTree) (depth : Nat) (owner : NodeId) : List NodeId :=
  if (t.kind owner).isOwner then (t.children owner).flatMap (t.visitedFrom depth)
  else t.visitedFrom depth owner

end SyntaxTree

namespace BuildState

/-- The states agree on what a build gives; the flags may differ. -/
structure Agrees (st st' : BuildState) : Prop extends Alike st st' where
  truncated : st'.truncated = st.truncated

end BuildState

namespace Build
open BuildState

/-- Begun with the flag as `r`, the first step is cancelled, and then one of the listed nodes is one where
it may be; or it does what the second does, and if it comes to its end, none of them is one where it must be. -/
def Stops (r : Bool) (may must : NodeId → Prop) (l : List NodeId) {α : Type} (p q : Build α) : Prop :=
  ∀ st st' : BuildState, st.raised = r → Agrees st st' →
    ((p.run st).1 = .error .cancelled ∧ ∃ n ∈ l, may n) ∨
    ((q.run st').1 = (p.run st).1 ∧ (p.run st).2.raised = r ∧ Agrees (p.run st).2 (q.run st').2 ∧
      ∀ a, (p.run st).1 = .ok a → ∀ n ∈ l, ¬ must n)

section steps
variable {r : Bool} {may must : NodeId → Prop} {α β : Type} {l l' : List NodeId} {p q : Build α}
  {f g : α → Build β}

theorem Stops.bind (hp : Stops r may must l p q) (hf : ∀ a, Stops r may must l' (f a) (g a)) :
    Stops r may must (l ++ l') (p >>= f) (q >>= g) := by
  intro st st' hr hst
  have hfirst := hp st st' hr hst
  rw [run_bind, run_bind]
  cases hrun : p.run st with
  | mk outcome st1 =>
    cases hrun' : q.run st' with
    | mk outcome' st1' =>
      rw [hrun, hrun'] at hfirst
      rcases hfirst with ⟨hcut, n, hn, hmay⟩ | ⟨rfl, hr1, hst1, hnone⟩
      · obtain rfl : outcome = .error .cancelled := hcut
        exact .inl ⟨rfl, n, List.mem_append_left l' hn, hmay⟩
      · cases outcome' with
        | error e => exact .inr ⟨rfl, hr1, hst1, fun _ h => nomatch h⟩
        | ok a =>
          rcases hf a st1 st1' hr1 hst1 with ⟨hcut, n, hn, hmay⟩ | ⟨hout, hr2, hst2, hnone2⟩
          · exact .inl ⟨hcut, n, List.mem_append_right l hn, hmay⟩
          · refine .inr ⟨hout, hr2, hst2, fun b hb n hn => ?_⟩
            rcases List.mem_append.1 hn with hn | hn
            · exact hnone a rfl n hn
            · exact hnone2 b hb n hn

/-- A step of the rules comes to no node. -/
theorem Local.stops (h : Local p) : Stops r may must [] p p := by
  intro st st' hr hst
  obtain ⟨hout, hlike⟩ := h.same st st' hst.toAlike
  refine .inr ⟨hout, (h.raised st).trans hr, ⟨hlike, ?_⟩, fun _ _ n hn => (List.not_mem_nil hn).elim⟩
  rw [h.truncated, h.truncated, hst.truncated]

theorem Local.and_then {p : Build α} (hp : Local p) (hf : ∀ a, Stops r may must l (f a) (g a)) :
    Stops r may must l (p >>= f) (p >>= g) := hp.stops.bind hf

theorem Stops.and_local (hp : Stops r may must l p q) (hf : ∀ a, Local (f a)) :
    Stops r may must l (p >>= f) (q >>= f) := by
  have h : Stops r may must (l ++ []) (p >>= f) (q >>= f) := hp.bind fun a => (hf a).stops
  rwa [List.append_nil] at h

theorem Local.discard (h : Local p) : Local (Functor.discard p) := h.bind fun _ => respects_local.unit

/-- What happens below a node counts for the node. -/
theorem Stops.below {ns : List NodeId} {under : NodeId → List NodeId}
    (h : Stops r (fun n => ∃ m ∈ under n, may m) (fun n => ∃ m ∈ under n, must m) ns p q) :
    Stops r may must (ns.flatMap under) p q := by
  intro st st' hr hst
  rcases h st st' hr hst with ⟨hcut, n, hn, m, hm, hmay⟩ | ⟨hout, hr1, hst1, hnone⟩
  · exact .inl ⟨hcut, m, List.mem_flatMap.2 ⟨n, hn, hm⟩, hmay⟩
  · refine .inr ⟨hout, hr1, hst1, fun a ha m hm hmust => ?_⟩
    obtain ⟨n, hn, hm⟩ := List.mem_flatMap.1 hm
    exact hnone a ha n hn ⟨m, hm, hmust⟩

theorem Stops.above {n : NodeId} {under : NodeId → List NodeId} (h : Stops r may must (under n) p q) :
    Stops r (fun n => ∃ m ∈ under n, may m) (fun n => ∃ m ∈ under n, must m) [n] p q := by
  intro st st' hr hst
  rcases h st st' hr hst with ⟨hcut, hmay⟩ | ⟨hout, hr1, hst1, hnone⟩
  · exact .inl ⟨hcut, n, List.mem_singleton.2 rfl, hmay⟩
  · refine .inr ⟨hout, hr1, hst1, fun a ha m hm => ?_⟩
    obtain rfl := List.mem_singleton.1 hm
    rintro ⟨k, hk, hmust⟩
    exact hnone a ha k hk hmust

end steps
end Build

namespace Visit
variable {r : Bool} {may must : NodeId → Prop} {α : Type}

section lists
variable {f g : α → Build Unit} {under : α → List NodeId}

theorem stops_for_each (l : List α) (h : ∀ a, Stops r may must (under a) (f a) (g a)) :
    Stops r may must (l.flatMap under) (forEach f l) (forEach g l) := by
  induction l with
  | nil => exact respects_local.unit.stops
  | cons a l ih => exact (h a).bind fun _ => ih

end lists

section rules
variable {t : SyntaxTree} {V V' : Visitor} (hV : ∀ n, Stops r may must [n] (V n) (V' n))
include hV

theorem stops_each (l : List NodeId) : Stops r may must l (forEach V l) (forEach V' l) := by
  have h := stops_for_each l hV
  rwa [List.flatMap_singleton'] at h

theorem stops_option (o : Option NodeId) :
    Stops r may must o.toList (visitOption V o) (visitOption V' o) := by
  cases o with
  | none => exact respects_local.unit.stops
  | some n => exact hV n

theorem stops_children (s : NodeId) :
    Stops r may must (t.children s) (visitChildren t V s) (visitChildren t V' s) :=
  stops_each hV (t.children s)

theorem stops_statement (s : NodeId) :
    Stops r may must (t.children s) (visitStatement t V s) (visitStatement t V' s) :=
  (Local.discard (respects_local.start_node s)).and_then fun _ => stops_children hV s

theorem stops_assignment (s : NodeId) :
    Stops r may must ((t.assignedValue s).toList ++ t.targets s) (visitAssignment t V s)
      (visitAssignment t V' s) :=
  (Local.discard (respects_local.start_node s)).and_then fun _ =>
    (stops_option hV _).bind fun _ => stops_each hV _

theorem stops_binding (s : NodeId) :
    Stops r may must (if (t.name s).isSome then [] else t.children s) (visitBinding t V s)
      (visitBinding t V' s) := by
  unfold visitBinding
  cases t.name s with
  | some name => exact (Local.discard (respects_local.add_node t _ _)).stops
  | none => exact stops_children hV s

theorem stops_leaving (s : NodeId) :
    Stops r may must (t.children s) (visitExit t V s) (visitExit t V' s) :=
  (Local.discard (respects_local.start_node s)).and_then fun _ => (stops_children hV s).and_local fun _ =>
    Local.bind (respects_local.rescope s none) fun _ => Local.bind respects_local.cursor fun _ =>
      Local.bind (respects_local.add_pending _ _) fun _ => respects_local.abrupt

theorem stops_condition (o : Option NodeId) :
    Stops r may must o.toList (visitCondition t V o) (visitCondition t V' o) := by
  cases o with
  | none => exact respects_local.unit.stops
  | some c => exact (hV c).and_local fun _ => respects_local.join c

theorem stops_part_body (p : NodeId) :
    Stops r may must (t.body p).toList (visitPartBody t V p) (visitPartBody t V' p) :=
  (Local.discard (respects_local.start_conditional _ _ _)).and_then fun _ => stops_option hV _

theorem stops_if_parts (s : NodeId) (first : Bool) (head : Option InstructionId) (last : Option NodeId)
    (parts : List NodeId) : Stops r may must (parts.flatMap t.followedInPart)
      (visitIfParts t V s first head last parts) (visitIfParts t V' s first head last parts) := by
  induction parts generalizing first head last with
  | nil => exact (respects_local.pure _).stops
  | cons p parts ih =>
    rw [List.flatMap_cons, SyntaxTree.followedInPart, List.append_assoc]
    exact (respects_local.partEntry first head last p).and_then fun _ =>
      (stops_condition hV _).bind fun _ => respects_local.cursor.and_then fun _ =>
      (stops_part_body hV p).bind fun _ => (respects_local.rescope p (some s)).and_then fun _ =>
      respects_local.cursor.and_then fun _ => (respects_local.add_pending _ _).and_then fun _ => ih false _ _

theorem stops_if_else (s : NodeId) (head : Option InstructionId) (last o : Option NodeId) :
    Stops r may must o.toList (visitIfElse t V s head last o) (visitIfElse t V' s head last o) := by
  cases o with
  | none => exact (respects_local.add_pending _ _).stops
  | some p =>
    exact (Local.discard (respects_local.start_conditional p last false)).and_then fun _ =>
      (hV p).and_local fun _ => Local.bind respects_local.cursor fun _ => respects_local.add_pending _ _

theorem stops_if (s : NodeId) :
    Stops r may must ((t.ifParts s).flatMap t.followedInPart ++ (t.elsePart s).toList) (visitIf t V s)
      (visitIf t V' s) :=
  (Local.discard (respects_local.start_node s)).and_then fun _ => respects_local.cursor.and_then fun _ =>
    (stops_if_parts hV s _ _ _ _).bind fun _ => (respects_local.set_cursor _).and_then fun _ =>
    (stops_if_else hV s _ _ _).and_local fun _ => respects_local.abrupt

theorem stops_while_body (s : NodeId) (header : InstructionId) (o : Option NodeId) :
    Stops r may must o.toList (visitWhileBody t V s header o) (visitWhileBody t V' s header o) := by
  cases o with
  | none => exact respects_local.unit.stops
  | some b =>
    exact (Local.discard (respects_local.start_conditional b _ true)).and_then fun _ =>
      (hV b).and_local fun _ => Local.bind (respects_local.fallthrough t b) fun _ =>
      respects_local.add_edges _ _

theorem stops_while_else (s : NodeId) (head : Option InstructionId) (o : Option NodeId) :
    Stops r may must o.toList (visitWhileElse t V s head o) (visitWhileElse t V' s head o) := by
  cases o with
  | none => exact respects_local.unit.stops
  | some p =>
    exact (respects_local.set_cursor head).and_then fun _ =>
      (Local.discard (respects_local.start_conditional p _ false)).and_then fun _ =>
      (hV p).and_local fun _ => Local.bind (respects_local.fallthrough t p) fun _ =>
      respects_local.add_pendings _ _

theorem stops_while (s : NodeId) :
    Stops r may must (t.followedInPart s ++ (t.elsePart s).toList) (visitWhile t V s)
      (visitWhile t V' s) := by
  rw [SyntaxTree.followedInPart, List.append_assoc]
  exact (respects_local.start_node s).and_then fun header => (stops_condition hV _).bind fun _ =>
    respects_local.cursor.and_then fun _ => (respects_local.skip s _).and_then fun _ =>
    (stops_while_body hV s header _).bind fun _ => (stops_while_else hV s _ _).and_local fun _ =>
    Local.bind respects_local.abrupt fun _ => respects_local.check_pending t header

theorem stops_for_body (s : NodeId) : Stops r may must (t.followedInRound s)
    (visitForBody t V s (t.body s)) (visitForBody t V' s (t.body s)) := by
  unfold SyntaxTree.followedInRound
  cases t.body s with
  | none => exact (respects_local.pure _).stops
  | some b =>
    exact (respects_local.start_node b).and_then fun first => (stops_each hV _).bind fun _ =>
      (hV b).and_local fun _ => Local.bind (respects_local.fallthrough t b) fun _ =>
      respects_local.close_round s first _

theorem stops_for_else (s : NodeId) (exhausted : List InstructionId) (o : Option NodeId) :
    Stops r may must o.toList (visitForElse t V s exhausted o) (visitForElse t V' s exhausted o) := by
  cases o with
  | none => exact respects_local.unit.stops
  | some p =>
    exact (respects_local.start_node p).and_then fun entry => (respects_local.add_edges entry _).and_then fun _ =>
      (hV p).and_local fun _ => Local.bind (respects_local.fallthrough t p) fun _ =>
      respects_local.add_pendings _ _

theorem stops_for (s : NodeId) :
    Stops r may must ((t.iterable s).toList ++ (t.followedInRound s ++ (t.elsePart s).toList))
      (visitFor t V s) (visitFor t V' s) :=
  (Local.discard (respects_local.start_node s)).and_then fun _ => (stops_option hV _).bind fun _ =>
    respects_local.cursor.and_then fun _ => (respects_local.skip s _).and_then fun _ =>
    (stops_for_body hV s).bind fun _ => (respects_local.set_cursor _).and_then fun _ =>
    (stops_for_else hV s _ _).and_local fun _ => respects_local.abrupt

theorem stops_try_body (statement : InstructionId) (o : Option NodeId) :
    Stops r may must o.toList (visitTryBody t V statement o) (visitTryBody t V' statement o) := by
  cases o with
  | none => exact (respects_local.pure _).stops
  | some p =>
    exact (respects_local.start_node p).and_then fun _ => (hV p).and_local fun _ =>
      Local.bind (respects_local.fallthrough t p) fun _ => respects_local.pure _

theorem stops_try_else (s : NodeId) (exits : List InstructionId) (o : Option NodeId) :
    Stops r may must o.toList (visitTryElse t V s exits o) (visitTryElse t V' s exits o) := by
  cases o with
  | none => exact (respects_local.add_pendings _ _).stops
  | some p =>
    exact respects_local.abrupt.and_then fun _ => (respects_local.start_node p).and_then fun entry =>
      (respects_local.add_edges entry exits).and_then fun _ => (hV p).and_local fun _ =>
      Local.bind (respects_local.fallthrough t p) fun _ => respects_local.add_pendings _ _

theorem stops_handler (s : NodeId) (entry : InstructionId) (exits : List InstructionId) (p : NodeId) :
    Stops r may must [p] (visitHandler t V s entry exits p) (visitHandler t V' s entry exits p) :=
  respects_local.abrupt.and_then fun _ => (respects_local.start_node p).and_then fun handler =>
    (respects_local.add_edge entry handler).and_then fun _ =>
    (respects_local.add_edges handler exits).and_then fun _ => (hV p).and_local fun _ =>
    Local.bind (respects_local.fallthrough t p) fun _ =>
    Local.bind (respects_local.add_pendings _ _) fun _ => respects_local.pure handler

theorem stops_handlers (s : NodeId) (entry : InstructionId) (exits : List InstructionId)
    (parts : List NodeId) : Stops r may must parts (visitHandlers t V s entry exits parts)
      (visitHandlers t V' s entry exits parts) := by
  induction parts with
  | nil => exact (respects_local.pure _).stops
  | cons p parts ih =>
    exact (stops_handler hV s entry exits p).bind fun _ => ih.and_local fun _ => respects_local.pure _

theorem stops_finally (o : Option NodeId) :
    Stops r may must o.toList (visitFinally t V o) (visitFinally t V' o) := by
  cases o with
  | none => exact (respects_local.pure _).stops
  | some p =>
    exact respects_local.abrupt.and_then fun _ => (respects_local.start_node p).and_then fun _ =>
      (hV p).and_local fun _ => Local.bind (respects_local.fallthrough t p) fun _ =>
      Local.bind (respects_local.add_pendings _ _) fun _ => respects_local.pure _

theorem stops_try (s : NodeId) :
    Stops r may must ((t.tryPart s).toList ++ ((t.elsePart s).toList ++
      (t.exceptParts s ++ (t.finallyPart s).toList))) (visitTry t V s) (visitTry t V' s) :=
  (respects_local.start_node s).and_then fun statement => (stops_try_body hV statement _).bind fun body =>
    (stops_try_else hV s body.2 _).bind fun _ => (stops_handlers hV s body.1 body.2 _).bind fun handlers =>
    (stops_finally hV _).and_local fun finally? =>
    Local.bind (respects_local.process (respects_local.settle_edge s handlers finally?)) fun _ =>
    respects_local.abrupt

theorem stops_filter (s clause : NodeId) :
    Stops r may must (t.condition clause).toList (visitFilter t V s clause)
      (visitFilter t V' s clause) := by
  unfold visitFilter
  cases t.condition clause with
  | none => exact respects_local.unit.stops
  | some c =>
    exact (hV c).and_local fun _ => Local.bind respects_local.cursor fun head =>
      Local.bind (respects_local.start_conditional c _ true) fun _ =>
      Local.bind (respects_local.set_cursor head) fun _ =>
      Local.bind (respects_local.start_conditional c _ false) fun _ =>
      Local.bind (respects_local.add_pending _ _) fun _ => respects_local.set_cursor _

theorem stops_clause (clause : NodeId) :
    Stops r may must (t.followedInClause clause) (visitClause t V clause) (visitClause t V' clause) :=
  (stops_option hV _).bind fun _ => stops_each hV _

theorem stops_comprehension (s : NodeId) :
    Stops r may must ((t.comprehensionIfs s).flatMap (fun c => (t.condition c).toList) ++
      ((t.comprehensionFors s).flatMap t.followedInClause ++ (t.comprehensionResult s).toList))
      (visitComprehension t V s) (visitComprehension t V' s) :=
  (Local.discard (respects_local.start_node s)).and_then fun _ =>
    (stops_for_each _ fun clause => stops_filter hV s clause).bind fun _ =>
    (stops_for_each _ fun clause => stops_clause hV clause).bind fun _ => stops_option hV _

/-- The rule of a node comes to the nodes that it follows. -/
theorem stops_rule (s : NodeId) :
    Stops r may must (t.followed s) (dispatch t V s) (dispatch t V' s) := by
  unfold dispatch SyntaxTree.followed
  cases t.kind s with
  | functionDef | classDef => exact (respects_local.definition s).stops
  | lambda => exact respects_local.unit.stops
  | statement | importStatement => exact stops_statement hV s
  | assignment => exact stops_assignment hV s
  | target | parameter | importBinding => exact stops_binding hV s
  | ifStatement => exact stops_if hV s
  | whileLoop => exact stops_while hV s
  | forLoop => exact stops_for hV s
  | breakJump => exact (respects_local.breakJump s).stops
  | continueJump => exact (respects_local.continueJump s).stops
  | returnExit | raiseExit => exact stops_leaving hV s
  | tryStatement => exact stops_try hV s
  | comprehension => exact stops_comprehension hV s
  | module | parameters | block | ifPart | elifPart | elsePart | tryPart | exceptPart
  | finallyPart | comprehensionFor | comprehensionIf | expression => exact stops_children hV s

end rules

theorem stops_truncate (t : SyntaxTree) (n : NodeId) :
    Stops r may must [] (truncate t n) (truncate t n) := by
  have hnote : Stops r may must [] (modify fun st => { st with truncated := n :: st.truncated } : Build Unit)
      (modify fun st => { st with truncated := n :: st.truncated }) := by
    intro st st' hr hst
    exact .inr ⟨rfl, hr, ⟨⟨hst.graph, hst.pending, hst.cursor⟩, congrArg (n :: ·) hst.truncated⟩,
      fun _ _ m hm => (List.not_mem_nil hm).elim⟩
  exact hnote.bind fun _ => (Local.discard (respects_local.start_node n)).stops

section visit
variable {s s' : Setting} (htree : s'.tree = s.tree) {entering entering' : Visitor}
  (hE : ∀ n, Stops r may must [n] (entering n) (entering' n))
include htree hE

theorem stops_follow (levels : Nat) (n : NodeId) :
    Stops r may must (s.tree.visitedFrom levels n) (follow s entering levels n)
      (follow s' entering' levels n) := by
  induction levels generalizing n with
  | zero =>
    unfold follow
    rw [htree]
    exact (hE n).bind fun _ => stops_truncate s.tree n
  | succ levels ih =>
    unfold follow
    rw [htree]
    refine (hE n).bind fun _ => Stops.below ?_
    exact stops_rule (fun m => (ih m).above) n

theorem stops_follow_owner (hdepth : s'.maxDepth = s.maxDepth) (owner : NodeId) :
    Stops r may must (s.tree.visitedIn s.maxDepth owner) (followOwner s entering owner)
      (followOwner s' entering' owner) := by
  have hV := stops_follow htree hE s.maxDepth
  unfold followOwner SyntaxTree.visitedIn
  rw [htree, hdepth]
  refine (respects_local.check _).and_then fun _ => ?_
  split
  · exact Stops.below (stops_children (fun n => (hV n).above) owner)
  · exact hV owner

/-- A build comes to the nodes that are listed for its owner. -/
theorem stops_build (hdepth : s'.maxDepth = s.maxDepth)
    (hlevel : ∀ d n, AtLevel d (entering n) (entering n))
    (hlevel' : ∀ d n, AtLevel d (entering' n) (entering' n)) (owner : NodeId) :
    Stops r may must (s.tree.visitedIn s.maxDepth owner)
      (afterClear s.tree (visitOwnerWith s entering) owner)
      (afterClear s'.tree (visitOwnerWith s' entering') owner) := by
  have hvisit : Stops r may must (s.tree.visitedIn s.maxDepth owner) (visitOwnerWith s entering owner)
      (visitOwnerWith s' entering' owner) := by
    intro st st' hr hst
    rw [run_visit_owner_with hlevel, run_visit_owner_with hlevel']
    rcases stops_follow_owner htree hE hdepth owner st st' hr hst with hcut | ⟨hout, hr1, hst1, hnone⟩
    · exact .inl hcut
    · exact .inr ⟨hout, hr1, ⟨⟨hst1.graph, hst1.pending, hst1.cursor⟩, hst1.truncated⟩, hnone⟩
  rw [htree]
  refine (respects_local.add_node s.tree none .plain).and_then fun entry => hvisit.and_local fun _ => ?_
  refine Local.bind (respects_local.add_node s.tree none .plain) fun exit => ?_
  refine ⟨fun _ => rfl, fun _ => rfl, fun st st' hst => ⟨?_, hst⟩⟩
  exact congrArg (fun g => (.ok ⟨owner, entry, exit, g⟩ : Except Stop ControlFlow)) hst.graph

end visit
end Visit
end PythonFlow
