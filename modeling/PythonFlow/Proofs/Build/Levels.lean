import PythonFlow.Proofs.Build.Respects
import PythonFlow.Proofs.Build.Run

/-!
# The visitor's count of levels

The visitor counts the levels that it has gone down, and the count is part of what a build runs on. No
rule looks at it, each level leaves it as it found it, and it begins at zero for every owner, whatever
an earlier build may have left. So it comes to the same as a number handed down from node to node:
`follow` visits with the levels that are left, and a build that counts does what one that follows does.
-/

set_option autoImplicit false

namespace PythonFlow
open Build

namespace Build

/-- With the count at `d`, the first does what the second does with any count, and leaves it at `d`. -/
def AtLevel (d : Nat) {α : Type} (p q : Build α) : Prop :=
  ∀ st : BuildState,
    p.run { st with depth := d } = ((q.run st).1, { (q.run st).2 with depth := d })

variable {d : Nat} {α β : Type}

theorem AtLevel.bind {p q : Build α} {f g : α → Build β} (hp : AtLevel d p q)
    (hf : ∀ a, AtLevel d (f a) (g a)) : AtLevel d (p >>= f) (q >>= g) := by
  intro st
  rw [run_bind, run_bind, hp st]
  cases q.run st with
  | mk outcome st' =>
    cases outcome with
    | error e => rfl
    | ok a => exact hf a st'

theorem respects_at_level (d : Nat) : Respects fun _ => AtLevel d where
  pure _ := fun _ => rfl
  bind := AtLevel.bind
  fail _ := fun _ => rfl
  cursor := fun _ => rfl
  set_cursor _ := fun _ => rfl
  create _ _ := fun _ => rfl
  add_edge a b := fun st => by rw [run_add_edge, run_add_edge]
  add_pending _ _ := fun _ => rfl
  take_part f := fun st => by rw [run_take_part, run_take_part]
  take_all := fun _ => rfl
  element_of id := fun st => by rw [run_element_of, run_element_of]
  latest _ := fun _ => rfl

end Build

namespace Visit

def follow (s : Setting) (entering : Visitor) : Nat → NodeId → Build Unit
  | 0, node => do
    entering node
    truncate s.tree node
  | levels + 1, node => do
    entering node
    dispatch s.tree (follow s entering levels) node

def followOwner (s : Setting) (entering : Visitor) (owner : NodeId) : Build Unit := do
  check (s.tree.require owner)
  if (s.tree.kind owner).isOwner then visitChildren s.tree (follow s entering s.maxDepth) owner
  else follow s entering s.maxDepth owner

theorem at_level_enter (s : Setting) (d : Nat) (n : NodeId) : AtLevel d (enter s n) (enter s n) := by
  refine AtLevel.bind ((respects_at_level d).check _) fun _ => ?_
  split
  · intro st
    have hrun : ∀ st : BuildState, (checkpoint s).run st =
        (if s.cancellable && st.raised then throw .cancelled else pure () : Build Unit).run st :=
      fun _ => rfl
    rw [hrun, hrun]
    split <;> rfl
  · exact fun _ => rfl

section visit
variable {s : Setting} {entering : Visitor} (hE : ∀ d n, AtLevel d (entering n) (entering n))

theorem at_level_truncate (t : SyntaxTree) (d : Nat) (n : NodeId) :
    AtLevel d (truncate t n) (truncate t n) := by
  have hnote : AtLevel d (modify fun st => { st with truncated := n :: st.truncated } : Build Unit)
      (modify fun st => { st with truncated := n :: st.truncated }) := fun _ => rfl
  exact hnote.bind fun _ => (respects_at_level d).discard ((respects_at_level d).start_node n)

/-- A level further down counts one more, and one less again at its end. -/
theorem at_level_one_deeper {d : Nat} {p q : Build Unit} (h : AtLevel (d + 1) p q) :
    AtLevel d (oneDeeper p) q := by
  intro st
  have hrun : ∀ st : BuildState, (oneDeeper p).run st =
      ((p.run { st with depth := st.depth + 1 }).1,
        { (p.run { st with depth := st.depth + 1 }).2 with
          depth := (p.run { st with depth := st.depth + 1 }).2.depth - 1 }) := fun _ => rfl
  rw [hrun, h st]
  rfl

include hE

/-- The count ends the descent where no levels are left. -/
theorem at_level_visit {levels bound d : Nat} (hd : d + levels = s.maxDepth) (hbound : levels < bound)
    (n : NodeId) : AtLevel d (visitWith s entering bound n) (follow s entering levels n) := by
  induction levels generalizing bound d n with
  | zero =>
    obtain ⟨bound, rfl⟩ : ∃ b, bound = b + 1 := ⟨bound - 1, by omega⟩
    refine (hE d n).bind fun _ st => ?_
    have hcut : s.maxDepth ≤ d := by omega
    show (if s.maxDepth ≤ d then truncate s.tree n else _ : Build Unit).run { st with depth := d } = _
    rw [if_pos hcut]
    exact at_level_truncate s.tree d n st
  | succ levels ih =>
    obtain ⟨bound, rfl⟩ : ∃ b, bound = b + 1 := ⟨bound - 1, by omega⟩
    refine (hE d n).bind fun _ st => ?_
    have hgoes : ¬ s.maxDepth ≤ d := by omega
    show (if s.maxDepth ≤ d then truncate s.tree n else _ : Build Unit).run { st with depth := d } = _
    rw [if_neg hgoes]
    have hbelow : ∀ m, AtLevel (d + 1) (visitWith s entering bound m) (follow s entering levels m) :=
      fun m => ih (by omega) (by omega) m
    exact at_level_one_deeper ((respects_at_level (d + 1)).rule hbelow n) st

/-- An owner's build does what one does that hands the levels down, and ends with the count at zero. -/
theorem run_visit_owner_with (owner : NodeId) (st : BuildState) :
    (visitOwnerWith s entering owner).run st =
      (((followOwner s entering owner).run st).1,
        { ((followOwner s entering owner).run st).2 with depth := 0 }) := by
  have hV : ∀ n, AtLevel 0 (visitWith s entering (s.maxDepth + 1) n)
      (follow s entering s.maxDepth n) := fun n =>
    at_level_visit hE (by omega) (Nat.lt_succ_self _) n
  have hafter : AtLevel 0 (do
      check (s.tree.require owner)
      if (s.tree.kind owner).isOwner then
        visitChildren s.tree (visitWith s entering (s.maxDepth + 1)) owner
      else visitWith s entering (s.maxDepth + 1) owner) (followOwner s entering owner) := by
    refine AtLevel.bind ((respects_at_level 0).check _) fun _ => ?_
    split
    · exact (respects_at_level 0).children hV owner
    · exact hV owner
  exact hafter st

end visit

theorem run_visit_owner (s : Setting) (owner : NodeId) (st : BuildState) :
    (visitOwner s owner).run st = (((followOwner s (enter s) owner).run st).1,
      { ((followOwner s (enter s) owner).run st).2 with depth := 0 }) :=
  run_visit_owner_with (at_level_enter s) owner st

/-- What passes through every rule, and holds of what is done on the way into a node and where the
descent ends, passes through a build. -/
theorem follow_respects {R : ∀ α : Type, Build α → Build α → Prop} (hR : Respects R) {s s' : Setting}
    (htree : s'.tree = s.tree) {entering entering' : Visitor}
    (hE : ∀ n, R _ (entering n) (entering' n))
    (hcut : ∀ n, R _ (truncate s.tree n) (truncate s.tree n)) (levels : Nat) (n : NodeId) :
    R _ (follow s entering levels n) (follow s' entering' levels n) := by
  induction levels generalizing n with
  | zero =>
    unfold Visit.follow
    rw [htree]
    exact hR.bind (hE n) fun _ => hcut n
  | succ levels ih =>
    unfold Visit.follow
    rw [htree]
    exact hR.bind (hE n) fun _ => hR.rule ih n

theorem follow_owner_respects {R : ∀ α : Type, Build α → Build α → Prop} (hR : Respects R)
    {s s' : Setting} (htree : s'.tree = s.tree) (hdepth : s'.maxDepth = s.maxDepth)
    {entering entering' : Visitor} (hE : ∀ n, R _ (entering n) (entering' n))
    (hcut : ∀ n, R _ (truncate s.tree n) (truncate s.tree n)) (owner : NodeId) :
    R _ (followOwner s entering owner) (followOwner s' entering' owner) := by
  have hV := follow_respects hR htree hE hcut s.maxDepth
  unfold followOwner
  rw [htree, hdepth]
  refine hR.bind (hR.check _) fun _ => ?_
  split
  · exact hR.children hV owner
  · exact hV owner

end Visit
end PythonFlow
