import PythonFlow.Proofs.Growing.Fields
import PythonFlow.Proofs.Tree.Adoption
import PythonFlow.Proofs.Tree.Growth

/-!
# What the steps add to a tree

A step that grows a tree below one of its nodes does not fail, and all it does is to push shapes there.
This is kept when steps follow one another and when the push of a node is followed by steps that grow
the new node.
-/

set_option autoImplicit false

namespace PythonFlow.Growing
open Lowering Concrete Shape

/-- Whatever the tree, the step succeeds, and what it does is to push the shapes below `parent`. -/
def Adopts {α : Type} (parent : NodeId) (ss : List Shape) (m : Growing α) : Prop :=
  ∀ t : SyntaxTree, parent.index < t.size → ∃ a, m.run t = (.ok a, pushAllTo t parent ss)

section steps
variable {α β : Type} {parent : NodeId} {ss rest : List Shape} {m : Growing α}

theorem run_bind_ok {f : α → Growing β} {t t' : SyntaxTree} {a : α} (h : m.run t = (.ok a, t')) :
    (m >>= f).run t = (f a).run t' := by
  rw [ExceptT.run_bind]
  change StateT.bind m.run _ t = _
  unfold StateT.bind
  rw [h]
  rfl

theorem adopts_pure (a : α) : (pure a : Growing α).Adopts parent [] := fun _ _ => ⟨a, rfl⟩

theorem Adopts.bind (h : m.Adopts parent ss) {f : α → Growing β}
    (hf : ∀ a, (f a).Adopts parent rest) : (m >>= f).Adopts parent (ss ++ rest) := by
  intro t hp
  obtain ⟨a, ha⟩ := h t hp
  have hlt : parent.index < (pushAllTo t parent ss).size := by
    rw [size_push_all_to hp]
    exact Nat.lt_add_right _ hp
  obtain ⟨b, hb⟩ := hf a _ hlt
  exact ⟨b, by rw [run_bind_ok ha, hb, push_all_to_append]⟩

/-- What a step gives does not matter to the tree. -/
theorem Adopts.giving (h : m.Adopts parent ss) (f : α → β) :
    (m >>= fun a => pure (f a)).Adopts parent ss :=
  List.append_nil ss ▸ h.bind fun a => adopts_pure (f a)

theorem Adopts.discard (h : m.Adopts parent ss) : (discard m).Adopts parent ss :=
  h.giving fun _ => ()

/-- Steps for the members of a list, one after the other. -/
theorem adopts_each {γ : Type} {f : γ → Growing Unit} {g : γ → List Shape} (cs : List γ)
    (h : ∀ c ∈ cs, (f c).Adopts parent (g c)) : (cs.forM f).Adopts parent (cs.flatMap g) := by
  induction cs with
  | nil => exact adopts_pure ()
  | cons c rest ih =>
    rw [List.forM, List.flatMap_cons]
    exact (h c List.mem_cons_self).bind fun _ => ih fun d hd => h d (List.mem_cons_of_mem c hd)

end steps

section nodes
variable {α : Type} {source : String} {parent : NodeId} {k : SyntaxKind} {r : Role} {c : Concrete}
  {s : Span} {name : Option String} {text : String} {ss : List Shape}

def Pushes (parent : NodeId) (k : SyntaxKind) (r : Role) (s : Span) (name : Option String)
    (text : String) (m : Growing NodeId) : Prop :=
  ∀ t : SyntaxTree, parent.index < t.size →
    m.run t = (.ok ⟨t.size⟩, dress (t.push parent k r s).1 ⟨t.size⟩ name text)

/-- The node that has just been pushed is there. -/
theorem pushed_lt (t : SyntaxTree) :
    t.size < (dress (t.push parent k r s).1 ⟨t.size⟩ name text).size := by
  rw [size_dress, SyntaxTree.size_push]
  exact Nat.lt_succ_self _

theorem run_push {t : SyntaxTree} (hp : parent.index < t.size) :
    (push parent k r s).run t = (.ok ⟨t.size⟩, (t.push parent k r s).1) := by
  have hget : (modifyGet fun t => ((t.push parent k r s).2, (t.push parent k r s).1) :
      Growing (Except Fault NodeId)).run t = (.ok (t.push parent k r s).2, (t.push parent k r s).1) := rfl
  refine (run_bind_ok hget).trans ?_
  rw [SyntaxTree.push_ok k r s (Nat.le_of_lt hp)]
  rfl

theorem run_change {t : SyntaxTree} {id : NodeId} (h : id.index < t.size) (f : SyntaxTree → SyntaxTree) :
    (change id f).run t = (.ok (), f t) := by
  have hget : (get : Growing SyntaxTree).run t = (.ok t, t) := rfl
  rw [change, run_bind_ok hget, (t.require_ok id).2 h]
  rfl

theorem pushes_push : (push parent k r s).Pushes parent k r s none "" := fun t hp => by
  rw [run_push hp, dress_push hp]

/-- A node that is changed when it has been pushed is as good as pushed so. -/
theorem Pushes.changed {m : Growing NodeId} (hm : m.Pushes parent k r s name text)
    {f : NodeId → SyntaxTree → SyntaxTree} {g : SyntaxNode → SyntaxNode} {s' : Span}
    {name' : Option String} {text' : String} (hf : ∀ id t, f id t = t.update id g)
    (hg : g ⟨k, r, some parent, [], s, name, text⟩ = ⟨k, r, some parent, [], s', name', text'⟩) :
    (do let id ← m; change id (f id); return id : Growing NodeId).Pushes parent k r s' name' text' := by
  intro t hp
  have hlast : t.size = (t.nodes.modify parent.index (adopt [⟨t.size⟩])).size := Array.size_modify.symm
  have htree : f ⟨t.size⟩ (dress (t.push parent k r s).1 ⟨t.size⟩ name text) =
      dress (t.push parent k r s').1 ⟨t.size⟩ name' text' := by
    rw [hf]
    refine congrArg SyntaxTree.mk (Eq.trans ?_ (nodes_push t hp k r s' name' text').symm)
    rw [nodes_push t hp, modify_push_last g hlast, hg]
  have hchange : (change ⟨t.size⟩ (f ⟨t.size⟩)).run (dress (t.push parent k r s).1 ⟨t.size⟩ name text) =
      (.ok (), f ⟨t.size⟩ (dress (t.push parent k r s).1 ⟨t.size⟩ name text)) :=
    run_change (pushed_lt t) (f ⟨t.size⟩)
  rw [run_bind_ok (hm t hp), run_bind_ok hchange, htree]
  rfl

theorem pushes_enter : (enter source parent k r c).Pushes parent k r c.span none
    (Source.snippet (c.text source)) :=
  pushes_push.changed (fun _ _ => rfl) rfl

theorem pushes_named (name : String) : (enterNamed source parent k r c name).Pushes parent k r c.span
    (some name) (Source.snippet (c.text source)) :=
  pushes_enter.changed (fun _ _ => rfl) rfl

/-- What is added to a new node stands below it. -/
theorem Pushes.bind {m : Growing NodeId} {body : NodeId → Growing α}
    (hm : m.Pushes parent k r s name text) (h : ∀ id, (body id).Adopts id ss) :
    (m >>= body).Adopts parent [.node k r s name text ss] := by
  intro t hp
  obtain ⟨a, ha⟩ := h ⟨t.size⟩ _ (pushed_lt t)
  exact ⟨a, by rw [run_bind_ok (hm t hp), ha, pushAllTo, pushTo, pushAllTo]⟩

theorem Pushes.leaf {m : Growing NodeId} (hm : m.Pushes parent k r s name text) :
    m.Adopts parent [.node k r s name text []] :=
  bind_pure m ▸ hm.bind fun id => adopts_pure id

end nodes
end PythonFlow.Growing
