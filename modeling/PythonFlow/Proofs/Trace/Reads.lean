import PythonFlow.Proofs.Frame.Visit
import PythonFlow.Proofs.Trace.Run

/-!
# What a walk through a sketch reads

A walk reads the simple statements for which the instructions after its first were made. It reads the
same in every later sketch.
-/

set_option autoImplicit false

namespace PythonFlow.Sketch

def mark (t : SyntaxTree) (el : NodeId) : List NodeId := if (t.kind el).isSimple then [el] else []

def shown (k : Sketch) (t : SyntaxTree) (x : InstructionId) : List NodeId :=
  match k.element x with
  | some el => mark t el
  | none => []

inductive Reads (t : SyntaxTree) (k : Sketch) : InstructionId → List NodeId → InstructionId → Prop
  | here (x : InstructionId) : Reads t k x [] x
  | step {x y z : InstructionId} {w : List NodeId} (h : k.Edge x y) (hy : y.index < k.size)
      (rest : Reads t k y w z) : Reads t k x (k.shown t y ++ w) z

section reads
variable {t : SyntaxTree} {k k' : Sketch} {x y z : InstructionId} {w w' : List NodeId}

theorem mark_simple {el : NodeId} (h : (t.kind el).isSimple = true) : mark t el = [el] := by
  rw [mark, if_pos h]

theorem mark_other {el : NodeId} (h : (t.kind el).isSimple = false) : mark t el = [] := by
  rw [mark, h]
  rfl

theorem shown_some {el : NodeId} (h : k.element x = some el) : k.shown t x = mark t el := by
  rw [shown, h]

theorem shown_later (h : Later k k') (hx : x.index < k.size) : k'.shown t x = k.shown t x := by
  rw [shown, shown, h.element hx]

theorem Reads.later (h : Reads t k x w y) (hle : Later k k') : Reads t k' x w y := by
  induction h with
  | here x => exact .here x
  | @step x y z w h hy rest ih =>
    rw [← shown_later (t := t) hle hy]
    exact .step (hle.edge h) (Nat.lt_of_lt_of_le hy hle.size_le) ih

theorem Reads.trans (h : Reads t k x w y) (h' : Reads t k y w' z) : Reads t k x (w ++ w') z := by
  induction h with
  | here x => exact h'
  | step h hy rest ih =>
    rw [List.append_assoc]
    exact .step h hy (ih h')

theorem reads_edge (h : k.Edge x y) (hy : y.index < k.size) : Reads t k x (k.shown t y) y := by
  have hread := Reads.step (t := t) h hy (.here y)
  rwa [List.append_nil] at hread

/-- A walk to an instruction of which nothing is read. -/
theorem reads_silent {el : NodeId} (h : k.Edge x y) (hel : k.element y = some el)
    (hk : (t.kind el).isSimple = false) : Reads t k x [] y := by
  have hread := reads_edge (t := t) h (lt_size_of_element hel)
  rwa [shown_some hel, mark_other hk] at hread

theorem reads_place {el : NodeId} {kind : InstructionKind} (h : x ∈ k.arrivals t (some el)) :
    Reads t (k.place t (some el) kind) x (mark t el) k.next := by
  have hread := reads_edge (t := t) (k := k.place t (some el) kind) (x := x) (y := k.next)
    ((edge_place k t (some el) kind x _).2 (.inr ⟨h, rfl⟩))
    (by rw [size_place]; exact Nat.lt_succ_self _)
  rwa [shown_some element_place_next] at hread

/-- A clause is entered without anything being read. -/
theorem reads_into {el : NodeId} (h : x ∈ k.arrivals t (some el)) (hk : (t.kind el).isSimple = false)
    (kind : InstructionKind) : Reads t (k.place t (some el) kind) x [] k.next := by
  rw [← mark_other hk]
  exact reads_place h

theorem mem_arrivals_of_cursor (el : Option NodeId) (h : k.cursor = some x) : x ∈ k.arrivals t el :=
  (mem_arrivals k t el x).2 (.inl h)

end reads

end PythonFlow.Sketch
