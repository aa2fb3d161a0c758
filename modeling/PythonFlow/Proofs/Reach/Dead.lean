import PythonFlow.Proofs.Build.History
import PythonFlow.Proofs.Locality.Rules
import PythonFlow.Proofs.Reach.Exit

/-!
# Statements that are never reached

A statement of an owner is dead if there are instructions in it and no path leads from the entry to any of
them. What is below a dead statement need not be dead, since there may be no instruction in it, and a
statement is alive as soon as one of its parts is. The list of dead statements holds the topmost ones: each
dead statement is in exactly one of them.
-/

set_option autoImplicit false

namespace PythonFlow

namespace SyntaxTree

def Topmost (t : SyntaxTree) (D : NodeId → Prop) (s : NodeId) : Prop :=
  D s ∧ ∀ m, D m → ¬ t.Inside s m

namespace Ordered
variable {t : SyntaxTree} (ho : t.Ordered) {x n o : NodeId}
include ho

/-- The nodes on the way up from a node, as far as another one above it. -/
theorem mem_lineage_to (hx : t.Below x o) :
    n ∈ (t.lineage x).takeWhile (· != o) ↔ t.Below x n ∧ t.Inside n o := by
  induction x using ho.up_induction with
  | step x ih =>
    rcases ho.below_iff_parent.1 hx with rfl | ⟨p, hp, hpo⟩
    · have hstop : (t.lineage x).takeWhile (· != x) = [] := by simp [lineage_eq_cons]
      rw [hstop]
      exact ⟨fun h => absurd h List.not_mem_nil, fun h => absurd h.1 (ho.not_below_of_inside h.2)⟩
    · have hin : t.Inside x o := (ho.inside_iff_parent hp).2 hpo
      rw [ho.lineage_of_parent hp, List.takeWhile_cons_of_pos (by simpa using hin.2), List.mem_cons,
        ih p hp hpo, below_iff_eq_or_inside (a := x), ho.inside_iff_parent hp]
      constructor
      · rintro (rfl | ⟨hpn, hn⟩)
        · exact ⟨.inl rfl, hin⟩
        · exact ⟨.inr hpn, hn⟩
      · rintro ⟨rfl | hpn, hn⟩
        · exact .inl rfl
        · exact .inr ⟨hpn, hn⟩

/-- The nodes strictly between a node and another one above it. -/
theorem mem_above_to (hx : t.Inside x o) :
    n ∈ (t.above x).takeWhile (· != o) ↔ t.Inside x n ∧ t.Inside n o := by
  obtain ⟨p, hp, hpo⟩ := ho.exists_parent hx
  rw [above, ho.lineage_of_parent hp, List.tail_cons, ho.mem_lineage_to hpo, ho.inside_iff_parent hp]

/-- Of the nodes with a property that stand above a node with the property there is a topmost one. -/
theorem exists_topmost {D : NodeId → Prop} (hx : D x) : ∃ m, t.Topmost D m ∧ t.Below x m := by
  induction hi : x.index using Nat.strong_induction_on generalizing x with
  | _ i ih =>
    -- Above a node the indices fall, so that a node further up cannot be found for ever.
    by_cases htop : ∃ m, D m ∧ t.Inside x m
    · obtain ⟨m, hm, hxm⟩ := htop
      obtain ⟨top, htop, hmt⟩ := ih m.index (hi ▸ ho.index_lt hxm) hm rfl
      exact ⟨top, htop, ho.below_trans hxm.1 hmt⟩
    · exact ⟨x, ⟨hx, fun m hm hxm => htop ⟨m, hm, hxm⟩⟩, below_refl t x⟩

/-- No node is below two topmost ones. -/
theorem topmost_unique {D : NodeId → Prop} {a b : NodeId} (ha : t.Topmost D a) (hb : t.Topmost D b)
    (hxa : t.Below x a) (hxb : t.Below x b) : a = b := by
  by_contra hne
  rcases ho.below_total hxa hxb with h | h
  · exact ha.2 b hb.1 ⟨h, hne⟩
  · exact hb.2 a ha.1 ⟨h, Ne.symm hne⟩

end Ordered
end SyntaxTree

namespace ControlFlow
variable (f : ControlFlow) (t : SyntaxTree)

def Holds (s : NodeId) (a : InstructionId) : Prop :=
  a.index < f.graph.size ∧ ∃ e, (f.graph.instruction a).element = some e ∧ t.Below e s

/-- A statement strictly below the owner with instructions in it, to none of which a path leads from the
entry. -/
structure Dead (s : NodeId) : Prop where
  statement : (t.kind s).isStatement = true
  inside : t.Inside s f.owner
  held : ∃ a, f.Holds t s a
  unreached : ∀ a, f.Holds t s a → ¬ ∃ p, Path f.graph.Edge f.entry p a

def Housed : Prop := ∀ a e, (f.graph.instruction a).element = some e → t.Inside e f.owner

end ControlFlow

def Lit (marks : Array Bool) (s : NodeId) : Prop := marks.getD s.index false = true

theorem lit_fold (l : List NodeId) (marks : Array Bool) (s : NodeId) :
    Lit (l.foldl (fun m n => m.set! n.index true) marks) s ↔
      Lit marks s ∨ s.index < marks.size ∧ s ∈ l := by
  induction l generalizing marks with
  | nil => simp
  | cons n l ih =>
    have hindex : s.index = n.index ↔ s = n := ⟨congrArg NodeId.mk, congrArg NodeId.index⟩
    rw [List.foldl_cons, ih, Lit, ControlFlow.getD_set_true, hindex, Array.size_set!, List.mem_cons,
      or_assoc, ← and_or_left, Lit]

theorem size_fold (l : List NodeId) (marks : Array Bool) :
    (l.foldl (fun m n => m.set! n.index true) marks).size = marks.size := by
  induction l generalizing marks with
  | nil => rfl
  | cons n l ih => rw [List.foldl_cons, ih, Array.size_set!]

namespace ControlFlow
variable {f : ControlFlow} {t : SyntaxTree}

/-- The marks after the instructions of a list: what was marked, and the statements on the way up from the
nodes of those that pass the test. -/
theorem lit_statements (test : InstructionId → Bool) (instructions : List Instruction)
    (marks : Array Bool) (s : NodeId) : Lit (f.markStatements t test instructions marks) s ↔
      Lit marks s ∨ s.index < marks.size ∧ ∃ i ∈ instructions, test i.id = true ∧
        ∃ e, i.element = some e ∧ s ∈ f.within t (t.lineage e) := by
  induction instructions generalizing marks with
  | nil => simp [markStatements]
  | cons i rest ih =>
    rw [markStatements]
    by_cases htest : test i.id = true
    · cases hel : i.element with
      | none => simp [ih, htest, hel]
      | some e =>
        simp only [htest, if_true, ih, lit_fold, size_fold, List.mem_cons, exists_eq_or_imp, hel,
          Option.some.injEq, exists_eq_left', true_and, or_assoc, and_or_left]
    · simp [ih, htest]

end ControlFlow

section dead
variable {n : Neighbours} {f : ControlFlow} {t : SyntaxTree}

def Neighbours.tellsDead (n : Neighbours) (f : ControlFlow) (t : SyntaxTree) (s : NodeId) : Bool :=
  (f.markStatements t (fun _ => true) f.graph.instructions.toList
      (Array.replicate t.size false)).getD s.index false &&
    !(f.markStatements t (fun a => (n.fromEntry f).getD a.index false) f.graph.instructions.toList
      (Array.replicate t.size false)).getD s.index false

theorem Neighbours.mem_dead_statements {s : NodeId} : s ∈ n.deadStatements f t ↔
    s.index < t.size ∧ n.tellsDead f t s = true ∧
      ∀ m ∈ (t.above s).takeWhile (· != f.owner), n.tellsDead f t m = false := by
  refine List.mem_filter.trans (and_congr SyntaxTree.mem_ids ?_)
  show (n.tellsDead f t s && !((t.above s).takeWhile (· != f.owner)).any (n.tellsDead f t)) = true ↔ _
  simp only [Bool.and_eq_true, Bool.not_eq_true', List.any_eq_false, Bool.not_eq_true]

variable (ho : t.Ordered) (hhoused : f.Housed t)
include ho hhoused

theorem lit_iff_holds (test : InstructionId → Bool) (s : NodeId) :
    Lit (f.markStatements t test f.graph.instructions.toList (Array.replicate t.size false)) s ↔
      (t.kind s).isStatement = true ∧ t.Inside s f.owner ∧ ∃ a, f.Holds t s a ∧ test a = true := by
  have hblank : ¬ Lit (Array.replicate t.size false) s := by
    rw [Lit, ControlFlow.getD_blank]
    exact Bool.false_ne_true
  have hwithin : ∀ a e, (f.graph.instruction a).element = some e →
      (s ∈ f.within t (t.lineage e) ↔
        (t.kind s).isStatement = true ∧ t.Inside s f.owner ∧ t.Below e s) := by
    intro a e hel
    rw [ControlFlow.within, List.mem_filter, ho.mem_lineage_to (hhoused a e hel).1]
    tauto
  rw [ControlFlow.lit_statements, or_iff_right hblank, Array.size_replicate]
  constructor
  · rintro ⟨-, i, hi, htest, e, hel, hs⟩
    obtain ⟨a, ha, rfl⟩ := InstructionGraph.mem_instructions.1 hi
    obtain ⟨hstatement, hinside, hbelow⟩ := (hwithin a e hel).1 hs
    rw [InstructionGraph.id_instruction ha] at htest
    exact ⟨hstatement, hinside, a, ⟨ha, e, hel, hbelow⟩, htest⟩
  · rintro ⟨hstatement, hinside, a, ⟨ha, e, hel, hbelow⟩, htest⟩
    refine ⟨ho.index_lt_size_of_inside hinside, f.graph.instruction a,
      InstructionGraph.mem_instructions.2 ⟨a, ha, rfl⟩, ?_, e, hel, ?_⟩
    · rw [InstructionGraph.id_instruction ha]
      exact htest
    exact (hwithin a e hel).2 ⟨hstatement, hinside, hbelow⟩

variable (hn : n.Enumerates f.graph) (hf : f.graph.Closed)
include hn hf

theorem tells_dead_iff (s : NodeId) : n.tellsDead f t s = true ↔ f.Dead t s := by
  have hpresent := lit_iff_holds ho hhoused (fun _ => true) s
  have hlive := lit_iff_holds ho hhoused (fun a => (n.fromEntry f).getD a.index false) s
  have hreach : ∀ a, f.Holds t s a →
      ((n.fromEntry f).getD a.index false = true ↔ ∃ p, Path f.graph.Edge f.entry p a) := by
    intro a ha
    rw [Path.exists_iff]
    exact (Neighbours.marked_from_entry hn hf a).trans (and_iff_right ha.1)
  rw [Neighbours.tellsDead, Bool.and_eq_true, Bool.not_eq_true', ← Bool.not_eq_true]
  constructor
  · rintro ⟨hyes, hno⟩
    obtain ⟨hstatement, hinside, a, ha, -⟩ := hpresent.1 hyes
    refine ⟨hstatement, hinside, ⟨a, ha⟩, fun b hb hp => hno (hlive.2 ?_)⟩
    exact ⟨hstatement, hinside, b, hb, (hreach b hb).2 hp⟩
  · rintro ⟨hstatement, hinside, ⟨a, ha⟩, hunreached⟩
    refine ⟨hpresent.2 ⟨hstatement, hinside, a, ha, rfl⟩, fun hyes => ?_⟩
    obtain ⟨-, -, b, hb, hlit⟩ := hlive.1 hyes
    exact hunreached b hb ((hreach b hb).1 hlit)

/-- The list holds the topmost dead statements. -/
theorem mem_dead_iff_topmost (s : NodeId) : s ∈ n.deadStatements f t ↔ t.Topmost (f.Dead t) s := by
  have htells := tells_dead_iff ho hhoused hn hf
  rw [Neighbours.mem_dead_statements, htells]
  constructor
  · rintro ⟨-, hdead, habove⟩
    refine ⟨hdead, fun m hm hsm => ?_⟩
    have hfalse := habove m ((ho.mem_above_to hdead.inside).2 ⟨hsm, hm.inside⟩)
    rw [(htells m).2 hm] at hfalse
    cases hfalse
  · rintro ⟨hdead, htop⟩
    refine ⟨ho.index_lt_size_of_inside hdead.inside, hdead, fun m hm => ?_⟩
    have hsm := ((ho.mem_above_to hdead.inside).1 hm).1
    exact Bool.eq_false_iff.2 fun hyes => htop m ((htells m).1 hyes) hsm

end dead

/-- The instructions of a graph that was built stand for nodes of the owner. -/
theorem Sketch.Describes.housed {t : SyntaxTree} {depth : Nat} {owner : NodeId} {f : ControlFlow}
    (h : Describes t depth owner f) (ho : t.Ordered) (howner : (t.kind owner).isOwner = true)
    (hname : f.owner = owner) : f.Housed t := by
  intro a e hel
  rw [h.element_eq] at hel
  rw [hname]
  exact ((build_names ho howner depth).element a e hel).1

/-- In every graph that was built, the list of dead statements holds, in order of index, the dead statements
that stand in no other one. None of them is in another, each dead statement is in exactly one of them, and no
reachable instruction is in any. The order in which a search comes upon the edges does not matter. -/
theorem dead_statements_topmost {t : SyntaxTree} (ho : t.Ordered) (c : Config) (cancel : Option Bool)
    {owner : NodeId} (howner : owner ∈ t.owners) {f : ControlFlow}
    (hf : (buildOwner t c cancel owner).outcome = .ok f) :
    f.owner = owner ∧ f.graph.neighbours.Enumerates f.graph ∧
      ∀ n : Neighbours, n.Enumerates f.graph →
        ((n.deadStatements f t).Pairwise fun a b => a.index < b.index) ∧
        (∀ s, s ∈ n.deadStatements f t ↔
          f.Dead t s ∧ ¬ ∃ m, f.Dead t m ∧ t.Inside s m ∧ t.Inside m owner) ∧
        (∀ a ∈ n.deadStatements f t, ∀ b ∈ n.deadStatements f t, ¬ t.Inside a b) ∧
        (∀ s, f.Dead t s → ∃! m, m ∈ n.deadStatements f t ∧ t.Below s m) ∧
        ∀ s ∈ n.deadStatements f t, ∀ a ∈ f.reachable, ¬ f.Holds t s a := by
  have hkind : (t.kind owner).isOwner = true := (List.mem_filter.1 howner).2
  have hfree : (none : Option Bool) ≠ some true := by simp
  obtain ⟨f', hf', hd, -⟩ := Sketch.build_describes ho c hfree (SyntaxTree.lt_of_mem_owners howner)
  -- The flag may have been looked at, but it stopped nothing, so the sketch of the build without one fits.
  obtain rfl : f' = f := Except.ok.inj (hf'.symm.trans (built_without_flag hf))
  obtain ⟨hname, -⟩ := tidy_of_build t (Visit.tidies_owner (Setting.ofConfig t c none) owner) hf'
  have hhoused := hd.housed ho hkind hname
  have hclosed := hd.closed
  have hruns := InstructionGraph.neighbours_enumerates hclosed
  refine ⟨hname, hruns, fun n hn => ?_⟩
  have hmem := mem_dead_iff_topmost ho hhoused hn hclosed
  refine ⟨t.ids_ascending.filter _, fun s => ?_, fun a ha b hb hab => ?_, fun s hs => ?_, ?_⟩
  · rw [hmem]
    refine and_congr_right fun _ => ⟨?_, ?_⟩
    · rintro htop ⟨m, hm, hsm, -⟩
      exact htop m hm hsm
    · exact fun hnone m hm hsm => hnone ⟨m, hm, hsm, hname ▸ hm.inside⟩
  · exact ((hmem a).1 ha).2 b ((hmem b).1 hb).1 hab
  · obtain ⟨m, hm, hsm⟩ := ho.exists_topmost hs
    refine ⟨m, ⟨(hmem m).2 hm, hsm⟩, fun m' ⟨hm', hsm'⟩ => ?_⟩
    exact ho.topmost_unique ((hmem m').1 hm') hm hsm' hsm
  · intro s hs a ha hheld
    refine ((hmem s).1 hs).1.unreached a hheld ?_
    rw [Path.exists_iff]
    exact ((Neighbours.mem_reachable hruns hclosed a).1 ha).2

def afterRaise : SyntaxTree :=
  let root := SyntaxTree.singleton .module .zero
  let raised := (root.push ⟨0⟩ .raiseExit .plain .zero).1
  let choice := (raised.push ⟨0⟩ .ifStatement .plain .zero).1
  let part := (choice.push ⟨2⟩ .ifPart .plain .zero).1
  let asked := (part.push ⟨3⟩ .expression .condition .zero).1
  let body := (asked.push ⟨3⟩ .block .body .zero).1
  let inner := (body.push ⟨5⟩ .statement .plain .zero).1
  (inner.push ⟨0⟩ .statement .plain .zero).1

theorem after_raise_dead :
    ∃ f, (buildOwner afterRaise .standard none ⟨0⟩).outcome = .ok f ∧
      f.deadStatements afterRaise = [⟨2⟩, ⟨7⟩] ∧ f.Dead afterRaise ⟨2⟩ ∧
      (∃! m, m ∈ f.deadStatements afterRaise ∧ afterRaise.Below ⟨7⟩ m) ∧
      ∀ a ∈ f.reachable, ¬ f.Holds afterRaise ⟨2⟩ a := by
  have ho : afterRaise.Ordered := SyntaxTree.Pushed.ordered <|
    .push (.push (.push (.push (.push (.push (.push (.singleton .module .zero) (by decide) .raiseExit
      .plain .zero) (by decide) .ifStatement .plain .zero) (by decide) .ifPart .plain .zero) (by decide)
      .expression .condition .zero) (by decide) .block .body .zero) (by decide) .statement .plain .zero)
      (by decide) .statement .plain .zero
  have hlist : (buildOwner afterRaise .standard none ⟨0⟩).outcome.toOption.map
      (·.deadStatements afterRaise) = some [⟨2⟩, ⟨7⟩] := by decide +kernel
  cases hf : (buildOwner afterRaise .standard none ⟨0⟩).outcome with
  | error stop => simp [hf, Except.toOption] at hlist
  | ok f =>
    rw [hf] at hlist
    have hdead : f.deadStatements afterRaise = [⟨2⟩, ⟨7⟩] := Option.some.inj hlist
    obtain ⟨-, hruns, hall⟩ := dead_statements_topmost ho .standard none (by decide) hf
    obtain ⟨-, hmem, -, hone, hfree⟩ := hall _ hruns
    have hfirst : (⟨2⟩ : NodeId) ∈ f.deadStatements afterRaise := by rw [hdead]; decide
    have hlast : (⟨7⟩ : NodeId) ∈ f.deadStatements afterRaise := by rw [hdead]; decide
    exact ⟨f, rfl, hdead, ((hmem _).1 hfirst).1, hone _ ((hmem _).1 hlast).1, hfree _ hfirst⟩

end PythonFlow
