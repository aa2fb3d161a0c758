import PythonFlow.Proofs.Definitions.Assignments
import PythonFlow.Proofs.Tree.Made
import PythonFlow.Proofs.Tree.Slots

/-!
# Chains of assignments

An assignment whose right side is an assignment again is a link of a chain. The chain has a left side at
each link, but for a link that has none, and what stands on the right of the last link is its value. A left
side is opened up as long as it is a tuple, a list, starred or in parentheses, however deep one stands in
another. One statement lowers the whole chain: to an assignment of its value to the targets that are found
so, from left to right, or to a plain statement if there is no value.
-/

set_option autoImplicit false

namespace PythonFlow
open Lowering

namespace Concrete

def Assigns (c : Concrete) : Prop := c.kind = "assignment" ∨ c.kind = "augmented_assignment"

theorem assigns_iff {c : Concrete} : c.Assigns ↔ isAssignment c.kind = true := by
  simp [Assigns, isAssignment]

theorem not_assigns_iff {c : Concrete} : ¬ c.Assigns ↔ isAssignment c.kind = false := by
  rw [assigns_iff, Bool.not_eq_true]

/-- The left sides of a chain of assignments, and the value at its end if there is one. -/
inductive Chain : Concrete → List Concrete → Option Concrete → Prop
  | bare {c : Concrete} (h : c.child? "right" = none) : Chain c (c.child? "left").toList none
  | last {c value : Concrete} (h : c.child? "right" = some value) (hend : ¬ value.Assigns) :
      Chain c (c.child? "left").toList (some value)
  | link {c next : Concrete} {lefts : List Concrete} {value : Option Concrete}
      (h : c.child? "right" = some next) (hnext : next.Assigns)
      (rest : Chain next lefts value) : Chain c ((c.child? "left").toList ++ lefts) value

theorem exists_chain : ∀ c : Concrete, ∃ lefts value, c.Chain lefts value :=
  members_induction fun kind named field extent cs ih => by
    cases hright : (Concrete.node kind named field extent cs).child? "right" with
    | none => exact ⟨_, _, .bare hright⟩
    | some r =>
      by_cases hassign : r.Assigns
      · obtain ⟨lefts, value, hrest⟩ := ih r (List.mem_of_find?_eq_some hright)
        exact ⟨_, _, .link hright hassign hrest⟩
      · exact ⟨_, _, .last hright hassign⟩

inductive Pattern where
  | tuple
  | list
  | starred
  | parenthesized
  | aliased

/-- The pattern of a kind, written as a target or as the expression that it looks like. -/
def pattern? : String → Option Pattern
  | "tuple_pattern" | "tuple" | "pattern_list" | "expression_list" => some .tuple
  | "list_pattern" | "list" => some .list
  | "list_splat_pattern" | "list_splat" => some .starred
  | "parenthesized_expression" => some .parenthesized
  | "as_pattern_target" => some .aliased
  | _ => none

/-- The lowering opens the patterns and nothing else. -/
theorem target_groups_eq (kind : String) : targetGroups.contains kind = (pattern? kind).isSome := by
  unfold pattern?
  split
  case h_11 => simp_all [targetGroups]
  all_goals rfl

mutual

/-- The targets that a target is made of, in order: itself unless it is a pattern. -/
def leaves : Concrete → List Concrete
  | node kind named field extent children =>
    match pattern? kind with
    | some _ => leavesAll children
    | none => [node kind named field extent children]

def leavesAll : List Concrete → List Concrete
  | [] => []
  | c :: rest => (if c.named && c.kind != "comment" then c.leaves else []) ++ leavesAll rest

end
end Concrete

namespace Lowering
open Concrete Shape

/-- What becomes of a target that is no group: an identifier binds its name, anything else is lowered as an
expression. -/
def Binds (source : String) (leaf : Concrete) (s : Shape) : Prop :=
  s.role = .target ∧
    if leaf.kind = "identifier" then
      s = shape source .target .target leaf.extent (some (leaf.text source)) []
    else lower source (.expression .target) leaf = [s]

/-- An expression has one node, in its slot. -/
theorem lower_expression_single (source : String) (role : Role) (c : Concrete) :
    ∃ s, lower source (.expression role) c = [s] ∧ s.kind.isTerm = true ∧ s.role = role := by
  have hone : (lower source (.expression role) c).length = 1 :=
    Nat.le_antisymm (length_lower source (.expression role) rfl c)
      (List.length_pos_of_ne_nil (lower_expression_ne_nil source role c))
  obtain ⟨s, hs⟩ := List.length_eq_one_iff.1 hone
  have hfits := (lower_fits source (.expression role) trivial c s (hs ▸ List.mem_singleton.2 rfl)).1
  simp only [View.fits, Bool.and_eq_true, beq_iff_eq] at hfits
  exact ⟨s, hs, hfits⟩

theorem lower_eta {source : String} {v : View} {c : Concrete} :
    lower source v c = lower source v (.node c.kind c.named c.field c.extent c.children) := by
  cases c
  rfl

/-- What a node becomes depends on its place only by the rule. -/
theorem lower_congr {source : String} {v w : View} {c : Concrete} (h : v.rule c.kind = w.rule c.kind) :
    lower source v c = lower source w c := by
  rw [lower_eta, lower_eta (v := w), lower, lower, h]

theorem binds_expression {source : String} {leaf : Concrete} (hname : leaf.kind ≠ "identifier") :
    List.Forall₂ (Binds source) [leaf] (lower source (.expression .target) leaf) := by
  obtain ⟨s, hs, -, hrole⟩ := lower_expression_single source .target leaf
  rw [hs]
  exact .cons ⟨hrole, by rw [if_neg hname]; exact hs⟩ .nil

theorem target_rule (role : Role) (kind : String) : (View.target role).rule kind =
    if kind = "identifier" then .name role
    else if targetGroups.contains kind then .group (.target role) else expressionRule role kind := rfl

mutual

/-- A target is lowered to the targets that it is made of. -/
theorem lower_target (source : String) (c : Concrete) :
    List.Forall₂ (Binds source) c.leaves (lower source (.target .target) c) := by
  cases c with
  | node kind named field extent cs =>
    rw [leaves]
    by_cases hname : kind = "identifier"
    · subst hname
      exact .cons ⟨rfl, rfl⟩ .nil
    · cases hpattern : pattern? kind with
      | some pattern =>
        have hrule : (View.target .target).rule kind = .group (.target .target) := by
          rw [target_rule, if_neg hname, target_groups_eq, hpattern]
          rfl
        rw [lower, hrule]
        exact lower_targets source cs
      | none =>
        have hrule : (View.target .target).rule kind = (View.expression .target).rule kind := by
          rw [target_rule, if_neg hname, target_groups_eq, hpattern]
          rfl
        rw [lower_congr hrule]
        exact binds_expression hname

theorem lower_targets (source : String) (cs : List Concrete) :
    List.Forall₂ (Binds source) (leavesAll cs) (lowerEach source (proper (.target .target)) cs) := by
  cases cs with
  | nil =>
    rw [leavesAll, lowerEach]
    exact .nil
  | cons c rest =>
    rw [leavesAll, lowerEach, proper, isProper]
    refine List.rel_append ?_ (lower_targets source rest)
    cases c.named && c.kind != "comment" with
    | true => exact lower_target source c
    | false => exact .nil

end

theorem lower_sides (source : String) (lefts : List Concrete) :
    List.Forall₂ (Binds source) (lefts.flatMap leaves) (lefts.flatMap (lower source (.target .target))) := by
  induction lefts with
  | nil => exact .nil
  | cons left lefts ih => exact List.rel_append (lower_target source left) ih

section chain
variable {source : String}

theorem lower_first_fills (field : String) (v : View) (cs : List Concrete) :
    lowerFirst source (fills field v) cs =
      ((cs.find? (·.fillsIn field)).toList).flatMap (lower source v) := by
  induction cs with
  | nil => rw [lowerFirst]; rfl
  | cons c rest ih =>
    rw [lowerFirst, fills, List.find?_cons]
    by_cases hf : c.field = some field
    · rw [if_pos hf, fills_iff.2 hf]
      exact (List.append_nil _).symm
    · rw [if_neg hf, Bool.eq_false_iff.2 (mt fills_iff.1 hf)]
      exact ih

theorem lower_chain_none {cs : List Concrete} (hnone : cs.find? (·.fillsIn "right") = none) :
    lowerChain source cs = [] := by
  induction cs with
  | nil => rw [lowerChain]
  | cons c rest ih =>
    obtain ⟨hc, hrest⟩ := List.forall_mem_cons.1 (List.find?_eq_none.1 hnone)
    rw [lowerChain, if_neg fun hf => hc (fills_iff.2 hf)]
    exact ih (List.find?_eq_none.2 hrest)

variable {c : Concrete} {lefts : List Concrete} {value : Option Concrete} (h : c.Chain lefts value)
include h

/-- The value of a chain is what is lowered for its value. -/
theorem lower_chain_value : lower source .chainValue c =
    value.toList.flatMap (lower source (.expression .value)) := by
  induction h with
  | @bare c h =>
    rw [lower_eta, lower]
    refine lower_first_right_none (List.any_eq_false.2 fun d hd => ?_)
    exact List.find?_eq_none.1 h d hd
  | @last c value h hend =>
    rw [lower_eta, lower]
    refine (lower_first_right h).trans ?_
    rw [not_assigns_iff.1 hend, if_neg Bool.false_ne_true]
    exact (List.append_nil _).symm
  | @link c next lefts value h hnext rest ih =>
    rw [lower_eta, lower]
    refine (lower_first_right h).trans ?_
    rw [assigns_iff.1 hnext, if_pos rfl, ih]

omit h in
/-- An assignment has its own left side first, and then what comes further along its chain. -/
theorem lower_chain_link : lower source .chainTargets c =
    (c.child? "left").toList.flatMap (lower source (.target .target)) ++ lowerChain source c.children := by
  rw [lower_eta, lower]
  simp only [View.rule]
  rw [lower_first_fills]
  rfl

/-- The targets of a chain are those of its left sides. -/
theorem lower_chain_targets :
    lower source .chainTargets c = lefts.flatMap (lower source (.target .target)) := by
  induction h with
  | @bare c h => rw [lower_chain_link, lower_chain_none h, List.append_nil]
  | @last c value h hend =>
    rw [lower_chain_link, lower_chain_right h, not_assigns_iff.1 hend, if_neg Bool.false_ne_true, List.append_nil]
  | @link c next lefts value h hnext rest ih =>
    rw [lower_chain_link, lower_chain_right h, assigns_iff.1 hnext, if_pos rfl, ih, ← List.flatMap_append]

end chain
end Lowering

namespace Shape

/-- There is no assignment below what admits none. -/
theorem no_assignment_of_quiet {s : Shape} (h : s.Grammatical) (hk : s.kind.isQuiet = true) :
    s.Every fun k _ => k ≠ .assignment := by
  induction h with
  | node k r sp n tx cs admitted under ih =>
    refine .node k r sp n tx cs (fun heq => ?_) fun c hc => ih c hc ?_
    · rw [show k = .assignment from heq] at hk
      cases hk
    · have hadm := admitted c hc
      have hquiet : k.isQuiet = true := hk
      revert hadm hquiet
      cases k <;> cases c.kind <;> simp [SyntaxKind.admits, SyntaxKind.isQuiet, SyntaxKind.isTerm]

end Shape

def SyntaxTree.BindsAt (t : SyntaxTree) (source : String) (leaf : Concrete) (id : NodeId) : Prop :=
  t.role id = .target ∧ (leaf.kind = "identifier" →
    t.kind id = .target ∧ t.name id = some (leaf.text source) ∧ t.children id = [])

namespace Lowering
open Concrete Shape

section statement
variable {source : String}

theorem binds_at {t : SyntaxTree} {parent : Option NodeId} {leaf : Concrete} {s : Shape} {id : NodeId}
    (h : Binds source leaf s) (hl : s.Laid t parent id.index) : t.BindsAt source leaf id := by
  obtain ⟨hrole, hshape⟩ := h
  obtain ⟨-, hk, hr, -, hcs⟩ := laid_node hl
  refine ⟨hr.trans hrole, fun hname => ?_⟩
  rw [if_pos hname] at hshape
  subst hshape
  refine ⟨hk, ?_, hcs⟩
  have hat := hl.1
  simp [SyntaxTree.name, SyntaxTree.node, Array.getD_eq_getD_getElem?, hat]

theorem binds_each {t : SyntaxTree} {parent : NodeId} {found : List Concrete} {ss : List Shape} {next : Nat}
    (h : List.Forall₂ (Binds source) found ss) (hl : LaidAll t parent next ss) :
    List.Forall₂ (t.BindsAt source) found (indices next ss) := by
  induction h generalizing next with
  | nil => exact .nil
  | cons hhead _ ih => exact .cons (binds_at hhead hl.1) (ih hl.2)

theorem lower_each_proper (v : View) (cs : List Concrete) :
    lowerEach source (proper v) cs = (cs.filter isProper).flatMap (lower source v) := by
  induction cs with
  | nil => rw [lowerEach]; rfl
  | cons c rest ih =>
    rw [lowerEach, proper, ih, List.filter_cons]
    cases c.isProper with
    | true => rfl
    | false => rfl

section rule
variable {v : View} {role : Role} {c : Concrete} (h : v.rule c.kind = .expressionStatement role)
include h

/-- A statement that is one assignment with a value is that assignment. -/
theorem lower_assigned {only value : Concrete} {lefts : List Concrete}
    (honly : c.properChildren = [only]) (hassign : only.Assigns) (hchain : only.Chain lefts (some value)) :
    lower source v c =
      [shape source .assignment role c.extent none
        (lower source (.expression .value) value ++ lefts.flatMap (lower source (.target .target)))] := by
  have hsole : soleAssignment c.children = true := sole_assignment_iff.2 ⟨only, honly, assigns_iff.1 hassign⟩
  have hvalue : lowerFirst source (proper .chainValue) c.children =
      lower source (.expression .value) value := by
    rw [lower_first_only honly, lower_chain_value hchain]
    exact List.append_nil _
  have htargets : lowerFirst source (proper .chainTargets) c.children =
      lefts.flatMap (lower source (.target .target)) := by
    rw [lower_first_only honly, lower_chain_targets hchain]
  obtain ⟨s, hs, -⟩ := lower_expression_single source .value value
  rw [← htargets, hs]
  rw [hs] at hvalue
  rw [lower_eta, lower, h]
  dsimp only
  rw [if_pos hsole, hvalue]

/-- Any other is a plain statement around its expressions. -/
theorem lower_unassigned (hnone : ∀ only, c.properChildren = [only] → only.Assigns →
      ∃ lefts, only.Chain lefts none) :
    lower source v c = [shape source .statement role c.extent none
      (c.properChildren.flatMap (lower source (.expression .plain)))] := by
  have hvalue : (if soleAssignment c.children then lowerFirst source (proper .chainValue) c.children
      else []) = [] := by
    split
    · next hsole =>
      obtain ⟨only, honly, hassign⟩ := sole_assignment_iff.1 hsole
      obtain ⟨lefts, hchain⟩ := hnone only honly (assigns_iff.2 hassign)
      rw [lower_first_only honly, lower_chain_value hchain]
      rfl
    · rfl
  rw [properChildren, ← lower_each_proper, lower_eta, lower, h]
  dsimp only
  rw [hvalue]

end rule

/-- Lowered by rules for terms alone, nothing is an assignment. -/
theorem no_assignment_lowered {v : View} (hv : v.Sensible) (hterm : ∀ k r, v.fits k r = true → k.isTerm = true)
    (c : Concrete) : ∀ s ∈ lower source v c, s.Every fun k _ => k ≠ .assignment := by
  intro s hs
  obtain ⟨hfits, hg⟩ := lower_fits source v hv c s hs
  exact no_assignment_of_quiet hg (SyntaxTree.is_quiet_of_term (hterm _ _ hfits))

/-- Where a statement stands, below another node or in the place of a role, one that consists of one
assignment, plain or augmented, is lowered with its whole chain. If the chain ends in a value, there is one
assignment, of the value first and then of the targets that the left sides are made of, from left to right: it
has a node for each of them, in the tree as in its shape. If the chain has no value, the statement is a plain
one around one expression, and there is no assignment. -/
theorem assignment_statement_lowered (source : String) {v : View} {role : Role}
    (hplace : v = .statement role ∨ v = .member ∧ role = .plain) (named : Bool)
    (field : Option String) (extent : Extent) {cs : List Concrete} {only : Concrete}
    (honly : (cs.filter fun c => c.named && c.kind != "comment") = [only]) (hassign : only.Assigns) :
    (∃ lefts value, only.Chain lefts value) ∧
    (∀ lefts value, only.Chain lefts (some value) → ∃ first targets,
      lower source v (.node "expression_statement" named field extent cs) =
        [shape source .assignment role extent none (first :: targets)] ∧
      lower source (.expression .value) value = [first] ∧ first.role = .value ∧
      List.Forall₂ (Binds source) (lefts.flatMap leaves) targets ∧
      (∀ s ∈ first :: targets, s.Every fun k _ => k ≠ .assignment) ∧
      ∀ (t : SyntaxTree) (parent : Option NodeId) (id : NodeId),
        (shape source .assignment role extent none (first :: targets)).Laid t parent id.index →
        t.kind id = .assignment ∧ t.role id = role ∧ ∃ value targets, t.children id = value :: targets ∧
          t.role value = .value ∧ List.Forall₂ (t.BindsAt source) (lefts.flatMap leaves) targets) ∧
    ∀ lefts, only.Chain lefts none → ∃ inner,
      lower source v (.node "expression_statement" named field extent cs) =
        [shape source .statement role extent none [inner]] ∧
      lower source (.expression .plain) only = [inner] ∧ inner.Every fun k _ => k ≠ .assignment := by
  have hrule : v.rule "expression_statement" = .expressionStatement role := by
    rcases hplace with rfl | ⟨rfl, rfl⟩ <;> rfl
  refine ⟨exists_chain only, fun lefts value hchain => ?_, fun lefts hchain => ?_⟩
  · obtain ⟨first, hfirst, -, hrole⟩ := lower_expression_single source .value value
    have hlower : lower source v (.node "expression_statement" named field extent cs) = _ :=
      lower_assigned hrule honly hassign hchain
    rw [hfirst] at hlower
    have hbinds := lower_sides source lefts
    refine ⟨first, _, hlower, hfirst, hrole, hbinds, ?_, ?_⟩
    · refine List.forall_mem_cons.2 ⟨?_, fun s hs => ?_⟩
      · refine no_assignment_lowered (v := .expression .value) trivial ?_ value first
          (hfirst ▸ List.mem_singleton.2 rfl)
        simp +contextual [View.fits]
      · obtain ⟨left, -, hleft⟩ := List.mem_flatMap.1 hs
        refine no_assignment_lowered (v := .target .target) trivial ?_ left s hleft
        simp +contextual [View.fits]
    · intro t parent id hl
      obtain ⟨-, hk, hr, -, hcs⟩ := laid_node hl
      obtain ⟨hlfirst, hlrest⟩ := laid_children hl
      exact ⟨hk, hr, _, _, hcs, (laid_node hlfirst).2.2.1.trans hrole, binds_each hbinds hlrest⟩
  · obtain ⟨inner, hinner, -⟩ := lower_expression_single source .plain only
    have hnone : ∀ other, (Concrete.node "expression_statement" named field extent cs).properChildren = [other] →
        other.Assigns → ∃ lefts, other.Chain lefts none := by
      intro other hother _
      obtain rfl := List.singleton_inj.1 (honly.symm.trans hother)
      exact ⟨lefts, hchain⟩
    have hlower : lower source v (.node "expression_statement" named field extent cs) = _ :=
      lower_unassigned hrule hnone
    have hproper : (Concrete.node "expression_statement" named field extent cs).properChildren = [only] := honly
    rw [hproper, List.flatMap_singleton, hinner] at hlower
    refine ⟨inner, hlower, hinner, ?_⟩
    refine no_assignment_lowered (v := .expression .plain) trivial ?_ only inner (hinner ▸ List.mem_singleton.2 rfl)
    simp +contextual [View.fits]

end statement

def inLine (kind : String) (field : Option String) (first last : Nat) (children : List Concrete) : Concrete :=
  .node kind true field ⟨⟨first, 0, first⟩, ⟨last, 0, last⟩⟩ children

def tokenAt (kind : String) (first : Nat) : Concrete :=
  .node kind false none ⟨⟨first, 0, first⟩, ⟨first + 1, 0, first + 1⟩⟩ []

def chainSource : String := "a, (b, c.d) = [e, *f] = (g) = h"

def chainTuple : Concrete :=
  inLine "pattern_list" (some "left") 0 11
    [inLine "identifier" none 0 1 [], tokenAt "," 1,
      inLine "tuple_pattern" none 3 11
        [tokenAt "(" 3, inLine "identifier" none 4 5 [], tokenAt "," 5,
          inLine "attribute" none 7 10
            [inLine "identifier" (some "object") 7 8 [], inLine "identifier" (some "attribute") 9 10 []],
          tokenAt ")" 10]]

def chainList : Concrete :=
  inLine "list_pattern" (some "left") 14 21
    [tokenAt "[" 14, inLine "identifier" none 15 16 [], tokenAt "," 16,
      inLine "list_splat_pattern" none 18 20 [tokenAt "*" 18, inLine "identifier" none 19 20 []],
      tokenAt "]" 20]

def chainParentheses : Concrete :=
  inLine "parenthesized_expression" (some "left") 24 27
    [tokenAt "(" 24, inLine "identifier" none 25 26 [], tokenAt ")" 26]

def chainValue : Concrete := inLine "identifier" (some "right") 30 31 []

def chainOfThree : Concrete :=
  inLine "assignment" none 0 31
    [chainTuple, inLine "assignment" (some "right") 14 31
      [chainList, inLine "assignment" (some "right") 24 31 [chainParentheses, chainValue]]]

/-- Tuples, one in the other, a list, a starred name in it and a parenthesized name are opened up: the six
targets follow the value. -/
theorem chain_of_three_lowered :
    [chainOfThree].filter (fun c => c.named && c.kind != "comment") = [chainOfThree] ∧
    chainOfThree.Assigns ∧
    chainOfThree.Chain [chainTuple, chainList, chainParentheses] (some chainValue) ∧
    ∃ first a b cd e f g,
      lower chainSource (.statement .plain)
          (.node "expression_statement" true none ⟨⟨0, 0, 0⟩, ⟨31, 0, 31⟩⟩ [chainOfThree]) =
        [shape chainSource .assignment .plain ⟨⟨0, 0, 0⟩, ⟨31, 0, 31⟩⟩ none [first, a, b, cd, e, f, g]] ∧
      first.role = .value ∧
      a = shape chainSource .target .target ⟨⟨0, 0, 0⟩, ⟨1, 0, 1⟩⟩ (some "a") [] ∧
      b = shape chainSource .target .target ⟨⟨4, 0, 4⟩, ⟨5, 0, 5⟩⟩ (some "b") [] ∧ cd.role = .target ∧
      e = shape chainSource .target .target ⟨⟨15, 0, 15⟩, ⟨16, 0, 16⟩⟩ (some "e") [] ∧
      f = shape chainSource .target .target ⟨⟨19, 0, 19⟩, ⟨20, 0, 20⟩⟩ (some "f") [] ∧
      g = shape chainSource .target .target ⟨⟨25, 0, 25⟩, ⟨26, 0, 26⟩⟩ (some "g") [] := by
  have honly : [chainOfThree].filter (fun c => c.named && c.kind != "comment") = [chainOfThree] := rfl
  have hassign : chainOfThree.Assigns := .inl rfl
  have hvalue : ¬ chainValue.Assigns := by
    unfold Assigns
    decide
  have hchain : chainOfThree.Chain [chainTuple, chainList, chainParentheses] (some chainValue) :=
    .link rfl (.inl rfl) (.link rfl (.inl rfl) (.last rfl hvalue))
  obtain ⟨-, hvalued, -⟩ := assignment_statement_lowered chainSource (.inl rfl) true none
    ⟨⟨0, 0, 0⟩, ⟨31, 0, 31⟩⟩ honly hassign
  obtain ⟨first, targets, hlower, -, hrole, hbinds, -⟩ := hvalued _ _ hchain
  have hleaves : [chainTuple, chainList, chainParentheses].flatMap leaves =
      [inLine "identifier" none 0 1 [], inLine "identifier" none 4 5 [],
        inLine "attribute" none 7 10
          [inLine "identifier" (some "object") 7 8 [], inLine "identifier" (some "attribute") 9 10 []],
        inLine "identifier" none 15 16 [], inLine "identifier" none 19 20 [],
        inLine "identifier" none 25 26 []] := rfl
  rw [hleaves] at hbinds
  cases hbinds with | cons ha hbinds =>
  cases hbinds with | cons hb hbinds =>
  cases hbinds with | cons hcd hbinds =>
  cases hbinds with | cons he hbinds =>
  cases hbinds with | cons hf hbinds =>
  cases hbinds with | cons hg hbinds =>
  cases hbinds
  exact ⟨honly, hassign, hchain, first, _, _, _, _, _, _, hlower, hrole, ha.2, hb.2, hcd.1, he.2, hf.2, hg.2⟩

end Lowering
end PythonFlow
