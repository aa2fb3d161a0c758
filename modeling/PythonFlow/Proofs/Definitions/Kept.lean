import Mathlib.Data.List.Nodup
import Mathlib.Data.List.Perm.Basic
import PythonFlow.Proofs.Definitions.Grammar
import PythonFlow.Proofs.Definitions.Owners
import PythonFlow.Proofs.Tree.Made

/-!
# Definitions that lowering keeps

A node is kept in a view if lowering it there gives the owners that its definitions outside of headers
call for, in whatever order. Tokens have none. A slot that takes each child of a list in a view that
keeps it keeps the list; where a rule reads several fields, the children of all of them together are the
children that matter.
-/

set_option autoImplicit false

namespace PythonFlow

namespace Concrete
open Lowering

/-- A tree has what all its subtrees hand up. -/
@[elab_as_elim]
theorem members_induction {P : Concrete → Prop}
    (node : ∀ kind named field extent children, (∀ c ∈ children, P c) →
      P (.node kind named field extent children)) : ∀ c, P c
  | .node kind named field extent children =>
    node kind named field extent children fun c _ => members_induction node c

theorem definitions_among_eq (leaves : Omission) (kind : String) (siblings cs : List Concrete) :
    definitionsAmong leaves kind siblings cs =
      cs.flatMap fun c => if leaves kind siblings c then [] else c.definitions leaves := by
  induction cs with
  | nil => rw [definitionsAmong, List.flatMap_nil]
  | cons c rest ih => rw [definitionsAmong, ih, List.flatMap_cons]

/-- The definitions of a tree outside of headers. -/
abbrev kept (c : Concrete) : List (SyntaxKind × Span) := c.definitions header

def keptIn (f : String) (cs : List Concrete) : List (SyntaxKind × Span) :=
  cs.flatMap fun c => if c.fillsIn f then c.kept else []

def keptBeside (ps : List Place) (cs : List Concrete) : List (SyntaxKind × Span) :=
  cs.flatMap fun c => if ps.any (c.fillsIn ·.field) then [] else c.kept

/-- The node is no definition, and none of its children is in a header. -/
structure Transparent (kind : String) (cs : List Concrete) : Prop where
  owner : ownerKind? kind = none
  header : ∀ c, header kind cs c = false

section node
variable {kind : String} {named : Bool} {field : Option String} {extent : Extent}
  {cs : List Concrete}

theorem kept_node : (node kind named field extent cs).kept =
    (if named then (ownerKind? kind).toList else []).map (·, extent.span) ++
      cs.flatMap fun c => if header kind cs c then [] else c.kept := by
  rw [kept, definitions, definitions_among_eq]

/-- A node of which one field counts. -/
theorem kept_of_headed {f : String} (hheader : ∀ c, header kind cs c = !c.fillsIn f) :
    (node kind named field extent cs).kept =
      (if named then (ownerKind? kind).toList else []).map (·, extent.span) ++ keptIn f cs := by
  have hfield : (cs.flatMap fun c => if header kind cs c then [] else c.kept) = keptIn f cs := by
    refine congrArg List.flatten (List.map_congr_left fun c _ => ?_)
    rw [hheader]
    cases c.fillsIn f <;> rfl
  rw [kept_node, hfield]

theorem kept_of_transparent (h : Transparent kind cs) :
    (node kind named field extent cs).kept = cs.flatMap kept := by
  rw [kept_node, h.owner]
  simp [h.header]

theorem all_well_formed_iff : allWellFormed cs = true ↔ ∀ c ∈ cs, c.wellFormed = true := by
  induction cs with
  | nil => simp [allWellFormed]
  | cons c rest ih => simp [allWellFormed, ih]

structure Parts (kind : String) (cs : List Concrete) : Prop where
  formed : ∀ c ∈ cs, c.wellFormed = true
  admitted : ∀ c ∈ cs, c.isToken = false → admits kind c = true
  once : ∀ p ∈ places kind, p.many = false → (cs.filter (·.fillsIn p.field)).length ≤ 1
  coherent : coheres kind cs = true

theorem parts_of_well_formed (h : (node kind named field extent cs).wellFormed = true)
    (ht : (node kind named field extent cs).isToken = false) : Parts kind cs := by
  simp only [wellFormed, conforms, ht, Bool.false_eq_true, if_false, Bool.and_eq_true,
    List.all_eq_true, Bool.or_eq_true, all_well_formed_iff, Concrete.kind, Concrete.children] at h
  obtain ⟨⟨⟨hadmits, honce⟩, hcoherent⟩, hformed⟩ := h
  refine ⟨hformed, fun c hc htoken => ?_, fun p hp hmany => ?_, hcoherent⟩
  · exact (hadmits c hc).resolve_left (by simp [htoken])
  · exact of_decide_eq_true ((honce p hp).resolve_left (by simp [hmany]))

end node

section places
variable {kind : String} {c : Concrete}

theorem places_nodup (kind : String) : ((places kind).map Place.field).Nodup := by
  unfold places
  split <;> decide

theorem fills_iff {f : String} : c.fillsIn f = true ↔ c.field = some f := by simp [fillsIn]

theorem fills_unique {f g : String} (hf : c.fillsIn f = true) (hg : c.fillsIn g = true) : f = g := by
  have hfield : c.field = some f := by simpa [fillsIn] using hf
  simpa [fillsIn, hfield] using hg

theorem find_place {ps : List Place} (hnodup : (ps.map Place.field).Nodup) {p : Place} (hp : p ∈ ps)
    (hc : c.fillsIn p.field = true) : ps.find? (fun q => c.fillsIn q.field) = some p := by
  have hsome : (ps.find? fun q => c.fillsIn q.field).isSome = true := List.find?_isSome.2 ⟨p, hp, hc⟩
  obtain ⟨q, hq⟩ := Option.isSome_iff_exists.1 hsome
  have hfills : c.fillsIn q.field = true := by simpa using List.find?_some hq
  have hfield : q.field = p.field := fills_unique hfills hc
  rw [hq, List.inj_on_of_nodup_map hnodup (List.mem_of_find?_eq_some hq) hp hfield]

/-- What fills a field is of a kind for it. -/
theorem admits_field {p : Place} (hp : p ∈ places kind) (hc : c.fillsIn p.field = true) :
    admits kind c = p.takes c.kind := by
  rw [admits, find_place (places_nodup kind) hp hc]

theorem admits_other (h : (places kind).any (c.fillsIn ·.field) = false) :
    admits kind c = others kind c.kind := by
  have hnone : (places kind).find? (fun p => c.fillsIn p.field) = none := by
    rw [List.find?_eq_none]
    intro p hp hc
    rw [List.any_eq_true.2 ⟨p, hp, hc⟩] at h
    cases h
  rw [admits, hnone]

end places

theorem places_counted {kind : String} {p : Place} (hp : p ∈ places kind) : p.field ∈ countedFields := by
  revert p
  unfold places
  split <;> decide

theorem met_of_fills {c : Concrete} {f : String} (hf : c.fillsIn f = true) (hcounted : f ∈ countedFields) :
    c.isMet = true := by
  rw [isMet, Bool.or_eq_true]
  exact .inr (List.any_eq_true.2 ⟨f, hcounted, hf⟩)

/-- A tree without definitions has none outside of headers. -/
theorem kept_of_undefined : ∀ c : Concrete, (c.definitions fun _ _ _ => false) = [] → c.kept = [] := by
  refine members_induction fun kind named field extent cs ih h => ?_
  rw [definitions, definitions_among_eq, List.append_eq_nil_iff, List.flatMap_eq_nil_iff] at h
  rw [kept_node, h.1, List.nil_append, List.flatMap_eq_nil_iff]
  intro c hc
  rw [ih c hc (h.2 c hc), ite_self]

section token
variable {c : Concrete} (h : c.wellFormed = true) (ht : c.isToken = true)
include h ht

theorem conforms_of_token : (c.definitions fun _ _ _ => false) = [] ∧
    (c.isMet = true → c.children = [] ∧ isPlain c.kind = true) := by
  have hconforms : c.conforms = true := by
    cases c
    rw [wellFormed, Bool.and_eq_true] at h
    exact h.1
  rw [conforms, if_pos ht, Bool.and_eq_true, List.isEmpty_iff] at hconforms
  refine ⟨hconforms.1, fun hmet => ?_⟩
  simpa [hmet] using hconforms.2

theorem kept_of_token : c.kept = [] := kept_of_undefined c (conforms_of_token h ht).1

end token

theorem token_of_improper {c : Concrete} (h : c.isProper = false) : c.isToken = true := by
  simp [isToken, h]

end Concrete

namespace Lowering
open Concrete Shape
open scoped List

/-- Lowering the node in the view gives owners for the definitions that it keeps. -/
def Keeps (source : String) (v : View) (c : Concrete) : Prop :=
  (ownersAll (lower source v c)).Perm c.kept

def KeepsField (source : String) (v : View) (f : String) (cs : List Concrete) : Prop :=
  (ownersAll (lowerFirst source (fills f v) cs)).Perm (keptIn f cs)

/-- A shape that is no owner has the owners below it. -/
theorem owners_shape {k : SyntaxKind} (hk : k.isOwner = false) (source : String) (r : Role)
    (e : Extent) (n : Option String) (ss : List Shape) :
    ownersAll [shape source k r e n ss] = ownersAll ss := owners_of_other hk ..

def Rule.owner? : Rule → Option SyntaxKind
  | .function _ => some .functionDef
  | .classDefinition _ => some .classDef
  | .lambda _ => some .lambda
  | _ => none

theorem statement_rule_owner {role : Role} {kind : String} {k : SyntaxKind}
    (h : (statementRule role kind).owner? = some k) : ownerKind? kind = some k := by
  revert h
  unfold statementRule
  split <;> simp [Rule.owner?, ownerKind?]

theorem flow_rule_owner {role : Role} {kind : String} {rule : Rule} {k : SyntaxKind}
    (hrule : flowRule? role kind = some rule) (h : rule.owner? = some k) :
    ownerKind? kind = some k := by
  unfold flowRule? at hrule
  split at hrule <;> cases hrule <;> revert h <;> simp [Rule.owner?, ownerKind?]

theorem expression_rule_owner {role : Role} {kind : String} {k : SyntaxKind}
    (h : (expressionRule role kind).owner? = some k) : ownerKind? kind = some k := by
  unfold expressionRule at h
  cases hrule : flowRule? role kind with
  | none => simp [hrule, Rule.owner?] at h
  | some rule =>
    rw [hrule, Option.getD_some] at h
    exact flow_rule_owner hrule h

/-- Owners are made of definitions and lambdas alone. -/
theorem rule_owner {v : View} {kind : String} {k : SyntaxKind}
    (h : (v.rule kind).owner? = some k) : ownerKind? kind = some k := by
  cases v with
  | statement role => exact statement_rule_owner h
  | expression role => exact expression_rule_owner h
  | member =>
    simp only [View.rule, memberRule] at h
    split at h
    · cases h
    split at h
    · exact statement_rule_owner h
    · exact expression_rule_owner h
  | target role =>
    simp only [View.rule, targetRule] at h
    split at h
    · cases h
    split at h
    · cases h
    · exact expression_rule_owner h
  | inner =>
    simp only [View.rule] at h
    cases hrule : flowRule? .plain kind with
    | none => simp [hrule, Rule.owner?] at h
    | some rule =>
      rw [hrule, Option.getD_some] at h
      exact flow_rule_owner hrule h
  | tryClause =>
    simp only [View.rule, tryClauseRule] at h
    split at h <;> cases h
  | comprehensionClause =>
    simp only [View.rule, comprehensionClauseRule] at h
    split at h <;> cases h
  | block | conditionalPart | elsePart | tryBody | parameters | chainValue | chainTargets => cases h

section lists
variable {source : String} {cs : List Concrete}

/-- A token is lowered to no owner. -/
theorem keeps_token {v : View} (hv : v.Sensible) {c : Concrete} (h : c.wellFormed = true)
    (ht : c.isToken = true) (hmet : c.isMet = true) : Keeps source v c := by
  obtain ⟨hchildren, hplain⟩ := (conforms_of_token h ht).2 hmet
  rw [Keeps, kept_of_token h ht]
  cases c with
  | node kind named field extent cs =>
    obtain rfl : cs = [] := hchildren
    have hnone : (v.rule kind).owner? = none := by
      by_contra hsome
      obtain ⟨k, hk⟩ := Option.ne_none_iff_exists'.1 hsome
      simp [isPlain, Concrete.kind, rule_owner hk] at hplain
    obtain ⟨hsensible, -⟩ := view_rule_sound v hv kind
    have hleaf := @view_rule_leaf v kind
    refine List.Perm.of_eq ?_
    rw [lower]
    generalize v.rule kind = rule at hnone hsensible hleaf ⊢
    cases rule with
    | function | classDefinition | lambda => cases hnone
    | leaf k role =>
      have hother : k.isOwner = false := by
        have hk := hleaf rfl
        cases k <;> simp_all [isLeaf, SyntaxKind.isOwner]
      exact owners_of_other hother ..
    | leaving k role => rcases hsensible with rfl | rfl <;> exact owners_of_other rfl ..
    | conditionalPart k =>
      obtain rfl : k = .elifPart := hsensible
      exact owners_of_other rfl ..
    | _ =>
      simp [lowerEach, lowerFirst, lowerChain, lowerAliased, lowerHandler, shape, ownersAll, owners,
        SyntaxKind.isOwner]

def Gives (source : String) (slot : Slot) (g : Concrete → List (SyntaxKind × Span)) (c : Concrete) :
    Prop :=
  match slot c with
  | some v => (ownersAll (lower source v c)).Perm (g c)
  | none => g c = []

variable {slot : Slot} {g : Concrete → List (SyntaxKind × Span)}

theorem gives_proper {v : View} {c : Concrete} (hp : c.isProper = true) :
    Gives source (proper v) g c ↔ (ownersAll (lower source v c)).Perm (g c) := by
  simp [Gives, proper, hp]

theorem gives_improper {v : View} {c : Concrete} (hp : c.isProper = false) :
    Gives source (proper v) g c ↔ g c = [] := by simp [Gives, proper, hp]

/-- A list that is lowered child by child. -/
theorem each_gives (h : ∀ c ∈ cs, Gives source slot g c) :
    (ownersAll (lowerEach source slot cs)).Perm (cs.flatMap g) := by
  induction cs with
  | nil => rw [lowerEach, owners_all_nil]; exact .nil
  | cons c rest ih =>
    have hfirst := h c (by simp)
    have hrest := ih fun d hd => h d (by simp [hd])
    rw [lowerEach, owners_all_append, List.flatMap_cons]
    unfold Gives at hfirst
    cases hslot : slot c with
    | none =>
      rw [hslot] at hfirst
      simpa [hfirst] using hrest
    | some v =>
      rw [hslot] at hfirst
      exact hfirst.append hrest

theorem flat_map_none (h : ∀ c ∈ cs, Gives source slot g c) (hnone : ∀ c ∈ cs, slot c = none) :
    cs.flatMap g = [] := by
  refine List.flatMap_eq_nil_iff.2 fun c hc => ?_
  have hgives := h c hc
  rw [Gives, hnone c hc] at hgives
  exact hgives

/-- A list of which one child is lowered, where no other could be. -/
theorem first_gives (h : ∀ c ∈ cs, Gives source slot g c)
    (hone : (cs.filter fun c => (slot c).isSome).length ≤ 1) :
    (ownersAll (lowerFirst source slot cs)).Perm (cs.flatMap g) := by
  induction cs with
  | nil => rw [lowerFirst, owners_all_nil]; exact .nil
  | cons c rest ih =>
    have hfirst := h c (by simp)
    have hrest : ∀ d ∈ rest, Gives source slot g d := fun d hd => h d (by simp [hd])
    rw [lowerFirst, List.flatMap_cons]
    rw [List.filter_cons] at hone
    unfold Gives at hfirst
    cases hslot : slot c with
    | none =>
      rw [hslot] at hone hfirst
      rw [show g c = [] from hfirst, List.nil_append]
      exact ih hrest hone
    | some v =>
      rw [hslot] at hone hfirst
      have hnil : (rest.filter fun c => (slot c).isSome) = [] :=
        List.length_eq_zero_iff.1 (Nat.le_zero.1 (Nat.le_of_succ_le_succ hone))
      have hnone : ∀ d ∈ rest, slot d = none := fun d hd => by
        simpa using List.filter_eq_nil_iff.1 hnil d hd
      rw [flat_map_none hrest hnone, List.append_nil]
      exact hfirst

theorem fills_one {ps : List Place} (hnodup : (ps.map Place.field).Nodup) {c : Concrete} {p : Place}
    (hp : p ∈ ps) (hc : c.fillsIn p.field = true) {α : Type} (xs : List α) :
    (ps.flatMap fun q => if c.fillsIn q.field then xs else []) = xs := by
  induction ps with
  | nil => cases hp
  | cons q rest ih =>
    obtain ⟨hfresh, hrest⟩ := List.nodup_cons.1 hnodup
    rw [List.flatMap_cons]
    cases hq : c.fillsIn q.field with
    | true =>
      have hnone : (rest.flatMap fun r => if c.fillsIn r.field then xs else []) = [] := by
        refine List.flatMap_eq_nil_iff.2 fun r hr => if_neg fun hfills => hfresh ?_
        rw [fills_unique hq hfills]
        exact List.mem_map_of_mem hr
      rw [if_pos rfl, hnone, List.append_nil]
    | false =>
      rw [if_neg Bool.false_ne_true, List.nil_append]
      refine ih hrest ((List.mem_cons.1 hp).resolve_left fun heq => ?_)
      rw [heq, hq] at hc
      cases hc

/-- The children of all fields and the other children are all children. -/
theorem by_places {ps : List Place} (hnodup : (ps.map Place.field).Nodup) (cs : List Concrete) :
    ((ps.flatMap fun p => keptIn p.field cs) ++ keptBeside ps cs).Perm (cs.flatMap kept) := by
  induction cs with
  | nil => simp [keptIn, keptBeside]
  | cons c rest ih =>
    have hsplit := List.flatMap_append_perm ps (fun p => if c.fillsIn p.field then c.kept else [])
      fun p => keptIn p.field rest
    have hown : (ps.flatMap fun p => if c.fillsIn p.field then c.kept else []) ++
        (if ps.any (c.fillsIn ·.field) then [] else c.kept) = c.kept := by
      cases hany : ps.any (c.fillsIn ·.field) with
      | true =>
        obtain ⟨p, hp, hc⟩ := List.any_eq_true.1 hany
        rw [fills_one hnodup hp hc, if_pos rfl, List.append_nil]
      | false =>
        have hnone : (ps.flatMap fun p => if c.fillsIn p.field then c.kept else []) = [] :=
          List.flatMap_eq_nil_iff.2 fun p hp => if_neg (List.any_eq_false.1 hany p hp)
        rw [hnone, if_neg Bool.false_ne_true, List.nil_append]
    have hbeside : keptBeside ps (c :: rest) =
        (if ps.any (c.fillsIn ·.field) then [] else c.kept) ++ keptBeside ps rest := rfl
    rw [List.flatMap_cons, hbeside]
    refine (hsplit.symm.append_right _).trans ?_
    rw [List.append_assoc]
    refine ((List.perm_append_comm_assoc _ _ _).append_left _).trans ?_
    rw [← List.append_assoc, hown]
    exact ih.append_left _

end lists

theorem fills_some (f : String) (v : View) :
    (fun c => (fills f v c).isSome) = fun c => c.fillsIn f := by
  funext c
  by_cases hf : c.field = some f <;> simp [fills, fillsIn, hf]

theorem proper_some (v : View) : (fun c => (proper v c).isSome) = isProper := by
  funext c
  cases hp : c.isProper <;> simp [proper, hp]

def View.takes : View → String → Bool
  | .statement _, concrete => statementKinds.contains concrete || concrete == "case_clause"
  | .block _, concrete | .tryBody, concrete => concrete == "block"
  | .member, concrete => isPhrase concrete || statementKinds.contains concrete || concrete == "block"
  | .expression _, concrete | .target _, concrete | .inner, concrete => isPhrase concrete
  | .conditionalPart k, concrete => k == .elifPart && concrete == "elif_clause"
  | .elsePart, concrete => concrete == "else_clause"
  | .tryClause, concrete => isTryClause concrete
  | .comprehensionClause, concrete => concrete == "for_in_clause"
  | .parameters, _ | .chainValue, _ | .chainTargets, _ => false

/-- A node is kept wherever the grammar puts it. A filter is kept if it has one condition, and an assignment
is taken apart into its value and its targets if it has a value, and is an expression otherwise. -/
structure Upheld (source : String) (c : Concrete) : Prop where
  taken : ∀ v : View, v.takes c.kind = true → Keeps source v c
  filter : c.kind = "if_clause" → (c.children.filter isProper).length ≤ 1 →
    Keeps source .comprehensionClause c
  chain : isAssignment c.kind = true → c.children.any (·.fillsIn "right") = true →
    lower source .chainValue c ≠ [] ∧
      (ownersAll (lower source .chainValue c ++ lower source .chainTargets c)).Perm c.kept
  bare : isAssignment c.kind = true → c.children.any (·.fillsIn "right") = false →
    lower source .chainValue c = [] ∧ ∀ role, Keeps source (.expression role) c

structure Offspring (source : String) (kind : String) (cs : List Concrete) : Prop
    extends Parts kind cs where
  upheld : ∀ c ∈ cs, c.isToken = false → Upheld source c

namespace Offspring
variable {source kind : String} {cs : List Concrete} (h : Offspring source kind cs)
include h

theorem kept_of_improper {c : Concrete} (hc : c ∈ cs) (hi : c.isProper = false) : c.kept = [] :=
  kept_of_token (h.formed c hc) (token_of_improper hi)

/-- A child, in a view that takes it. -/
theorem keeps_child {v : View} {c : Concrete} (hv : v.Sensible) (hc : c ∈ cs)
    (hmet : c.isToken = true → c.isMet = true)
    (htakes : c.isToken = false → v.takes c.kind = true) : Keeps source v c := by
  cases ht : c.isToken with
  | true => exact keeps_token hv (h.formed c hc) ht (hmet ht)
  | false => exact (h.upheld c hc ht).taken v (htakes ht)

theorem keeps_proper {v : View} {c : Concrete} (hv : v.Sensible) (hc : c ∈ cs)
    (hp : c.isProper = true) (htakes : c.isToken = false → v.takes c.kind = true) :
    Keeps source v c := by
  refine h.keeps_child hv hc (fun _ => ?_) htakes
  rw [isProper, Bool.and_eq_true] at hp
  rw [isMet, hp.1]
  rfl

theorem keeps_filling {v : View} {f : String} {c : Concrete} (hv : v.Sensible) (hc : c ∈ cs)
    (hf : c.fillsIn f = true) (hcounted : f ∈ countedFields)
    (htakes : c.isToken = false → v.takes c.kind = true) : Keeps source v c :=
  h.keeps_child hv hc (fun _ => met_of_fills hf hcounted) htakes

theorem proper_gives {v : View} (hv : v.Sensible)
    (htakes : ∀ c ∈ cs, admits kind c = true → v.takes c.kind = true) :
    ∀ c ∈ cs, Gives source (proper v) kept c := by
  intro c hc
  cases hp : c.isProper with
  | false => exact (gives_improper hp).2 (h.kept_of_improper hc hp)
  | true =>
    exact (gives_proper hp).2 (h.keeps_proper hv hc hp fun ht => htakes c hc (h.admitted c hc ht))

/-- All proper children, each met in one view. -/
theorem each_proper {v : View} (hv : v.Sensible)
    (htakes : ∀ c ∈ cs, admits kind c = true → v.takes c.kind = true) :
    (ownersAll (lowerEach source (proper v) cs)).Perm (cs.flatMap kept) :=
  each_gives (h.proper_gives hv htakes)

/-- The children that fill none of the fields, each met in one view, where the others are skipped. -/
theorem each_beside {v : View} (hv : v.Sensible)
    (hkeeps : ∀ c ∈ cs, c.isToken = false → others kind c.kind = true → Keeps source v c)
    (hskip : ∀ p ∈ places kind, ∀ k, p.takes k = true → v.rule k = .skip) :
    (ownersAll (lowerEach source (proper v) cs)).Perm (keptBeside (places kind) cs) := by
  refine each_gives fun c hc => ?_
  cases hp : c.isProper with
  | false =>
    refine (gives_improper hp).2 ?_
    rw [h.kept_of_improper hc hp, ite_self]
  | true =>
    refine (gives_proper hp).2 ?_
    cases ht : c.isToken with
    | true =>
      have htoken := h.keeps_proper hv hc hp fun hf => by
        rw [ht] at hf
        cases hf
      have hnone := kept_of_token (h.formed c hc) ht
      rw [Keeps, hnone] at htoken
      rw [hnone, ite_self]
      exact htoken
    | false =>
      have hadm := h.admitted c hc ht
      cases hany : (places kind).any (c.fillsIn ·.field) with
      | true =>
        obtain ⟨p, hmem, hfills⟩ := List.any_eq_true.1 hany
        rw [admits_field hmem hfills] at hadm
        have hrule := hskip p hmem c.kind hadm
        cases c with
        | node k n f e ds =>
          have hskipped : lower source v (.node k n f e ds) = [] := by
            rw [lower, show v.rule k = .skip from hrule]
          rw [hskipped, if_pos rfl, owners_all_nil]
      | false =>
        rw [admits_other hany] at hadm
        rw [if_neg Bool.false_ne_true]
        exact hkeeps c hc ht hadm

section field
variable {p : Place} (hp : p ∈ places kind) {v : View} (hv : v.Sensible)
  (htakes : ∀ k, p.takes k = true → v.takes k = true)
include hp hv htakes

theorem fills_gives : ∀ c ∈ cs,
    Gives source (fills p.field v) (fun c => if c.fillsIn p.field then c.kept else []) c := by
  intro c hc
  unfold Gives fills
  by_cases hf : c.field = some p.field
  · have hfills : c.fillsIn p.field = true := by simp [fillsIn, hf]
    simp only [if_pos hf, hfills, if_true]
    refine h.keeps_filling hv hc hfills (places_counted hp) fun ht => htakes c.kind ?_
    rw [← admits_field hp hfills]
    exact h.admitted c hc ht
  · rw [if_neg hf]
    simp [fillsIn, hf]

theorem each_field : (ownersAll (lowerEach source (fills p.field v) cs)).Perm (keptIn p.field cs) :=
  each_gives (h.fills_gives hp hv htakes)

theorem first_field (hmany : p.many = false) : KeepsField source v p.field cs := by
  have hone := h.once p hp hmany
  rw [← fills_some p.field v] at hone
  exact first_gives (h.fills_gives hp hv htakes) hone

end field

/-- A field that one child can fill, found by its name. -/
theorem field {f : String} {takes : String → Bool}
    (hplace : (places kind).find? (·.field == f) = some ⟨f, takes, false⟩) {v : View}
    (hv : v.Sensible) (htakes : ∀ k, takes k = true → v.takes k = true) : KeepsField source v f cs :=
  h.first_field (List.mem_of_find?_eq_some hplace) hv htakes rfl

section
variable (hothers : ∀ k, others kind k = false)
include hothers

/-- What fills no field, where all children fill fields, is a token. -/
theorem token_of_unplaced {c : Concrete} (hc : c ∈ cs)
    (hany : (places kind).any (c.fillsIn ·.field) = false) : c.isToken = true := by
  by_contra ht
  have hadm := h.admitted c hc (by simpa using ht)
  rw [admits_other hany, hothers] at hadm
  cases hadm

/-- Where all children fill fields, they are all that there is. -/
theorem all_fields : ((places kind).flatMap fun p => keptIn p.field cs).Perm (cs.flatMap kept) := by
  have hnone : keptBeside (places kind) cs = [] := by
    refine List.flatMap_eq_nil_iff.2 fun c hc => ?_
    cases hany : (places kind).any (c.fillsIn ·.field) with
    | true => rfl
    | false => exact kept_of_token (h.formed c hc) (h.token_of_unplaced hothers hc hany)
  have hall := by_places (places_nodup kind) cs
  rwa [hnone, List.append_nil] at hall

end

end Offspring
end Lowering
end PythonFlow
