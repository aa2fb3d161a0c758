import PythonFlow.Proofs.Definitions.Expressions

/-!
# Assignments keep their definitions

A chain of assignments has its value at the end and a target at each link. What a link keeps is what its
target keeps and what the rest of the chain keeps; annotations are left out. An assignment without a value
only declares a name and is an expression like any other.
-/

set_option autoImplicit false

namespace PythonFlow.Lowering
open Concrete Shape

section right
variable {source : String} {cs : List Concrete} {r : Concrete}

theorem lower_first_right (hr : cs.find? (·.fillsIn "right") = some r) :
    lowerFirst source rightSide cs =
      lower source (if isAssignment r.kind then .chainValue else .expression .value) r := by
  induction cs with
  | nil => cases hr
  | cons c rest ih =>
    rw [lowerFirst, rightSide]
    rw [List.find?_cons] at hr
    by_cases hf : c.field = some "right"
    · rw [fills_iff.2 hf] at hr
      cases hr
      rw [if_pos hf]
    · rw [Bool.eq_false_iff.2 (mt fills_iff.1 hf)] at hr
      rw [if_neg hf]
      exact ih hr

theorem lower_chain_right (hr : cs.find? (·.fillsIn "right") = some r) :
    lowerChain source cs = if isAssignment r.kind then lower source .chainTargets r else [] := by
  induction cs with
  | nil => cases hr
  | cons c rest ih =>
    rw [lowerChain]
    rw [List.find?_cons] at hr
    by_cases hf : c.field = some "right"
    · rw [fills_iff.2 hf] at hr
      cases hr
      rw [if_pos hf]
    · rw [Bool.eq_false_iff.2 (mt fills_iff.1 hf)] at hr
      rw [if_neg hf]
      exact ih hr

theorem lower_first_right_none (hnone : cs.any (·.fillsIn "right") = false) :
    lowerFirst source rightSide cs = [] := by
  induction cs with
  | nil => rw [lowerFirst]
  | cons c rest ih =>
    rw [List.any_cons, Bool.or_eq_false_iff] at hnone
    rw [lowerFirst, rightSide, if_neg (mt fills_iff.2 (Bool.eq_false_iff.1 hnone.1))]
    exact ih hnone.2

/-- Of a field that one child can fill, that child is kept. -/
theorem kept_in_first {f : String} (hr : cs.find? (·.fillsIn f) = some r)
    (hone : (cs.filter (·.fillsIn f)).length ≤ 1) : keptIn f cs = r.kept := by
  induction cs with
  | nil => cases hr
  | cons c rest ih =>
    rw [List.find?_cons] at hr
    rw [List.filter_cons] at hone
    rw [keptIn, List.flatMap_cons]
    cases hf : c.fillsIn f with
    | true =>
      rw [hf] at hr hone
      cases hr
      have hrest : rest.filter (·.fillsIn f) = [] :=
        List.length_eq_zero_iff.1 (Nat.le_zero.1 (Nat.le_of_succ_le_succ hone))
      have hnone : keptIn f rest = [] :=
        List.flatMap_eq_nil_iff.2 fun d hd => if_neg (List.filter_eq_nil_iff.1 hrest d hd)
      rw [if_pos rfl, ← keptIn, hnone, List.append_nil]
    | false =>
      rw [hf] at hr hone
      rw [if_neg Bool.false_ne_true, List.nil_append]
      exact ih hr hone

end right

/-- An expression has a node. -/
theorem lower_expression_ne_nil (source : String) (role : Role) (c : Concrete) :
    lower source (.expression role) c ≠ [] := by
  cases c with
  | node kind named field extent cs =>
    rw [lower]
    cases hflow : flowRule? role kind with
    | none =>
      have hrule : View.rule (.expression role) kind = .expression role := by
        rw [View.rule, expressionRule, hflow, Option.getD_none]
      rw [hrule]
      exact List.cons_ne_nil _ _
    | some rule =>
      unfold flowRule? at hflow
      split at hflow <;> cases hflow
      all_goals exact List.cons_ne_nil _ _

theorem assignment_kinds {kind : String} (h : isAssignment kind = true) :
    kind = "assignment" ∨ kind = "augmented_assignment" := by simpa [isAssignment] using h

theorem assignment_owner {kind : String} (h : isAssignment kind = true) : ownerKind? kind = none := by
  rcases assignment_kinds h with rfl | rfl <;> rfl

theorem assignment_places {kind : String} (h : isAssignment kind = true) :
    places kind = [⟨"right", (fun k => isPhrase k || isAssignment k), false⟩,
      ⟨"left", isPhrase, false⟩] := by
  rcases assignment_kinds h with rfl | rfl <;> rfl

theorem assignment_header {kind : String} (h : isAssignment kind = true) (cs : List Concrete)
    (c : Concrete) : header kind cs c =
      (cs.any (·.fillsIn "right") && !c.fillsIn "left" && !c.fillsIn "right") := by
  rcases assignment_kinds h with rfl | rfl <;> rfl

section assignments
variable {source kind : String} {v : View} {role : Role} {named : Bool} {field : Option String}
  {extent : Extent} {cs : List Concrete} (h : Offspring source kind cs)
  (hkind : isAssignment kind = true)
include h hkind

theorem assignment_target : KeepsField source (.target .target) "left" cs := by
  have hplace : (places kind).find? (·.field == "left") = some ⟨"left", isPhrase, false⟩ := by
    rw [assignment_places hkind]
    rfl
  exact h.field hplace trivial fun _ hk => hk

/-- What stands on the right is an assignment with a value, or a value. -/
theorem assigned_upheld {r : Concrete} (hr : r ∈ cs) (hfills : r.fillsIn "right" = true) :
    if isAssignment r.kind then
      lower source .chainValue r ≠ [] ∧
        (ownersAll (lower source .chainValue r ++ lower source .chainTargets r)).Perm r.kept
    else Keeps source (.expression .value) r := by
  have hright : (⟨"right", (fun k => isPhrase k || isAssignment k), false⟩ : Place) ∈
      places kind := by
    rw [assignment_places hkind]
    exact .head _
  have hlinked : (!r.fillsIn "right" || !isAssignment r.kind ||
      r.children.any (·.fillsIn "right")) = true := by
    have hcoherent := h.coherent
    rcases assignment_kinds hkind with rfl | rfl <;> exact List.all_eq_true.1 hcoherent r hr
  split
  · rename_i hassign
    have ht : r.isToken = false := by
      by_contra htoken
      have hmet := met_of_fills hfills (by decide)
      obtain ⟨-, hplain⟩ := (conforms_of_token (h.formed r hr) (by simpa using htoken)).2 hmet
      simp [isPlain, hassign] at hplain
    refine (h.upheld r hr ht).chain hassign ?_
    rw [hfills, hassign] at hlinked
    exact hlinked
  · rename_i hvalue
    refine h.keeps_filling trivial hr hfills (by decide) fun ht => ?_
    have hadm := h.admitted r hr ht
    rw [admits_field hright hfills, Bool.or_eq_true] at hadm
    exact hadm.resolve_right hvalue

omit h in
/-- Of an assignment with a value, the two sides count. -/
theorem kept_of_sides (hvalued : cs.any (·.fillsIn "right") = true) :
    (keptIn "left" cs ++ keptIn "right" cs).Perm (Concrete.node kind named field extent cs).kept := by
  have hsides : ∀ c : Concrete, (if header kind cs c then [] else c.kept) =
      (if c.fillsIn "left" then c.kept else []) ++ if c.fillsIn "right" then c.kept else [] := by
    intro c
    rw [assignment_header hkind, hvalued, Bool.true_and]
    cases hl : c.fillsIn "left" <;> cases hr : c.fillsIn "right"
    · rfl
    · rfl
    · exact (List.append_nil _).symm
    · exact absurd (fills_unique hl hr) (by decide)
  rw [kept_node, assignment_owner hkind]
  simp only [hsides]
  exact (List.flatMap_append_perm cs _ _).trans (.of_eq (by simp))

/-- An assignment with a value, as a link of a chain. -/
theorem chain_kept (hvalued : cs.any (·.fillsIn "right") = true) :
    lower source .chainValue (.node kind named field extent cs) ≠ [] ∧
      (ownersAll (lower source .chainValue (.node kind named field extent cs) ++
        lower source .chainTargets (.node kind named field extent cs))).Perm
          (Concrete.node kind named field extent cs).kept := by
  obtain ⟨r, hr⟩ : ∃ r, cs.find? (·.fillsIn "right") = some r :=
    Option.isSome_iff_exists.1 (List.find?_isSome.2 (List.any_eq_true.1 hvalued))
  have hone : (cs.filter (·.fillsIn "right")).length ≤ 1 := by
    rcases assignment_kinds hkind with rfl | rfl <;> exact h.once _ (.head _) rfl
  have hleft := assignment_target h hkind
  have hright := assigned_upheld h hkind (List.mem_of_find?_eq_some hr) (by simpa using List.find?_some hr)
  have hsides : (keptIn "left" cs ++ keptIn "right" cs).Perm
      (Concrete.node kind named field extent cs).kept := kept_of_sides hkind hvalued
  rw [kept_in_first hr hone] at hsides
  rw [lower, lower]
  simp only [View.rule]
  rw [lower_first_right hr, lower_chain_right hr]
  cases hassign : isAssignment r.kind with
  | true =>
    rw [hassign, if_pos rfl] at hright
    obtain ⟨hvalue, hrest⟩ := hright
    refine ⟨hvalue, ?_⟩
    rw [owners_all_append] at hrest
    simp only [if_true, owners_all_append]
    refine .trans ?_ ((hleft.append hrest).trans hsides)
    exact List.perm_append_comm_assoc _ _ _
  | false =>
    rw [hassign, if_neg Bool.false_ne_true] at hright
    refine ⟨lower_expression_ne_nil source .value r, ?_⟩
    simp only [Bool.false_eq_true, if_false, List.append_nil, owners_all_append]
    exact List.perm_append_comm.trans ((hleft.append hright).trans hsides)

/-- A declaration without a value. -/
theorem bare_kept (hbare : cs.any (·.fillsIn "right") = false) :
    lower source .chainValue (.node kind named field extent cs) = [] ∧
      ∀ role, Keeps source (.expression role) (.node kind named field extent cs) := by
  have hadmits : ∀ c ∈ cs, admits kind c = true → isPhrase c.kind = true := by
    intro c hc hadm
    unfold admits at hadm
    split at hadm
    · rename_i p hp
      have hfills : c.fillsIn p.field = true := by simpa using List.find?_some hp
      have hmem := List.mem_of_find?_eq_some hp
      rw [assignment_places hkind] at hmem
      simp only [List.mem_cons, List.not_mem_nil, or_false] at hmem
      rcases hmem with rfl | rfl
      · exact absurd hfills (List.any_eq_false.1 hbare c hc)
      · exact hadm
    · rcases assignment_kinds hkind with rfl | rfl <;> exact hadm
  have hclear : Transparent kind cs := ⟨assignment_owner hkind, fun c => by
    rw [assignment_header hkind, hbare, Bool.false_and, Bool.false_and]⟩
  refine ⟨?_, fun role => ?_⟩
  · rw [lower]
    exact lower_first_right_none hbare
  · have hrule : (View.expression role).rule kind = .expression role := by
      rcases assignment_kinds hkind with rfl | rfl <;> rfl
    exact keeps_expression h hclear hadmits hrule

end assignments

section statement
variable {source : String} {v : View} {role : Role} {named : Bool} {field : Option String}
  {extent : Extent} {cs : List Concrete}

theorem sole_assignment_iff : soleAssignment cs = true ↔
    ∃ only, cs.filter isProper = [only] ∧ isAssignment only.kind = true := by
  unfold soleAssignment
  split
  · rename_i only honly
    simp [honly]
  · rename_i hmany
    simp only [Bool.false_eq_true, false_iff]
    exact fun ⟨only, honly, _⟩ => hmany only honly

theorem mem_of_only {only : Concrete} (honly : cs.filter isProper = [only]) :
    only ∈ cs ∧ only.isProper = true := by
  have hmem : only ∈ cs.filter isProper := by
    rw [honly]
    exact List.mem_singleton_self only
  exact List.mem_filter.1 hmem

theorem lower_first_only {only : Concrete} (honly : cs.filter isProper = [only]) :
    lowerFirst source (proper v) cs = lower source v only := by
  induction cs with
  | nil => cases honly
  | cons c rest ih =>
    rw [List.filter_cons] at honly
    rw [lowerFirst, proper]
    cases hp : c.isProper with
    | true =>
      rw [hp, if_pos rfl] at honly
      obtain ⟨rfl, -⟩ := List.cons.inj honly
      rw [if_pos rfl]
    | false =>
      rw [hp, if_neg Bool.false_ne_true] at honly
      rw [if_neg Bool.false_ne_true]
      exact ih honly

theorem proper_of_assignment {c : Concrete} (hassign : isAssignment c.kind = true)
    (hp : c.isProper = true) : c.isToken = false := by
  rcases assignment_kinds hassign with hkind | hkind <;> simp [isToken, hp, hkind]

/-- Where nothing else is kept, the proper children are all that is. -/
theorem kept_of_proper (hnone : ∀ c ∈ cs, c.isProper = false → c.kept = []) :
    cs.flatMap kept = (cs.filter isProper).flatMap kept := by
  induction cs with
  | nil => rfl
  | cons c rest ih =>
    rw [List.filter_cons, List.flatMap_cons, ih fun d hd => hnone d (by simp [hd])]
    cases hp : c.isProper with
    | true => rw [if_pos rfl, List.flatMap_cons]
    | false => rw [if_neg Bool.false_ne_true, hnone c (by simp) hp, List.nil_append]

variable (h : Offspring source "expression_statement" cs)
include h

/-- The children of an expression statement, where no assignment among them has a value. -/
theorem keeps_expressions (hbare : ∀ c ∈ cs, c.isProper = true → isAssignment c.kind = true →
      c.children.any (·.fillsIn "right") = false) :
    (ownersAll (lowerEach source (proper (.expression .plain)) cs)).Perm (cs.flatMap kept) := by
  refine each_gives fun c hc => ?_
  cases hp : c.isProper with
  | false => exact (gives_improper hp).2 (h.kept_of_improper hc hp)
  | true =>
    refine (gives_proper hp).2 ?_
    cases hassign : isAssignment c.kind with
    | true =>
      have hupheld := h.upheld c hc (proper_of_assignment hassign hp)
      exact (hupheld.bare hassign (hbare c hc hp hassign)).2 .plain
    | false =>
      refine h.keeps_proper trivial hc hp fun ht => ?_
      have hadm : (isPhrase c.kind || isAssignment c.kind) = true := h.admitted c hc ht
      rwa [hassign, Bool.or_false] at hadm

theorem kept_of_only {only : Concrete} (honly : cs.filter isProper = [only]) :
    cs.flatMap kept = only.kept := by
  rw [kept_of_proper fun c hc => h.kept_of_improper hc, honly]
  exact List.append_nil _

/-- An assignment shares its statement with nothing. -/
theorem assignment_alone {c : Concrete} (hc : c ∈ cs) (hp : c.isProper = true)
    (hassign : isAssignment c.kind = true) : cs.filter isProper = [c] := by
  have hcoherent := h.coherent
  have hmem : c ∈ cs.filter isProper := List.mem_filter.2 ⟨hc, hp⟩
  have hone : (cs.filter isProper).length ≤ 1 := by
    simp only [coheres, Bool.or_eq_true, decide_eq_true_eq, List.all_eq_true] at hcoherent
    refine hcoherent.resolve_right fun hnone => ?_
    simpa [hassign] using hnone c hc
  obtain ⟨d, hd⟩ := List.length_eq_one_iff.1 (Nat.le_antisymm hone (List.length_pos_of_mem hmem))
  rw [hd, List.mem_singleton] at hmem
  rw [hd, hmem]

theorem sole_upheld {only : Concrete} (honly : cs.filter isProper = [only])
    (hassign : isAssignment only.kind = true) : Upheld source only := by
  obtain ⟨hmem, hp⟩ := mem_of_only honly
  exact h.upheld only hmem (proper_of_assignment hassign hp)

theorem keeps_expression_statement
    (hrule : v.rule "expression_statement" = .expressionStatement role) :
    Keeps source v (.node "expression_statement" named field extent cs) := by
  rw [Keeps, kept_of_transparent ⟨rfl, fun _ => rfl⟩, lower, hrule]
  dsimp only
  by_cases hvalued : ∃ only, cs.filter isProper = [only] ∧ isAssignment only.kind = true ∧
      only.children.any (·.fillsIn "right") = true
  · obtain ⟨only, honly, hassign, hright⟩ := hvalued
    have hupheld := sole_upheld h honly hassign
    obtain ⟨hvalue, hchain⟩ := hupheld.chain hassign hright
    obtain ⟨s, rest, hcons⟩ := List.exists_cons_of_ne_nil hvalue
    rw [if_pos (sole_assignment_iff.2 ⟨only, honly, hassign⟩), lower_first_only honly,
      lower_first_only honly, kept_of_only h honly, hcons]
    dsimp only
    rw [owners_shape rfl, ← hcons]
    exact hchain
  · have hbare : ∀ c ∈ cs, c.isProper = true → isAssignment c.kind = true →
        c.children.any (·.fillsIn "right") = false := by
      intro c hc hp hassign
      by_contra hright
      exact hvalued ⟨c, assignment_alone h hc hp hassign, hassign, by simpa using hright⟩
    have hnil : (if soleAssignment cs = true then lowerFirst source (proper .chainValue) cs else []) =
        [] := by
      split
      · rename_i hsole
        obtain ⟨only, honly, hassign⟩ := sole_assignment_iff.1 hsole
        have hmem := mem_of_only honly
        rw [lower_first_only honly]
        exact ((sole_upheld h honly hassign).bare hassign (hbare only hmem.1 hmem.2 hassign)).1
      · rfl
    rw [hnil]
    dsimp only
    rw [owners_shape rfl]
    exact keeps_expressions h hbare

end statement
end PythonFlow.Lowering
