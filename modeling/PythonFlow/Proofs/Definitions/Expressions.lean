import PythonFlow.Proofs.Definitions.Statements

/-!
# Expressions keep their definitions

An expression becomes one node, and what is kept of it are the nodes of flow inside it, wherever they are:
a phrase has only phrases below it, and all of them are met. The assignments of a chain are taken apart
into one value and the targets.
-/

set_option autoImplicit false

namespace PythonFlow.Lowering
open Concrete Shape

section phrases

theorem phrase_of_name {k : String} (h : nameKinds.contains k = true) : isPhrase k = true := by
  have hmem := List.contains_iff_mem.1 h
  simp only [nameKinds, List.mem_cons, List.not_mem_nil, or_false] at hmem
  rcases hmem with rfl | rfl | rfl | rfl | rfl | rfl <;> rfl

theorem phrase_of_comprehension_clause {k : String} (h : isComprehensionClause k = true) :
    isPhrase k = true := by
  rw [isComprehensionClause, Bool.or_eq_true, beq_iff_eq, beq_iff_eq] at h
  rcases h with rfl | rfl <;> rfl

theorem phrase_of_result {k : String} (h : (isPhrase k && !isComprehensionClause k) = true) :
    isPhrase k = true := by
  rw [Bool.and_eq_true] at h
  exact h.1

theorem phrase_places {kind : String} (hkind : isPhrase kind = true) :
    ∀ p ∈ places kind, ∀ k, p.takes k = true → isPhrase k = true := by
  revert hkind
  unfold places
  split <;> intro hkind p hp k hk
  all_goals try exact absurd hkind (by decide)
  all_goals simp only [List.mem_cons, List.not_mem_nil, or_false] at hp
  all_goals rcases hp with rfl | rfl
  all_goals first | exact hk | exact phrase_of_result hk

theorem phrase_others {kind : String} (hkind : isPhrase kind = true) (hlambda : kind ≠ "lambda")
    {k : String} (h : others kind k = true) : isPhrase k = true := by
  revert hkind hlambda h
  unfold others
  split <;> intro hkind hlambda h
  all_goals first
    | exact absurd hkind (by decide)
    | exact absurd h Bool.false_ne_true
    | exact absurd rfl hlambda
    | exact phrase_of_name h
    | exact phrase_of_comprehension_clause h
    | skip
  have hstatement : statementKinds.contains kind = false := by
    simp only [isPhrase, Bool.and_eq_true, Bool.not_eq_true'] at hkind
    exact hkind.1.1.1
  have hclause : (kind == "case_clause") = false := by
    by_contra hcase
    rw [Bool.not_eq_false, beq_iff_eq] at hcase
    rw [hcase] at hkind
    exact absurd hkind (by decide)
  rw [hstatement, hclause] at h
  simpa using h

/-- Below a phrase there are phrases, a lambda apart. -/
theorem phrase_of_admits {kind : String} (hkind : isPhrase kind = true) (hlambda : kind ≠ "lambda")
    {c : Concrete} (h : admits kind c = true) : isPhrase c.kind = true := by
  unfold admits at h
  split at h
  · rename_i p hp
    exact phrase_places hkind p (List.mem_of_find?_eq_some hp) c.kind h
  · exact phrase_others hkind hlambda h

end phrases

section expressions
variable {source : String} {v : View} {role : Role} {named : Bool} {field : Option String}
  {extent : Extent} {cs : List Concrete}

/-- An expression of which all children are met in one view. -/
theorem keeps_expression {kind : String} (h : Offspring source kind cs) (hclear : Transparent kind cs)
    (hadmits : ∀ c ∈ cs, admits kind c = true → isPhrase c.kind = true)
    (hrule : v.rule kind = .expression role) : Keeps source v (.node kind named field extent cs) := by
  rw [Keeps, kept_of_transparent hclear, lower, hrule]
  dsimp only
  rw [owners_shape rfl]
  exact h.each_proper trivial hadmits

/-- A group has no node of its own. -/
theorem keeps_group {kind : String} {w : View} (h : Offspring source kind cs)
    (hclear : Transparent kind cs) (hrule : v.rule kind = .group w) (hw : w.Sensible)
    (hadmits : ∀ c ∈ cs, admits kind c = true → w.takes c.kind = true) :
    Keeps source v (.node kind named field extent cs) := by
  rw [Keeps, kept_of_transparent hclear, lower, hrule]
  exact h.each_proper hw hadmits

theorem keeps_named (h : Offspring source "named_expression" cs)
    (hrule : v.rule "named_expression" = .namedExpression role) :
    Keeps source v (.node "named_expression" named field extent cs) := by
  have hvalue : KeepsField source (.expression .value) "value" cs :=
    h.field rfl trivial fun _ hk => hk
  have htarget : KeepsField source (.target .target) "name" cs := h.field rfl trivial fun _ hk => hk
  have hall : (keptIn "value" cs ++ (keptIn "name" cs ++ [])).Perm (cs.flatMap kept) :=
    h.all_fields fun _ => rfl
  rw [List.append_nil] at hall
  rw [Keeps, kept_of_transparent ⟨rfl, fun _ => rfl⟩, lower, hrule]
  dsimp only
  rw [owners_shape rfl, owners_all_append]
  exact (hvalue.append htarget).trans hall

/-- The children of an `as` pattern, before and after the alias is found. -/
theorem aliased_gives (h : Offspring source "as_pattern" cs) (ds : List Concrete)
    (hds : ∀ d ∈ ds, d ∈ cs) (found : Bool) :
    (ownersAll (lowerAliased source found ds)).Perm (ds.flatMap kept) := by
  induction ds generalizing found with
  | nil =>
    rw [lowerAliased, owners_all_nil]
    exact .nil
  | cons d rest ih =>
    have hd : d ∈ cs := hds d (by simp)
    have hrest := ih fun e he => hds e (by simp [he])
    rw [lowerAliased, List.flatMap_cons]
    rw [owners_all_append]
    refine .append ?_ (hrest _)
    cases hp : d.isProper with
    | false =>
      rw [h.kept_of_improper hd hp, if_neg Bool.false_ne_true, owners_all_nil]
    | true =>
      have hphrase : d.isToken = false → isPhrase d.kind = true := fun ht => by
        have hadm := h.admitted d hd ht
        exact phrase_of_admits rfl (by decide) hadm
      rw [if_pos rfl]
      split
      · exact h.keeps_proper trivial hd hp hphrase
      · exact h.keeps_proper trivial hd hp hphrase

theorem keeps_aliased (h : Offspring source "as_pattern" cs)
    (hrule : v.rule "as_pattern" = .aliased role) :
    Keeps source v (.node "as_pattern" named field extent cs) := by
  rw [Keeps, kept_of_transparent ⟨rfl, fun _ => rfl⟩, lower, hrule]
  dsimp only
  rw [owners_shape rfl]
  exact aliased_gives h cs (fun _ hd => hd) false

theorem keeps_name (h : Offspring source "identifier" cs) (hrule : v.rule "identifier" = .name role) :
    Keeps source v (.node "identifier" named field extent cs) := by
  have hall := h.all_fields fun _ => rfl
  rw [Keeps, kept_of_transparent ⟨rfl, fun _ => rfl⟩, lower, hrule]
  dsimp only
  rw [owners_shape rfl, owners_all_nil]
  exact hall

end expressions

section comprehensions
variable {source : String} {v : View} {role : Role} {named : Bool} {field : Option String}
  {extent : Extent} {cs : List Concrete}

abbrev resultPlace : Place := ⟨"body", (fun k => isPhrase k && !isComprehensionClause k), false⟩

theorem result_skipped {k : String} (h : resultPlace.takes k = true) :
    comprehensionClauseRule k = .skip := by
  unfold comprehensionClauseRule
  split
  · exact absurd h (by decide)
  · exact absurd h (by decide)
  · rfl

theorem keeps_clause {kind : String} (h : Offspring source kind cs)
    (hcoheres : ∀ c ∈ cs, c.kind = "if_clause" → (c.children.filter isProper).length ≤ 1) {c : Concrete}
    (hc : c ∈ cs) (ht : c.isToken = false) (hclause : isComprehensionClause c.kind = true) :
    Keeps source .comprehensionClause c := by
  have hupheld := h.upheld c hc ht
  rcases Bool.or_eq_true_iff.1 hclause with hfor | hif
  · exact hupheld.taken .comprehensionClause hfor
  · exact hupheld.filter (beq_iff_eq.1 hif) (hcoheres c hc (beq_iff_eq.1 hif))

theorem keeps_comprehension {kind : String} (h : Offspring source kind cs)
    (hclear : Transparent kind cs) (hplaces : places kind = [resultPlace])
    (hothers : ∀ k, others kind k = isComprehensionClause k)
    (hcoheres : ∀ c ∈ cs, c.kind = "if_clause" → (c.children.filter isProper).length ≤ 1)
    (hrule : v.rule kind = .comprehension role) :
    Keeps source v (.node kind named field extent cs) := by
  have hplace : (places kind).find? (·.field == "body") = some resultPlace := by
    rw [hplaces]
    rfl
  have hresult : KeepsField source (.expression .result) "body" cs :=
    h.field hplace trivial fun _ hk => phrase_of_result hk
  have hclauses : (ownersAll (lowerEach source (proper .comprehensionClause) cs)).Perm
      (keptBeside (places kind) cs) :=
    h.each_beside trivial (fun c hc ht hk => keeps_clause h hcoheres hc ht ((hothers _).symm.trans hk))
      fun p hp k hk => by
        rw [hplaces] at hp
        rw [List.mem_singleton.1 hp] at hk
        exact result_skipped hk
  have hall := by_places (places_nodup kind) cs
  have hfields : ((places kind).flatMap fun p => keptIn p.field cs) = keptIn "body" cs := by
    rw [hplaces]
    exact List.append_nil _
  rw [hfields] at hall
  rw [Keeps, kept_of_transparent hclear, lower, hrule]
  dsimp only
  rw [owners_shape rfl, owners_all_append]
  exact (hresult.append hclauses).trans hall

/-- What a clause iterates over, be it one expression or several. -/
theorem iterated_gives (h : Offspring source "for_in_clause" cs) :
    (ownersAll (iterated source cs)).Perm (keptIn "right" cs) := by
  have hplace : (⟨"right", isPhrase, true⟩ : Place) ∈ places "for_in_clause" := .head _
  unfold iterated
  split
  · rename_i hnone
    have hkept : keptIn "right" cs = [] := by
      refine List.flatMap_eq_nil_iff.2 fun c hc => if_neg ?_
      exact List.filter_eq_nil_iff.1 hnone c hc
    rw [hkept, owners_all_nil]
  · rename_i only hone
    refine first_gives (h.fills_gives hplace trivial fun _ hk => hk) ?_
    rw [fills_some]
    exact Nat.le_of_eq (congrArg List.length hone)
  · rw [owners_of_other rfl]
    exact h.each_field hplace trivial fun _ hk => hk

theorem keeps_comprehension_for (h : Offspring source "for_in_clause" cs) :
    Keeps source .comprehensionClause (.node "for_in_clause" named field extent cs) := by
  have htarget : KeepsField source (.target .target) "left" cs := h.field rfl trivial fun _ hk => hk
  have hall : (keptIn "right" cs ++ (keptIn "left" cs ++ [])).Perm (cs.flatMap kept) :=
    h.all_fields fun _ => rfl
  rw [List.append_nil] at hall
  rw [Keeps, kept_of_transparent ⟨rfl, fun _ => rfl⟩, lower]
  simp only [View.rule, comprehensionClauseRule]
  rw [owners_shape rfl, owners_all_append]
  exact ((iterated_gives h).append htarget).trans hall

theorem keeps_comprehension_if (h : Offspring source "if_clause" cs)
    (hone : (cs.filter isProper).length ≤ 1) :
    Keeps source .comprehensionClause (.node "if_clause" named field extent cs) := by
  rw [Keeps, kept_of_transparent ⟨rfl, fun _ => rfl⟩, lower]
  simp only [View.rule, comprehensionClauseRule]
  rw [owners_shape rfl]
  refine first_gives (h.proper_gives trivial fun c _ hadm => phrase_of_admits rfl (by decide) hadm) ?_
  rwa [proper_some]

end comprehensions
end PythonFlow.Lowering
