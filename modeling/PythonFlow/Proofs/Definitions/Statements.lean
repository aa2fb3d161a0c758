import PythonFlow.Proofs.Definitions.Kept

/-!
# Statements keep their definitions

One lemma for each kind of statement and clause that a rule is about, and one for all statements that are
lowered child by child. An import holds names and nothing below them.
-/

set_option autoImplicit false

namespace PythonFlow.Lowering
open Concrete Shape

section statements
variable {source : String} {v : View} {role : Role} {named : Bool} {field : Option String}
  {extent : Extent} {cs : List Concrete}

theorem keeps_while (h : Offspring source "while_statement" cs)
    (hrule : v.rule "while_statement" = .whileLoop role) :
    Keeps source v (.node "while_statement" named field extent cs) := by
  have hcondition : KeepsField source (.expression .condition) "condition" cs :=
    h.field rfl trivial fun _ hk => hk
  have hbody : KeepsField source (.block .body) "body" cs := h.field rfl trivial fun _ hk => hk
  have helse : KeepsField source .elsePart "alternative" cs := h.field rfl trivial fun _ hk => hk
  have hall : (keptIn "condition" cs ++ (keptIn "body" cs ++ (keptIn "alternative" cs ++ []))).Perm
      (cs.flatMap kept) := h.all_fields fun _ => rfl
  rw [Keeps, kept_of_transparent ⟨rfl, fun _ => rfl⟩, lower, hrule]
  dsimp only
  rw [owners_shape rfl, owners_all_append, owners_all_append]
  rw [List.append_nil, ← List.append_assoc] at hall
  exact ((hcondition.append hbody).append helse).trans hall

theorem keeps_for (h : Offspring source "for_statement" cs)
    (hrule : v.rule "for_statement" = .forLoop role) :
    Keeps source v (.node "for_statement" named field extent cs) := by
  have hiterable : KeepsField source (.expression .iterable) "right" cs :=
    h.field rfl trivial fun _ hk => hk
  have htarget : KeepsField source (.target .target) "left" cs := h.field rfl trivial fun _ hk => hk
  have hbody : KeepsField source (.block .body) "body" cs := h.field rfl trivial fun _ hk => hk
  have helse : KeepsField source .elsePart "alternative" cs := h.field rfl trivial fun _ hk => hk
  have hall : (keptIn "right" cs ++ (keptIn "left" cs ++
      (keptIn "body" cs ++ (keptIn "alternative" cs ++ [])))).Perm (cs.flatMap kept) :=
    h.all_fields fun _ => rfl
  rw [Keeps, kept_of_transparent ⟨rfl, fun _ => rfl⟩, lower, hrule]
  dsimp only
  rw [owners_shape rfl, owners_all_append, owners_all_append, owners_all_append]
  rw [List.append_nil, ← List.append_assoc, ← List.append_assoc] at hall
  exact (((hiterable.append htarget).append hbody).append helse).trans hall

/-- The condition and the suite of a part. -/
theorem keeps_part {kind : String} (h : Offspring source kind cs)
    (hcondition : (places kind).find? (·.field == "condition") = some ⟨"condition", isPhrase, false⟩)
    (hsuite : (places kind).find? (·.field == "consequence") = some ⟨"consequence", isSuite, false⟩) :
    (ownersAll (lowerFirst source (fills "condition" (.expression .condition)) cs ++
      lowerFirst source (fills "consequence" (.block .body)) cs)).Perm
        (keptIn "condition" cs ++ keptIn "consequence" cs) := by
  have hfirst : KeepsField source (.expression .condition) "condition" cs :=
    h.field hcondition trivial fun _ hk => hk
  have hrest : KeepsField source (.block .body) "consequence" cs :=
    h.field hsuite trivial fun _ hk => hk
  rw [owners_all_append]
  exact hfirst.append hrest

theorem keeps_elif (h : Offspring source "elif_clause" cs) :
    Keeps source (.conditionalPart .elifPart) (.node "elif_clause" named field extent cs) := by
  have hall : (keptIn "condition" cs ++ (keptIn "consequence" cs ++ [])).Perm (cs.flatMap kept) :=
    h.all_fields fun _ => rfl
  rw [List.append_nil] at hall
  rw [Keeps, kept_of_transparent ⟨rfl, fun _ => rfl⟩, lower]
  simp only [View.rule]
  rw [owners_of_other rfl]
  exact (keeps_part h rfl rfl).trans hall

/-- The `elif` and `else` clauses of a conditional. -/
theorem keeps_alternatives (h : Offspring source "if_statement" cs) :
    (ownersAll (lowerEach source alternative cs)).Perm (keptIn "alternative" cs) := by
  refine each_gives fun c hc => ?_
  unfold Gives alternative
  by_cases hf : c.field = some "alternative"
  · have hfills : c.fillsIn "alternative" = true := by simp [fillsIn, hf]
    simp only [if_pos hf, hfills, if_true]
    by_cases helif : c.kind = "elif_clause"
    · rw [if_pos helif]
      exact h.keeps_filling rfl hc hfills (by decide) fun _ => by
        rw [helif]
        rfl
    by_cases helse : c.kind = "else_clause"
    · rw [if_neg helif, if_pos helse]
      exact h.keeps_filling trivial hc hfills (by decide) fun _ => by
        rw [helse]
        rfl
    rw [if_neg helif, if_neg helse]
    refine kept_of_token (h.formed c hc) ?_
    by_contra ht
    have hplace : (⟨"alternative", isAlternative, true⟩ : Place) ∈ places "if_statement" :=
      .tail _ (.tail _ (.head _))
    have hadm := h.admitted c hc (by simpa using ht)
    rw [admits_field hplace hfills] at hadm
    simp [isAlternative, helif, helse] at hadm
  · simp [hf, fillsIn]

theorem keeps_if (h : Offspring source "if_statement" cs)
    (hrule : v.rule "if_statement" = .conditional role) :
    Keeps source v (.node "if_statement" named field extent cs) := by
  have hall : (keptIn "condition" cs ++ (keptIn "consequence" cs ++
      (keptIn "alternative" cs ++ []))).Perm (cs.flatMap kept) := h.all_fields fun _ => rfl
  rw [List.append_nil, ← List.append_assoc] at hall
  rw [Keeps, kept_of_transparent ⟨rfl, fun _ => rfl⟩, lower, hrule]
  dsimp only
  rw [owners_shape rfl, ← List.singleton_append, owners_all_append, owners_of_other rfl]
  exact ((keeps_part h rfl rfl).append (keeps_alternatives h)).trans hall

/-- A token is no suite. -/
theorem named_as_token {c : Concrete} (ht : c.isToken = true) :
    namedAs "block" v c = none := by
  refine if_neg fun hsome => ?_
  rw [Bool.and_eq_true, beq_iff_eq] at hsome
  simp [isToken, isProper, hsome] at ht

/-- Children of which none but suites are more than tokens, met by their kind. -/
theorem suites_give {kind : String} (h : Offspring source kind cs)
    (hsuite : ∀ c ∈ cs, c.isToken = false → isSuite c.kind = true) :
    ∀ c ∈ cs, Gives source (namedAs "block" (.block .body)) kept c := by
  intro c hc
  unfold Gives
  cases ht : c.isToken with
  | true =>
    rw [named_as_token ht]
    exact kept_of_token (h.formed c hc) ht
  | false =>
    have hkind := hsuite c hc ht
    have hproper : c.isProper = true := by
      by_contra hp
      rw [token_of_improper (by simpa using hp)] at ht
      cases ht
    have hnamed : c.named = true := by
      rw [isProper, Bool.and_eq_true] at hproper
      exact hproper.1
    have hsome : (c.named && c.kind == "block") = true := by
      rw [hnamed]
      exact hkind
    rw [namedAs, if_pos hsome]
    exact (h.upheld c hc ht).taken _ hkind

theorem keeps_else (h : Offspring source "else_clause" cs) :
    Keeps source .elsePart (.node "else_clause" named field extent cs) := by
  have hall : (keptIn "body" cs ++ []).Perm (cs.flatMap kept) := h.all_fields fun _ => rfl
  rw [List.append_nil] at hall
  rw [Keeps, kept_of_transparent ⟨rfl, fun _ => rfl⟩, lower]
  simp only [View.rule]
  rw [owners_shape rfl, elseSuite]
  split
  · have hbody : KeepsField source (.block .body) "body" cs := h.field rfl trivial fun _ hk => hk
    exact hbody.trans hall
  · rename_i hbody
    have htokens : ∀ c ∈ cs, c.isToken = true := fun c hc => by
      refine h.token_of_unplaced (fun _ => rfl) hc ?_
      have hfills : c.fillsIn "body" = false :=
        Bool.eq_false_iff.2 fun hf => hbody (List.any_eq_true.2 ⟨c, hc, hf⟩)
      exact Bool.or_eq_false_iff.2 ⟨hfills, rfl⟩
    have hgives := suites_give h fun c hc ht => by
      rw [htokens c hc] at ht
      cases ht
    have hnone : ∀ c ∈ cs, namedAs "block" (.block .body) c = none := fun c hc =>
      named_as_token (htokens c hc)
    refine first_gives hgives ?_
    rw [List.filter_eq_nil_iff.2 fun c hc => by simp [hnone c hc]]
    exact Nat.zero_le 1

theorem keeps_suite (h : Offspring source "block" cs) (hrule : v.rule "block" = .block role) :
    Keeps source v (.node "block" named field extent cs) := by
  rw [Keeps, kept_of_transparent ⟨rfl, fun _ => rfl⟩, lower, hrule]
  dsimp only
  rw [owners_of_other rfl]
  exact h.each_proper trivial fun c _ hadm => hadm

theorem keeps_try_body (h : Offspring source "block" cs) :
    Keeps source .tryBody (.node "block" named field extent cs) := by
  rw [Keeps, kept_of_transparent ⟨rfl, fun _ => rfl⟩, lower]
  simp only [View.rule]
  rw [owners_of_other rfl, owners_of_other rfl]
  exact h.each_proper trivial fun c _ hadm => hadm

theorem keeps_try (h : Offspring source "try_statement" cs)
    (hrule : v.rule "try_statement" = .trying role) :
    Keeps source v (.node "try_statement" named field extent cs) := by
  have hbody : KeepsField source .tryBody "body" cs := h.field rfl trivial fun _ hk => hk
  have hclauses : (ownersAll (lowerEach source (proper .tryClause) cs)).Perm
      (keptBeside (places "try_statement") cs) :=
    h.each_beside trivial (fun c hc ht hk => (h.upheld c hc ht).taken _ hk) fun p hp k hk => by
      rw [List.mem_singleton.1 hp] at hk
      obtain rfl : k = "block" := beq_iff_eq.1 hk
      rfl
  have hall : ((keptIn "body" cs ++ []) ++ keptBeside (places "try_statement") cs).Perm
      (cs.flatMap kept) := by_places (places_nodup "try_statement") cs
  rw [List.append_nil] at hall
  rw [Keeps, kept_of_transparent ⟨rfl, fun _ => rfl⟩, lower, hrule]
  dsimp only
  rw [owners_shape rfl, owners_all_append]
  exact (hbody.append hclauses).trans hall

theorem keeps_finally (h : Offspring source "finally_clause" cs) :
    Keeps source .tryClause (.node "finally_clause" named field extent cs) := by
  have hgives := suites_give h fun c hc ht => h.admitted c hc ht
  have hsuites : (cs.filter fun c => isSuite c.kind).length ≤ 1 := of_decide_eq_true h.coherent
  have hone : (cs.filter fun c => (namedAs "block" (.block .body) c).isSome).length ≤ 1 := by
    refine Nat.le_trans (List.Sublist.length_le ?_) hsuites
    refine List.monotone_filter_right cs fun c hsome => ?_
    by_contra hother
    have hnone : namedAs "block" (.block .body) c = none :=
      if_neg fun hnamed => hother (Bool.and_eq_true_iff.1 hnamed).2
    rw [hnone] at hsome
    cases hsome
  rw [Keeps, kept_of_transparent ⟨rfl, fun _ => rfl⟩, lower]
  simp only [View.rule, tryClauseRule]
  rw [owners_shape rfl]
  exact first_gives hgives hone

/-- What parts an exception from its name is no phrase and no suite. -/
theorem separator_token {kind : String} (h : Offspring source kind cs)
    (hadmits : ∀ c, admits kind c = true → (isPhrase c.kind || isSuite c.kind) = true) {c : Concrete}
    (hc : c ∈ cs) (hkind : c.kind = "as" ∨ c.kind = ",") : c.isToken = true := by
  by_contra ht
  have hadm := hadmits c (h.admitted c hc (by simpa using ht))
  rcases hkind with hkind | hkind <;> rw [hkind] at hadm <;> revert hadm <;> decide

/-- The children of a handler, before and after a name is due. -/
theorem handler_gives {kind : String} (h : Offspring source kind cs)
    (hadmits : ∀ c, admits kind c = true → (isPhrase c.kind || isSuite c.kind) = true)
    (ds : List Concrete) (hds : ∀ d ∈ ds, d ∈ cs) (bound : Bool) :
    (ownersAll (lowerHandler source bound ds)).Perm (ds.flatMap kept) := by
  -- The list is part of the clause's children; which view a child has depends on what came before.
  induction ds generalizing bound with
  | nil =>
    rw [lowerHandler, owners_all_nil]
    exact .nil
  | cons d rest ih =>
    have hd : d ∈ cs := hds d (by simp)
    have hrest := ih fun e he => hds e (by simp [he])
    rw [lowerHandler, List.flatMap_cons]
    by_cases hseparator : d.kind = "as" ∨ d.kind = ","
    · rw [if_pos hseparator, kept_of_token (h.formed d hd) (separator_token h hadmits hd hseparator)]
      exact hrest true
    rw [if_neg hseparator]
    by_cases hblock : d.kind = "block"
    · have hsuite : Keeps source (.block .body) d := by
        refine h.keeps_child trivial hd (fun _ => ?_) fun _ => ?_
        · rw [isMet, hblock, show clauseKinds.contains "block" = true from rfl, Bool.or_true]
          rfl
        · rw [hblock]
          rfl
      rw [if_pos hblock, owners_all_append]
      exact hsuite.append (hrest bound)
    rw [if_neg hblock]
    cases hp : d.isProper with
    | false =>
      rw [h.kept_of_improper hd hp]
      exact hrest bound
    | true =>
      have hphrase : d.isToken = false → isPhrase d.kind = true := fun ht => by
        simpa [isSuite, hblock] using hadmits d (h.admitted d hd ht)
      have htarget : Keeps source (.target .target) d := h.keeps_proper trivial hd hp hphrase
      have hcaught : Keeps source (.expression .plain) d := h.keeps_proper trivial hd hp hphrase
      cases bound with
      | true =>
        simp only [Bool.not_true, Bool.false_eq_true, if_false, if_true, owners_all_append]
        exact htarget.append (hrest false)
      | false =>
        simp only [Bool.not_true, Bool.false_eq_true, if_false, owners_all_append]
        exact hcaught.append (hrest false)

theorem keeps_handler {kind : String} (h : Offspring source kind cs) (hclear : Transparent kind cs)
    (hadmits : ∀ c, admits kind c = true → (isPhrase c.kind || isSuite c.kind) = true)
    (hrule : v.rule kind = .handler) : Keeps source v (.node kind named field extent cs) := by
  rw [Keeps, kept_of_transparent hclear, lower, hrule]
  dsimp only
  rw [owners_shape rfl]
  exact handler_gives h hadmits cs (fun _ hd => hd) false

/-- What is returned or raised. -/
theorem keeps_leaving {kind : String} {k : SyntaxKind} (h : Offspring source kind cs)
    (hclear : Transparent kind cs) (hk : k.isOwner = false)
    (hadmits : ∀ c, admits kind c = true → isPhrase c.kind = true)
    (hrule : v.rule kind = .leaving k role) : Keeps source v (.node kind named field extent cs) := by
  rw [Keeps, kept_of_transparent hclear, lower, hrule]
  dsimp only
  rw [owners_shape hk]
  exact h.each_proper trivial fun c _ => hadmits c

/-- A statement without a rule of its own, lowered child by child. -/
theorem keeps_generic {kind : String} (h : Offspring source kind cs) (hclear : Transparent kind cs)
    (hadmits : ∀ c, admits kind c = true → View.member.takes c.kind = true)
    (hrule : v.rule kind = .generic role) : Keeps source v (.node kind named field extent cs) := by
  rw [Keeps, kept_of_transparent hclear, lower, hrule]
  dsimp only
  rw [owners_shape rfl]
  exact h.each_proper trivial fun c _ => hadmits c

theorem keeps_jump {kind : String} {k : SyntaxKind} (h : Offspring source kind cs)
    (hclear : Transparent kind cs) (hk : k.isOwner = false) (hplaces : places kind = [])
    (hothers : ∀ l, others kind l = false)
    (hrule : v.rule kind = .leaf k role) : Keeps source v (.node kind named field extent cs) := by
  have hall := h.all_fields hothers
  rw [hplaces, List.flatMap_nil] at hall
  rw [Keeps, kept_of_transparent hclear, lower, hrule]
  dsimp only
  rw [owners_shape hk, owners_all_nil]
  exact hall

end statements

section bindings
variable {source : String} {v : View} {role : Role} {named : Bool} {field : Option String}
  {extent : Extent} {cs : List Concrete}

theorem owners_bindings {binding : Concrete → Option Shape}
    (hbinding : ∀ c s, binding c = some s → s.owners = []) (cs : List Concrete) :
    ownersAll (cs.filterMap binding) = [] := by
  induction cs with
  | nil => rw [List.filterMap_nil, owners_all_nil]
  | cons c rest ih =>
    rw [List.filterMap_cons]
    cases hc : binding c with
    | none => exact ih
    | some s => rw [ownersAll, hbinding c s hc, List.nil_append, ih]

theorem owners_import_binding {fromModule : Bool} (c : Concrete) (s : Shape)
    (h : importBinding source fromModule c = some s) : s.owners = [] := by
  obtain ⟨name, -, rfl⟩ := Option.map_eq_some_iff.1 h
  rw [shape, owners, owners_all_nil]
  rfl

theorem owners_parameter_binding (c : Concrete) (s : Shape)
    (h : parameterBinding source c = some s) : s.owners = [] := by
  obtain ⟨name, -, rfl⟩ := Option.map_eq_some_iff.1 h
  rw [shape, owners, owners_all_nil]
  rfl

/-- Neither defaults nor annotations of parameters are looked into. -/
theorem owners_parameters (cs : List Concrete) :
    ownersAll (lowerFirst source (fills "parameters" .parameters) cs) = [] := by
  induction cs with
  | nil => rw [lowerFirst, owners_all_nil]
  | cons c rest ih =>
    rw [lowerFirst, fills]
    by_cases hf : c.field = some "parameters"
    · rw [if_pos hf]
      cases c with
      | node kind named field extent ds =>
        dsimp only
        rw [lower]
        dsimp only [View.rule]
        rw [owners_shape rfl, owners_bindings owners_parameter_binding]
    · rw [if_neg hf]
      exact ih

theorem name_admits {kind : String} (hkind : nameKinds.contains kind = true) {c : Concrete}
    (h : admits kind c = true) : nameKinds.contains c.kind = true := by
  rw [List.contains_iff_mem] at hkind
  simp only [nameKinds, List.mem_cons, List.not_mem_nil, or_false] at hkind
  rcases hkind with rfl | rfl | rfl | rfl | rfl | rfl
  all_goals first | exact h | cases h

/-- There is no definition below a name. -/
theorem kept_of_name : ∀ c : Concrete, c.wellFormed = true → nameKinds.contains c.kind = true →
    c.kept = [] := by
  refine members_induction fun kind named field extent cs ih hformed hkind => ?_
  cases ht : (Concrete.node kind named field extent cs).isToken with
  | true => exact kept_of_token hformed ht
  | false =>
    have hparts := parts_of_well_formed hformed ht
    have hclear : Transparent kind cs := by
      have hmem := List.contains_iff_mem.1 hkind
      simp only [nameKinds, List.mem_cons, List.not_mem_nil, or_false, Concrete.kind] at hmem
      rcases hmem with rfl | rfl | rfl | rfl | rfl | rfl <;> exact ⟨rfl, fun _ => rfl⟩
    rw [kept_of_transparent hclear]
    refine List.flatMap_eq_nil_iff.2 fun c hc => ?_
    cases htoken : c.isToken with
    | true => exact kept_of_token (hparts.formed c hc) htoken
    | false =>
      exact ih c hc (hparts.formed c hc) (name_admits hkind (hparts.admitted c hc htoken))

theorem keeps_importing {kind : String} {fromModule : Bool} (h : Offspring source kind cs)
    (hclear : Transparent kind cs)
    (hadmits : ∀ c, admits kind c = true → nameKinds.contains c.kind = true)
    (hrule : v.rule kind = .importing role fromModule) :
    Keeps source v (.node kind named field extent cs) := by
  have hnone : cs.flatMap kept = [] := by
    refine List.flatMap_eq_nil_iff.2 fun c hc => ?_
    cases ht : c.isToken with
    | true => exact kept_of_token (h.formed c hc) ht
    | false => exact kept_of_name c (h.formed c hc) (hadmits c (h.admitted c hc ht))
  rw [Keeps, kept_of_transparent hclear, hnone, lower, hrule]
  dsimp only
  rw [owners_shape rfl, owners_bindings owners_import_binding]

theorem keeps_function (h : Offspring source "function_definition" cs)
    (hrule : v.rule "function_definition" = .function role) :
    Keeps source v (.node "function_definition" true field extent cs) := by
  have hbody : KeepsField source (.block .body) "body" cs := h.field rfl trivial fun _ hk => hk
  rw [Keeps, kept_of_headed (f := "body") fun _ => rfl, lower, hrule]
  dsimp only
  rw [shape, owners_of_owner rfl, owners_all_append, owners_parameters, List.nil_append]
  exact hbody.cons _

theorem keeps_class (h : Offspring source "class_definition" cs)
    (hrule : v.rule "class_definition" = .classDefinition role) :
    Keeps source v (.node "class_definition" true field extent cs) := by
  have hbody : KeepsField source (.block .body) "body" cs := h.field rfl trivial fun _ hk => hk
  rw [Keeps, kept_of_headed (f := "body") fun _ => rfl, lower, hrule]
  dsimp only
  rw [shape, owners_of_owner rfl]
  exact hbody.cons _

theorem keeps_lambda (h : Offspring source "lambda" cs) (hrule : v.rule "lambda" = .lambda role) :
    Keeps source v (.node "lambda" true field extent cs) := by
  have hbody : KeepsField source (.expression .body) "body" cs := h.field rfl trivial fun _ hk => hk
  rw [Keeps, kept_of_headed (f := "body") fun _ => rfl, lower, hrule]
  dsimp only
  rw [shape, owners_of_owner rfl, owners_all_append, owners_parameters, List.nil_append]
  exact hbody.cons _

theorem keeps_decorated (h : Offspring source "decorated_definition" cs)
    (hrule : v.rule "decorated_definition" = .decorated role) :
    Keeps source v (.node "decorated_definition" named field extent cs) := by
  have hdefinition : KeepsField source (.statement role) "definition" cs :=
    h.field rfl trivial fun k hk => by
      rw [Bool.or_eq_true, beq_iff_eq, beq_iff_eq] at hk
      rcases hk with rfl | rfl <;> rfl
  rw [Keeps, kept_of_headed (f := "definition") fun _ => rfl, lower, hrule]
  dsimp only
  cases named <;> exact hdefinition

end bindings
end PythonFlow.Lowering
