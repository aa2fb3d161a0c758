import PythonFlow.Proofs.Frame.Tries

/-!
# The frame of every visit

With the rule of a comprehension every rule has its frame, and so has a visit of any node at any depth,
by induction on the depth.
-/

set_option autoImplicit false

namespace PythonFlow.Sketch
variable {t : SyntaxTree} {s : NodeId} {V : Visitor} {k k0 : Sketch}

theorem nodup_for_clause (ho : t.Ordered) (s : NodeId) :
    ((t.iterable s).toList ++ t.targets s).Nodup := by
  refine List.nodup_append.2 ⟨nodup_option _, nodup_targets ho s, fun a ha b hb => ?_⟩
  have hra := (mem_iterable_list ha).2
  have hrb := (SyntaxTree.mem_targets.1 hb).2
  rintro rfl
  rw [hra] at hrb
  cases hrb

section comprehension
variable (hg : t.Grammatical) (hk : t.kind s = .comprehension)
  (hV : ∀ c, t.Inside c s → Grows t V c)
include hg

theorem filter_condition {clause c : NodeId} (hclause : clause ∈ t.comprehensionIfs s)
    (hc : t.condition clause = some c) :
    Direct t s c ∧ t.Inside c clause ∧ (t.kind c).isTerm = true := by
  obtain ⟨hmem, hkind⟩ := SyntaxTree.mem_comprehension_ifs.1 hclause
  have hchild := (SyntaxTree.mem_condition hc).1
  exact ⟨direct_grandchild hg.ordered hmem (by rw [hkind]; rfl) hchild,
    inside_of_mem hg.ordered hchild,
    hg.term_condition (.inr (.inr (.inr hkind))) hc⟩

include hV

theorem grown_filter (hs : Fresh t s k0) (hG : Grown t s k0 k) {clause : NodeId}
    (hclause : clause ∈ t.comprehensionIfs s) (hf : Fresh t clause k) :
    Grown t s k0 (filterClause t V s clause k) := by
  unfold filterClause
  cases hc : t.condition clause with
  | none => exact hG
  | some c =>
    obtain ⟨hd, hin, hterm⟩ := filter_condition hg hclause hc
    have hplain := SyntaxTree.not_statement_of_quiet (SyntaxTree.is_quiet_of_term hterm)
    have hasked := grown_visited hG hg.ordered hs hd (hV c hd.1 k (fresh_below hg.ordered hf hin.1))
    have hkept := grown_place hasked hg.ordered hd hplain (.conditional (some c) true)
    have hle := (Later.refl (V c k)).place (t := t) (some c) (.conditional (some c) true)
    have hmoved := grown_moved hkept fun x hx => (hasked.cursor_live x hx).later hle
    have hrefused := grown_place hmoved hg.ordered hd hplain (.conditional (some c) false)
    have hpended := grown_pended hrefused (scoped_self t s) fun a ha =>
      List.mem_singleton.1 ha ▸ hrefused.cursor_live _ rfl
    refine grown_moved hpended fun x hx => ?_
    obtain rfl : (V c k).next = x := Option.some.inj hx
    exact (hkept.cursor_live _ rfl).later
      ((((Later.refl _).moved _).place _ _).pended _ _)

theorem fresh_filter {clause d : NodeId} (hclause : clause ∈ t.comprehensionIfs s)
    (hf : Fresh t clause k) (hfd : Fresh t d k) (hd : t.Inside d s) (haway : Apart t d clause) :
    Fresh t d (filterClause t V s clause k) := by
  unfold filterClause
  cases hc : t.condition clause with
  | none => exact hfd
  | some c =>
    obtain ⟨hdir, hin, -⟩ := filter_condition hg hclause hc
    have hcd := apart_below hg.ordered haway (t.below_refl d) hin.1
    have hnot := not_below_of_apart hcd
    have hasked := fresh_visited hfd hg.ordered
      (hV c hdir.1 k (fresh_below hg.ordered hf hin.1)) hcd
    have hrefused := fresh_elsewhere hg.ordered
      (fresh_moved (fresh_elsewhere hg.ordered hasked hnot (.conditional (some c) true))
        (V c k).cursor) hnot (.conditional (some c) false)
    refine fresh_moved (fresh_pended hrefused (hg.ordered.not_below_of_inside hd) fun a ha => ?_) _
    rw [List.mem_singleton.1 ha, size_place]
    exact Nat.lt_succ_self _

/-- What each filter keeps, all of them keep. -/
theorem filters_keeps {M : Sketch → Prop} {clauses : List NodeId}
    (hstep : ∀ c k, c ∈ t.comprehensionIfs s → Fresh t c k → M k → M (filterClause t V s c k))
    (hclauses : ∀ c ∈ clauses, c ∈ t.comprehensionIfs s) (hnodup : clauses.Nodup)
    (hf : ∀ c ∈ clauses, Fresh t c k) (hM : M k) : M (each (filterClause t V s) clauses k) := by
  induction clauses generalizing k with
  | nil => exact hM
  | cons c clauses ih =>
    obtain ⟨hne, hnodup⟩ := List.nodup_cons.1 hnodup
    have hc := hclauses c (by simp)
    have hfc := hf c (by simp)
    refine ih (fun d hd => hclauses d (by simp [hd])) hnodup (fun d hd => ?_) (hstep c k hc hfc hM)
    have hmem := (SyntaxTree.mem_comprehension_ifs.1 (hclauses d (by simp [hd]))).1
    exact fresh_filter hg hV hc hfc (hf d (by simp [hd])) (inside_of_mem hg.ordered hmem)
      (apart_of_ne hg.ordered hmem (SyntaxTree.mem_comprehension_ifs.1 hc).1
        fun heq => hne (heq ▸ hd))

/-- A clause that iterates visits children of the clause alone. -/
theorem grows_for_clause {clause : NodeId} (hclause : clause ∈ t.comprehensionFors s) :
    Grows t (forClause t V) clause := by
  intro k hf
  obtain ⟨hmem, hkind⟩ := SyntaxTree.mem_comprehension_fors.1 hclause
  have hVc : ∀ c, t.Inside c clause → Grows t V c := fun c hc =>
    hV c (hg.ordered.inside_of_inside_below hc (inside_of_mem hg.ordered hmem).1)
  unfold forClause
  rw [← each_append]
  refine visited_children hg hf hVc (open_of_plain (by rw [hkind]; rfl)) (nodup_for_clause hg.ordered clause)
    fun c hc => ?_
  rcases List.mem_append.1 hc with hc | hc
  · exact (mem_iterable_list hc).1
  · exact (SyntaxTree.mem_targets.1 hc).1

def filtered (t : SyntaxTree) (V : Visitor) (s : NodeId) (k : Sketch) : Sketch :=
  each (filterClause t V s) (t.comprehensionIfs s) (k.start t s)

section whole
variable (hs : Fresh t s k0)
include hs

theorem fresh_filtered {d : NodeId} (hd : d ∈ t.children s) (hkind : t.kind d ≠ .comprehensionIf) :
    Fresh t d (filtered t V s k0) := by
  refine filters_keeps hg hV (M := Fresh t d) (fun c k hc hf hfd => ?_) (fun _ h => h)
    ((hg.ordered.children_nodup s).filter _)
    (fun c hc => fresh_child hg.ordered hs (SyntaxTree.mem_comprehension_ifs.1 hc).1)
    (fresh_child hg.ordered hs hd)
  obtain ⟨hmem, hck⟩ := SyntaxTree.mem_comprehension_ifs.1 hc
  exact fresh_filter hg hV hc hf hfd (inside_of_mem hg.ordered hd)
    (apart_of_kind hg.ordered hd hmem (by rwa [hck]))

theorem fresh_for_clause {c : NodeId} (hc : c ∈ t.comprehensionFors s) :
    Fresh t c (filtered t V s k0) := by
  obtain ⟨hmem, hkind⟩ := SyntaxTree.mem_comprehension_fors.1 hc
  exact fresh_filtered hg hV hs hmem (by simp [hkind])

omit hV hs in
theorem apart_for_clauses : (t.comprehensionFors s).Pairwise (Apart t) :=
  apart_children hg.ordered ((hg.ordered.children_nodup s).filter _) fun _ hc =>
    (SyntaxTree.mem_comprehension_fors.1 hc).1

include hk

theorem fresh_result {c : NodeId} (hc : c ∈ (t.comprehensionResult s).toList) :
    Fresh t c (each (forClause t V) (t.comprehensionFors s) (filtered t V s k0)) := by
  obtain ⟨hmem, hrole⟩ := SyntaxTree.mem_result (Option.mem_toList.1 hc)
  have hne : ∀ d ∈ t.children s, t.kind d = .comprehensionFor ∨ t.kind d = .comprehensionIf →
      c ≠ d := by
    rintro d hd hkind rfl
    have hplain := hg.role_clause hk hmem hkind
    rw [hrole] at hplain
    cases hplain
  refine fresh_each hg.ordered (fun c hc => grows_for_clause hg hV hc) (apart_for_clauses hg)
    (fun _ hc => fresh_for_clause hg hV hs hc)
    (fresh_filtered hg hV hs hmem fun h => hne c hmem (.inr h) rfl) fun d hd => ?_
  obtain ⟨hmem', hkind'⟩ := SyntaxTree.mem_comprehension_fors.1 hd
  exact apart_of_ne hg.ordered hmem hmem' (hne d hmem' (.inl hkind'))

theorem grown_filtered : Grown t s k0 (filtered t V s k0) :=
  filters_keeps hg hV (M := Grown t s k0)
    (fun _ _ hc hf hG => grown_filter hg hV hs hG hc hf) (fun _ h => h)
    ((hg.ordered.children_nodup s).filter _)
    (fun _ hc => fresh_child hg.ordered hs (SyntaxTree.mem_comprehension_ifs.1 hc).1)
    (grown_begin hg.ordered (by simp [hk]) .plain)

theorem grown_comprehension : Grown t s k0 (comprehension t V s k0) := by
  have hfors := grown_each hg.ordered (fun _ hc => grows_for_clause hg hV hc) (apart_for_clauses hg)
    (fun _ hc => fresh_for_clause hg hV hs hc)
    (fun _ hc => direct_child hg.ordered (SyntaxTree.mem_comprehension_fors.1 hc).1) hs
    (grown_filtered hg hk hV hs)
  exact grown_each_role hg hV hs hfors (nodup_option _)
    (fun _ hc => (SyntaxTree.mem_result (Option.mem_toList.1 hc)).1)
    fun _ hc => fresh_result hg hk hV hs hc

end whole
end comprehension

theorem nodup_assigned (ho : t.Ordered) (s : NodeId) :
    ((t.assignedValue s).toList ++ t.targets s).Nodup := by
  refine List.nodup_append.2 ⟨nodup_option _, nodup_targets ho s, fun a ha b hb => ?_⟩
  have hra := (SyntaxTree.mem_value (Option.mem_toList.1 ha)).2
  have hrb := (SyntaxTree.mem_targets.1 hb).2
  rintro rfl
  rw [hra] at hrb
  cases hrb

theorem mem_assigned {c : NodeId} (hc : c ∈ (t.assignedValue s).toList ++ t.targets s) :
    c ∈ t.children s := by
  rcases List.mem_append.1 hc with hc | hc
  · exact (SyntaxTree.mem_value (Option.mem_toList.1 hc)).1
  · exact (SyntaxTree.mem_targets.1 hc).1

theorem grows_dispatch (hg : t.Grammatical) (hV : ∀ c, t.Inside c s → Grows t V c) :
    Grows t (dispatch t V) s := by
  intro k hf
  unfold dispatch
  have hall := hg.ordered.children_nodup s
  cases hk : t.kind s
  case functionDef | classDef => exact visited_of_grown (by simp [hk]) (grown_definition hg (by simp [hk]))
  case lambda => exact .inl rfl
  case statement | importStatement =>
    exact visited_of_grown (by simp [hk]) (grown_sequence hg hf hV (by simp [hk]) hall fun _ h => h)
  case assignment =>
    exact visited_of_grown (by simp [hk]) (grown_sequence hg hf hV (by simp [hk])
      (nodup_assigned hg.ordered s) fun _ => mem_assigned)
  case target | parameter | importBinding => exact visited_binding hg hf hV (by rw [hk]; rfl)
  case ifStatement => exact visited_of_grown (by simp [hk]) (grown_conditional hg hV hf hk)
  case whileLoop => exact visited_of_grown (by simp [hk]) (grown_while hg hk hV hf)
  case forLoop => exact visited_of_grown (by simp [hk]) (grown_for hg hk hV hf)
  case breakJump => exact visited_of_grown (by simp [hk]) (grown_break hg hk)
  case continueJump => exact visited_of_grown (by simp [hk]) (grown_continue hg hk)
  case returnExit => exact visited_of_grown (by simp [hk]) (grown_leaving hg hf hV (.inl hk))
  case raiseExit => exact visited_of_grown (by simp [hk]) (grown_leaving hg hf hV (.inr hk))
  case tryStatement => exact visited_try hg hV hk hf
  case comprehension => exact visited_of_grown (by simp [hk]) (grown_comprehension hg hk hV hf)
  all_goals exact visited_children hg hf hV (open_of_plain (by rw [hk]; rfl)) hall fun _ h => h

/-- One instruction stands for what is cut off. -/
theorem visited_cut (hg : t.Grammatical) (s : NodeId) (k : Sketch) {cut : List NodeId} (hs : s ∈ cut)
    (hcut : ∀ c ∈ k.truncated, c ∈ cut) : Visited t s k ({ k with truncated := cut }.start t s) := by
  have hstart := framed_start (k := { k with truncated := cut }) hg.ordered (s := s) .plain
  refine .inr ⟨{ hstart with
    origin := fun a b h => ?_
    left := hstart.left
    truncated_old := hcut
    wired := wired_start (k := k) rfl fun l _ _ => .truncated hs },
    fun F hF => absurd hs hF.2.2⟩
  rcases (edge_place _ t (some s) .plain a b).1 h with h | h
  · exact .old h
  · exact .entering h.1 h.2

theorem visited_truncated (hg : t.Grammatical) (s : NodeId) (k : Sketch) :
    Visited t s k (visit t 0 s k) :=
  visited_cut hg s k List.mem_cons_self fun _ hc => List.mem_cons_of_mem s hc

theorem grows_visit (hg : t.Grammatical) (depth : Nat) (s : NodeId) : Grows t (visit t depth) s := by
  induction depth generalizing s with
  | zero => exact fun k _ => visited_truncated hg s k
  | succ depth ih => exact grows_dispatch hg fun c _ => ih c

abbrev opening (t : SyntaxTree) : Sketch := blank.place t none .plain

theorem element_opening (t : SyntaxTree) (id : InstructionId) : (opening t).element id = none := by
  rw [element_place]
  split
  · rfl
  · rfl

theorem fresh_opening (t : SyntaxTree) (s : NodeId) : Fresh t s (opening t) where
  ranged := fun e he => by cases he
  unscoped := fun e he => by cases he
  bare := fun _ _ _ id el hel => by
    rw [element_opening] at hel
    cases hel

/-- What a build leaves before its exit is made. -/
theorem visited_owner (hg : t.Grammatical) (depth : Nat) (owner : NodeId) :
    Visited t owner (opening t) (interior t depth owner) := by
  unfold interior visitOwner
  split
  · next ho =>
    exact visited_children hg (fresh_opening t owner) (fun c _ => grows_visit hg depth c)
      (open_of_owner ho) (hg.ordered.children_nodup owner) fun _ h => h
  · exact grows_visit hg depth owner _ (fresh_opening t owner)

end PythonFlow.Sketch
