import PythonFlow.Proofs.Choice.Forks

/-!
# The outcomes of a filter

A filter of a comprehension keeps a value or refuses it. What its condition has left pending is not joined
first, as it is for a branch: it lands on the entry of the kept outcome, which is made first, and the entry
of the refused outcome is entered from where the condition came out alone. What lands there besides comes
from a value that a filter further inside has refused.
-/

set_option autoImplicit false

namespace PythonFlow

/-- `x` is the condition of a filter of the comprehension `m`. -/
def SyntaxTree.Filters (t : SyntaxTree) (m x : NodeId) : Prop :=
  t.kind m = .comprehension ∧ ∃ clause ∈ t.comprehensionIfs m, t.condition clause = some x

namespace Sketch

/-- The label of what is made where a filter refuses a value, in a comprehension for which `M` holds. -/
def Refusal (t : SyntaxTree) (M : NodeId → Prop) (l : Label) : Prop :=
  ∃ m x, M m ∧ t.Filters m x ∧ l = (some x, .conditional (some x) false)

/-- From `k` to `k'` flow has been left pending only where a filter at or below `n` refuses a value. -/
structure Defers (t : SyntaxTree) (n : NodeId) (k k' : Sketch) : Prop where
  made : k.made <+: k'.made
  pending : ∀ e ∈ k'.pending, e ∈ k.pending ∨
    ∃ l, k'.label e.source = some l ∧ Refusal t (t.Below · n) l

variable {t : SyntaxTree} {V : Visitor} {s c n : NodeId} {k k0 k1 k2 : Sketch} {x : InstructionId}

theorem Refusal.mono {M M' : NodeId → Prop} {l : Label} (h : Refusal t M l) (hM : ∀ m, M m → M' m) :
    Refusal t M' l := by
  obtain ⟨m, x, hm, h⟩ := h
  exact ⟨m, x, hM m hm, h⟩

namespace Defers

theorem refl (t : SyntaxTree) (n : NodeId) (k : Sketch) : Defers t n k k :=
  ⟨List.prefix_rfl, fun _ he => .inl he⟩

theorem trans (h : Defers t n k k1) (h' : Defers t n k1 k2) : Defers t n k k2 where
  made := h.made.trans h'.made
  pending := by
    intro e he
    rcases h'.pending e he with he | h
    · refine (h.pending e he).imp_right ?_
      rintro ⟨l, hl, hr⟩
      exact ⟨l, (label_of_made h'.made (lt_size_of_label hl)).trans hl, hr⟩
    · exact .inr h

theorem mono (ho : t.Ordered) (h : Defers t c k k1) (hc : t.Below c n) : Defers t n k k1 where
  made := h.made
  pending := fun e he => (h.pending e he).imp_right fun ⟨l, hl, hr⟩ =>
    ⟨l, hl, hr.mono fun _ hm => ho.below_trans hm hc⟩

theorem place (t : SyntaxTree) (n : NodeId) (k : Sketch) (el : Option NodeId) (kind : InstructionKind) :
    Defers t n k (k.place t el kind) where
  made := prefix_place k el kind
  pending := fun e he => .inl ((mem_pending_place k t el kind e).1 he).1

theorem moved (h : Defers t n k k1) (o : Option InstructionId) : Defers t n k (k1.moved o) :=
  ⟨h.made, h.pending⟩

/-- Flow is left where a value is refused. -/
theorem pended (h : Defers t n k k1) {o : Option NodeId} {l : Label} (hx : k1.label x = some l)
    (hl : Refusal t (t.Below · n) l) : Defers t n k (k1.pended o [x]) where
  made := h.made
  pending := by
    intro e he
    rcases (mem_pending_pended k1 e o [x]).1 he with he | ⟨-, he⟩
    · exact h.pending e he
    · exact .inr ⟨l, (List.mem_singleton.1 he) ▸ hx, hl⟩

theorem each {cs : List NodeId} (hV : ∀ c ∈ cs, ∀ k, Defers t n k (V c k)) (k : Sketch) :
    Defers t n k (Sketch.each V cs k) := by
  induction cs generalizing k with
  | nil => exact .refl t n k
  | cons c cs ih =>
    exact (hV c List.mem_cons_self k).trans (ih (fun d hd => hV d (List.mem_cons_of_mem c hd)) (V c k))

end Defers

section rules
variable (hg : t.Grammatical) (hs : (t.kind s).isQuiet = true)
  (hV : ∀ c, t.Inside c s → (t.kind c).isQuiet = true → ∀ k, Defers t c k (V c k))
include hg hs hV

theorem defers_children {cs : List NodeId} (hcs : ∀ c ∈ cs, c ∈ t.children s) (k : Sketch) :
    Defers t s k (each V cs k) := by
  refine .each (fun c hc k => ?_) k
  have hin := inside_of_mem hg.ordered (hcs c hc)
  exact (hV c hin (hg.quiet_child hs (hcs c hc)) k).mono hg.ordered hin.1

theorem defers_binding (k : Sketch) : Defers t s k (binding t V s k) := by
  unfold binding
  split
  · exact .place t s k _ _
  · exact defers_children hg hs hV (fun _ hc => hc) k

omit hs in
theorem defers_filter (hk : t.kind s = .comprehension) {clause : NodeId}
    (hclause : clause ∈ t.comprehensionIfs s) (k : Sketch) : Defers t s k (filterClause t V s clause k) := by
  unfold filterClause
  cases hc : t.condition clause with
  | none => exact .refl t s k
  | some c =>
    obtain ⟨hd, -, hterm⟩ := filter_condition hg hclause hc
    have hasked := (hV c hd.1 (SyntaxTree.is_quiet_of_term hterm) k).mono hg.ordered hd.1.1
    have hkept := hasked.trans (.place t s (V c k) (some c) (.conditional (some c) true))
    have hrefused := (hkept.moved (V c k).cursor).trans (.place t s _ (some c) (.conditional (some c) false))
    exact (hrefused.pended label_place_next ⟨s, c, t.below_refl s, ⟨hk, clause, hclause, hc⟩, rfl⟩).moved _

omit hs in
theorem defers_for_clause {clause : NodeId} (hclause : clause ∈ t.comprehensionFors s) (k : Sketch) :
    Defers t s k (forClause t V clause k) := by
  obtain ⟨hmem, hkind⟩ := SyntaxTree.mem_comprehension_fors.1 hclause
  have hin := inside_of_mem hg.ordered hmem
  have hchild : ∀ c ∈ t.children clause, ∀ k, Defers t s k (V c k) := fun c hc k =>
    have hcs := hg.ordered.inside_of_inside_below (inside_of_mem hg.ordered hc) hin.1
    (hV c hcs (hg.quiet_child (by rw [hkind]; rfl) hc) k).mono hg.ordered hcs.1
  unfold forClause
  exact (Defers.each (fun c hc => hchild c (mem_iterable_list hc).1) k).trans
    (.each (fun c hc => hchild c (SyntaxTree.mem_targets.1 hc).1) _)

theorem defers_comprehension (hk : t.kind s = .comprehension) (k : Sketch) :
    Defers t s k (comprehension t V s k) := by
  have hfiltered := (Defers.place t s k (some s) .plain).trans
    (.each (fun c hc => defers_filter hg hV hk hc) (k.start t s))
  have hfors := hfiltered.trans (.each (fun c hc => defers_for_clause hg hV hc) _)
  exact hfors.trans (defers_children hg hs hV
    (fun c hc => (SyntaxTree.mem_result (Option.mem_toList.1 hc)).1) _)

theorem defers_dispatch (k : Sketch) : Defers t s k (dispatch t V s k) := by
  have hquiet := hs
  unfold dispatch
  cases hk : t.kind s <;> rw [hk] at hquiet <;> first
    | exact absurd hquiet (by decide)
    | exact .refl t s k
    | exact defers_binding hg hs hV k
    | exact defers_comprehension hg hs hV hk k
    | exact defers_children hg hs hV (fun _ hc => hc) k

end rules

/-- A visit of a term leaves flow pending only where a filter refuses a value. -/
theorem defers_visit (hg : t.Grammatical) (depth : Nat) (hs : (t.kind s).isQuiet = true) (k : Sketch) :
    Defers t s k (visit t depth s k) := by
  induction depth generalizing s k with
  | zero =>
    have hplaced := Defers.place t s { k with truncated := s :: k.truncated } (some s) .plain
    exact ⟨hplaced.made, hplaced.pending⟩
  | succ depth ih => exact defers_dispatch hg hs (fun c _ hc k => ih hc k) k

/-- What is pending lands on `s` or a part of it only where a value has been refused further inside. -/
def Stray (t : SyntaxTree) (s : NodeId) (k : Sketch) : Prop :=
  ∀ e ∈ k.pending, e.lands t (some s) = false ∨
    ∃ l, k.label e.source = some l ∧ Refusal t (t.Inside · s) l

namespace Stray

theorem of_held (h : Held t s k) : Stray t s k := fun e he => .inl (h e he)

/-- What is still pending was so before. -/
theorem keep (h : Stray t s k) (hmade : k.made <+: k1.made) (hpending : ∀ e ∈ k1.pending, e ∈ k.pending) :
    Stray t s k1 := fun e he => (h e (hpending e he)).imp_right fun ⟨l, hl, hr⟩ =>
  ⟨l, (label_of_made hmade (lt_size_of_label hl)).trans hl, hr⟩

theorem place (h : Stray t s k) (el : Option NodeId) (kind : InstructionKind) : Stray t s (k.place t el kind) :=
  h.keep (prefix_place k el kind) fun e he => ((mem_pending_place k t el kind e).1 he).1

theorem pended (h : Stray t s k) (l : List InstructionId) : Stray t s (k.pended (some s) l) := by
  intro e he
  rcases (mem_pending_pended k e (some s) l).1 he with he | ⟨hscope, -⟩
  · exact h e he
  · exact .inl (stays_iff.2 fun sc hsc => Option.some.inj (hscope.symm.trans hsc) ▸ t.below_refl s)

theorem visit (hg : t.Grammatical) (depth : Nat) (h : Stray t s k) (hc : t.Inside c s)
    (hquiet : (t.kind c).isQuiet = true) : Stray t s (visit t depth c k) := by
  have hd := defers_visit hg depth hquiet k
  intro e he
  rcases hd.pending e he with hold | ⟨l, hl, hr⟩
  · refine (h e hold).imp_right fun ⟨l, hl, hr⟩ => ⟨l, ?_, hr⟩
    exact (label_of_made hd.made (lt_size_of_label hl)).trans hl
  · exact .inr ⟨l, hl, hr.mono fun _ hm => hg.ordered.inside_of_below_inside hm hc⟩

/-- Flow arrives at a part from the cursor, or from where a value has been refused. -/
theorem arrival (ho : t.Ordered) (h : Stray t s k) (hc : t.Below c s) {a : InstructionId}
    (ha : a ∈ k.arrivals t (some c)) :
    k.cursor = some a ∨ ∃ l, k.label a = some l ∧ Refusal t (t.Inside · s) l := by
  refine ((mem_arrivals k t (some c) a).1 ha).imp_right ?_
  rintro ⟨e, he, hlands, rfl⟩
  refine (h e he).resolve_left fun hstays => ?_
  obtain ⟨sc, hsc, hb⟩ := lands_iff.1 hlands
  exact hb (ho.below_trans hc (stays_iff.1 hstays sc hsc))

end Stray

/-- What lands on a node has landed on the first of two instructions for it. -/
theorem arrival_again {kind : InstructionKind} {o : Option InstructionId} {a : InstructionId}
    (ha : a ∈ ((k.place t (some c) kind).moved o).arrivals t (some c)) : o = some a := by
  rcases (mem_arrivals _ t (some c) a).1 ha with ha | ⟨e, he, hlands, -⟩
  · exact ha
  · have hstays := ((mem_pending_place k t (some c) kind e).1 he).2
    rw [hlands] at hstays
    cases hstays

namespace Forks
variable {depth : Nat} {H : NodeId → Option InstructionId} {R : List NodeId}
  (hg : t.Grammatical) (hk : Clear t s k0)
include hg hk

/-- A filter. What has been made for its outcomes is entered from where its condition came out. -/
theorem filter {clause : NodeId} (hclause : clause ∈ t.comprehensionIfs s)
    (hnone : ∀ c, t.condition clause = some c → H c = none) (hx : k.cursor = some x) (hstray : Stray t s k)
    (h : Forks t depth s (Refusal t (t.Inside · s)) k0 H ((t.condition clause).toList ++ R) k) :
    ∃ y H', (filterClause t (visit t depth) s clause k).cursor = some y ∧
      Stray t s (filterClause t (visit t depth) s clause k) ∧
      Forks t depth s (Refusal t (t.Inside · s)) k0 H' R (filterClause t (visit t depth) s clause k) ∧
      ∀ c, t.condition clause ≠ some c → H' c = H c := by
  have hr := ready depth hg hk
  unfold filterClause
  cases hc : t.condition clause with
  | none =>
    rw [hc] at h
    exact ⟨x, H, hx, hstray, h, fun _ _ => rfl⟩
  | some c =>
    rw [hc] at h
    obtain ⟨hd, -, hterm⟩ := filter_condition hg hclause hc
    have hquiet := SyntaxTree.is_quiet_of_term hterm
    have hsite : ∀ kind, Site t s (t.followed s) c kind := fun kind =>
      site_planned hr _ h.course.head_mem (SyntaxTree.not_statement_of_quiet hquiet)
    obtain ⟨y, hy, -⟩ := steady_visit hg depth c hquiet k (h.course.freshness hr c List.mem_cons_self) x hx
    have hasked := h.visited (c := c) hg hk
    have hasked_stray := hstray.visit hg depth hd.1 hquiet
    have hylt := hasked.course.cursor_lt hr y hy
    have hH : ∀ c', some c = some c' → Function.update H c (some y) c' = some y := fun c' hc' => by
      rw [← Option.some.inj hc', Function.update_self]
    have hkept := (hasked.learn (hnone c hc) y).choose hg hk (hsite (.conditional (some c) true)) hy hH
      fun a ha => (hasked_stray.arrival hg.ordered hd.1.1 ha).imp
        (fun h => Option.some.inj (h.symm.trans hy)) fun h => ⟨rfl, h⟩
    have hback := hkept.moved (x := (visit t depth c k).cursor) fun z hz => by
      rw [Option.some.inj (hz.symm.trans hy), size_place]
      exact Nat.lt_succ_of_lt hylt
    have hrefused := hback.choose hg hk (k := Sketch.moved _ _) (hsite (.conditional (some c) false)) hy hH
      fun a ha => .inl (Option.some.inj ((arrival_again ha).symm.trans hy))
    have hleft := hrefused.pended (hrefused.course.above_rest hr) (next_list_lt t _ (some c) _)
    refine ⟨_, _, rfl, ?_, hleft.moved fun z hz => ?_, fun c' hc' => ?_⟩
    · have hboth := (hasked_stray.place (some c) (.conditional (some c) true)).place (some c)
        (.conditional (some c) false)
      exact hboth.pended _
    · obtain rfl := Option.some.inj hz
      rw [size_pended, size_place, size_moved]
      exact Nat.lt_succ_of_lt (next_lt_place t (visit t depth c k) (some c) (.conditional (some c) true))
    · exact Function.update_of_ne (fun heq => hc' (congrArg some heq.symm)) _ _

/-- The filters of a comprehension, by induction on those that are left. -/
theorem filters (clauses : List NodeId) (hclauses : ∀ c ∈ clauses, c ∈ t.comprehensionIfs s)
    (hnodup : clauses.Nodup) (hnone : ∀ d ∈ clauses, ∀ c, t.condition d = some c → H c = none)
    (hx : k.cursor = some x) (hstray : Stray t s k)
    (h : Forks t depth s (Refusal t (t.Inside · s)) k0 H
      (clauses.flatMap (fun c => (t.condition c).toList) ++ R) k) :
    ∃ H', Forks t depth s (Refusal t (t.Inside · s)) k0 H' R
      (Sketch.each (filterClause t (visit t depth) s) clauses k) := by
  induction clauses generalizing k H x with
  | nil => exact ⟨H, h⟩
  | cons d clauses ih =>
    obtain ⟨hne, hrest⟩ := List.nodup_cons.1 hnodup
    rw [List.flatMap_cons, List.append_assoc] at h
    obtain ⟨y, H', hy, hstray', hdone, hother⟩ := h.filter hg hk (hclauses d List.mem_cons_self)
      (hnone d List.mem_cons_self) hx hstray
    refine ih (fun e he => hclauses e (List.mem_cons_of_mem d he)) hrest (fun e he c hc => ?_) hy hstray' hdone
    rw [hother c fun hdc => hne (clause_of_condition hg.ordered hc hdc ▸ he)]
    exact hnone e (List.mem_cons_of_mem d he) c hc

theorem forClauses (clauses : List NodeId) {P : Label → Prop}
    (h : Forks t depth s P k0 H (clauses.flatMap t.followedInClause ++ R) k) :
    Forks t depth s P k0 H R (Sketch.each (forClause t (visit t depth)) clauses k) := by
  induction clauses generalizing k with
  | nil => exact h
  | cons d clauses ih =>
    rw [List.flatMap_cons, SyntaxTree.followedInClause, List.append_assoc, List.append_assoc] at h
    exact ih ((h.each hg hk).each hg hk)

theorem comprehension (h : Forks t depth s (Refusal t (t.Inside · s)) k0 (fun _ => none)
      ((t.comprehensionIfs s).flatMap (fun c => (t.condition c).toList) ++
        ((t.comprehensionFors s).flatMap t.followedInClause ++ (t.comprehensionResult s).toList)) k0) :
    ∃ H, Forks t depth s (Refusal t (t.Inside · s)) k0 H []
      (Sketch.comprehension t (visit t depth) s k0) := by
  have hnodup : (t.comprehensionIfs s).Nodup := (hg.ordered.children_nodup s).filter _
  obtain ⟨H, hfiltered⟩ := h.started.filters hg hk (t.comprehensionIfs s) (fun _ hc => hc) hnodup
    (fun _ _ _ _ => rfl) rfl (.of_held (held_start k0 .plain))
  have hfors := hfiltered.forClauses hg hk
  refine ⟨H, Forks.each (R := []) hg hk ?_⟩
  rwa [List.append_nil]

end Forks

theorem filtered_visit (hg : t.Grammatical) (depth : Nat) (hs : t.kind s = .comprehension)
    (hk : Clear t s k0) :
    ∃ H, Forked t s (Refusal t (t.Inside · s)) k0 H (visit t (depth + 1) s k0) := by
  have h := Forks.start t depth s (Refusal t (t.Inside · s)) k0 fun _ => none
  unfold SyntaxTree.followed at h
  rw [hs] at h
  rw [visit, dispatch, hs]
  obtain ⟨H, h⟩ := h.comprehension hg hk
  exact ⟨H, h.forked⟩

end Sketch

namespace SyntaxTree.Filters
variable {t : SyntaxTree} (hg : t.Grammatical) {m x : NodeId} (h : t.Filters m x)
include hg h

theorem is_term : (t.kind x).isTerm = true := by
  obtain ⟨-, clause, hclause, hx⟩ := h
  exact (Sketch.filter_condition hg hclause hx).2.2

theorem near : Sketch.Near t m x where
  part := by
    obtain ⟨hm, clause, hclause, hx⟩ := h
    right
    rw [followed, hm]
    exact List.mem_append_left _ (List.mem_flatMap.2 ⟨clause, hclause, Option.mem_toList.2 hx⟩)
  plain := (Sketch.open_of_plain (not_statement_of_quiet (is_quiet_of_term (h.is_term hg)))).1

theorem inside : t.Inside x m := by
  obtain ⟨-, clause, hclause, hx⟩ := h
  exact (Sketch.filter_condition hg hclause hx).1.1

end SyntaxTree.Filters

/-- In a comprehension the entry of the refused outcome of a filter is entered from one instruction, and
that of the kept outcome from the same one, and else only from where a filter of a comprehension further
inside has refused a value. -/
theorem filter_outcomes_entered (source : String) (root : Concrete) (c : Config)
    {cancel : Option Bool} (hc : cancel ≠ some true) {owner : NodeId}
    (ho : owner ∈ (Lowering.tree source root).owners) :
    ∃ f, (buildOwner (Lowering.tree source root) c cancel owner).outcome = .ok f ∧
      ∀ m x b b', (Lowering.tree source root).Filters m x →
        (f.graph.instruction b).element = some x → (f.graph.instruction b').element = some x →
        (f.graph.instruction b).kind = .conditional (some x) true →
        (f.graph.instruction b').kind = .conditional (some x) false →
          ∃ p, f.graph.predecessors b' = [p] ∧ p ∈ f.graph.predecessors b ∧
            ∀ a ∈ f.graph.predecessors b, a ≠ p → ∃ m' x', (Lowering.tree source root).Inside m' m ∧
              (Lowering.tree source root).Filters m' x' ∧ (f.graph.instruction a).element = some x' ∧
                (f.graph.instruction a).kind = .conditional (some x') false := by
  have hg := Lowering.tree_grammatical source root
  have howner : ((Lowering.tree source root).kind owner).isOwner = true := (List.mem_filter.1 ho).2
  obtain ⟨f, hf, hd, -⟩ := Sketch.build_describes hg.ordered c hc (SyntaxTree.lt_of_mem_owners ho)
  refine ⟨f, hf, fun m x b b' hfilter hel hel' hkind hkind' => ?_⟩
  have hnear := hfilter.near hg
  have hin := hfilter.inside hg
  have hm := hfilter.1
  obtain ⟨d, k0, hclear, hshows⟩ := hd.shows hg howner (T := m)
    (hnear.inside_owner hg howner (by rw [hm]; rfl) (hd.inside_of_chosen hg howner hel hkind))
    (by rw [hm]; rfl) hel hin hnear.plain
  obtain ⟨H, hH⟩ := Sketch.filtered_visit hg d hm hclear
  have hnew := hshows.new b x hel hin hnear.plain
  have hnew' := hshows.new b' x hel' hin hnear.plain
  obtain ⟨p, hp, hpb, hall⟩ := hH b x _ _ hnew (by rw [hshows.label hnew.2, hel, hkind]) hnear
  obtain ⟨p', hp', hpb', hall'⟩ := hH b' x _ _ hnew' (by rw [hshows.label hnew'.2, hel', hkind']) hnear
  obtain rfl := Option.some.inj ((hp x rfl).symm.trans (hp' x rfl))
  have hedge := hshows.edge b x hel hin hnear.plain
  have hedge' := hshows.edge b' x hel' hin hnear.plain
  refine ⟨p, hd.predecessors_one fun a => ⟨fun hab => ?_, ?_⟩, ?_, fun a ha hne => ?_⟩
  · exact (hall' a ((hedge' a).1 hab)).resolve_right fun ⟨hfalse, _⟩ => by cases hfalse
  · rintro rfl
    exact (hedge' a).2 hpb'
  · exact hd.mem_predecessors.2 ((hedge p).2 hpb)
  · have hab := (hedge a).1 (hd.mem_predecessors.1 ha)
    obtain ⟨-, l, hl, m', x', hm', hx', rfl⟩ := (hall a hab).resolve_left hne
    have hlabel := hshows.label (Sketch.lt_size_of_label hl)
    rw [hl, Option.some.injEq, Prod.mk.injEq] at hlabel
    exact ⟨m', x', hm', hx', hlabel.1.symm, hlabel.2.symm⟩

/-- The concrete tree of `[x for y in z if f([x for y in z if w])]`, without its positions and the name of
the function. -/
def filterInFilter : Concrete :=
  let comprehension (condition : Concrete) : Concrete :=
    .node "list_comprehension" true none default
      [.node "identifier" true (some "body") default [],
        .node "for_in_clause" true none default
          [.node "identifier" true (some "left") default [],
            .node "identifier" true (some "right") default []],
        .node "if_clause" true none default [condition]]
  .node "module" true none default
    [.node "expression_statement" true none default
      [comprehension (.node "call" true none default
        [comprehension (.node "identifier" true none default [])])]]

/-- A value that the inner filter refuses gets to the kept outcome of the outer one only. -/
theorem filter_in_filter_entered :
    ∃ f, (buildOwner (Lowering.tree "" filterInFilter) .standard none ⟨0⟩).outcome = .ok f ∧
      (f.graph.predecessors ⟨7⟩ = [⟨6⟩, ⟨5⟩] ∧ f.graph.predecessors ⟨8⟩ = [⟨6⟩]) ∧
      ∃ m' x', (Lowering.tree "" filterInFilter).Inside m' ⟨2⟩ ∧
        (Lowering.tree "" filterInFilter).Filters m' x' ∧ (f.graph.instruction ⟨5⟩).element = some x' ∧
          (f.graph.instruction ⟨5⟩).kind = .conditional (some x') false := by
  have hc : (none : Option Bool) ≠ some true := by decide
  have ho : (⟨0⟩ : NodeId) ∈ (Lowering.tree "" filterInFilter).owners := by decide +kernel
  obtain ⟨f, hf, hentered⟩ := filter_outcomes_entered "" filterInFilter .standard hc ho
  have hfilter : (Lowering.tree "" filterInFilter).Filters ⟨2⟩ ⟨8⟩ :=
    ⟨by decide +kernel, ⟨7⟩, by decide +kernel, by decide +kernel⟩
  have hrun : (buildOwner (Lowering.tree "" filterInFilter) .standard none ⟨0⟩).outcome.map
      (fun f => ([7, 8].map fun i => ((f.graph.instruction ⟨i⟩).element, (f.graph.instruction ⟨i⟩).kind),
        [7, 8].map fun i => f.graph.predecessors ⟨i⟩)) =
      .ok ([(some ⟨8⟩, .conditional (some ⟨8⟩) true), (some ⟨8⟩, .conditional (some ⟨8⟩) false)],
        [[⟨6⟩, ⟨5⟩], [⟨6⟩]]) := by
    decide +kernel
  rw [hf] at hrun
  have hmade := Except.ok.inj hrun
  simp only [List.map_cons, List.map_nil, List.cons.injEq, Prod.mk.injEq, and_true] at hmade
  obtain ⟨⟨⟨hel, hkind⟩, hel', hkind'⟩, hpreds, hpreds'⟩ := hmade
  obtain ⟨p, hp, -, hothers⟩ := hentered ⟨2⟩ ⟨8⟩ ⟨7⟩ ⟨8⟩ hfilter hel hel' hkind hkind'
  have hsix : [⟨6⟩] = [p] := hpreds'.symm.trans hp
  obtain rfl := List.singleton_inj.1 hsix
  exact ⟨f, hf, ⟨hpreds, hpreds'⟩, hothers ⟨5⟩ (by rw [hpreds]; decide) (by decide)⟩

end PythonFlow
