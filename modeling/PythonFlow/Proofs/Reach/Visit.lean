import PythonFlow.Proofs.Reach.Tries

/-!
# Every instruction of a visit stays alive

A filter of a comprehension sets its true outcome aside while it makes the false one, and then goes
back to it. A visit keeps its instructions alive because every rule does, by induction on the depth
that is left; what is too deep is one instruction, at which flow stands.
-/

set_option autoImplicit false

namespace PythonFlow.Sketch
variable {t : SyntaxTree} {s : NodeId} {V : Visitor} {k k0 : Sketch} {n : Nat}
  {P : InstructionId → Prop}

theorem Below.inside (hg : t.Grammatical) (hB : Below t V s) {c : NodeId} (hc : t.Inside c s) :
    Below t V c where
  grows := fun d hd => hB.grows d (hg.ordered.inside_of_inside_below hd hc.1)
  steady := fun d hd => hB.steady d (hg.ordered.inside_of_inside_below hd hc.1)
  reaches := fun d hd => hB.reaches d (hg.ordered.inside_of_inside_below hd hc.1)

section comprehension
variable (hg : t.Grammatical) (hB : Below t V s)
include hg hB

theorem alive_filter {clause : NodeId} (hclause : clause ∈ t.comprehensionIfs s)
    (hf : Fresh t clause k) (hn : n ≤ k.size) (h : Alive n k P) :
    Alive n (filterClause t V s clause k) P := by
  unfold filterClause
  cases hc : t.condition clause with
  | none => exact h
  | some c =>
    obtain ⟨hd, hin, hterm⟩ := filter_condition hg hclause hc
    have hfc := fresh_below hg.ordered hf hin.1
    have hle := (hB.grows c hd.1 k hfc).later
    have hasked := alive_quiet hg hB hd.1 (SyntaxTree.is_quiet_of_term hterm) hfc hn h
    have hkept := alive_place hasked (Nat.le_trans hn hle.size_le) (t := t) (some c)
      (.conditional (some c) true)
    -- Flow stands at the true outcome again in the end.
    have haside : Alive n (((V c k).place t (some c) (.conditional (some c) true)).moved
        (V c k).cursor) fun y => P y ∨ y = (V c k).next :=
      alive_moved (hkept.weaken fun y hy => .inl hy) fun x _ hx =>
        lives_of_mem (.inr (Option.some.inj hx).symm)
    have hrefused := alive_place haside
      (by rw [size_moved, size_place]; exact Nat.le_succ_of_le (Nat.le_trans hn hle.size_le))
      (t := t) (some c) (.conditional (some c) false)
    refine Alive.discharge (alive_parked (alive_pended hrefused (some s) _) (parked_pended
      (fun x hx => List.mem_singleton.2 (Option.some.inj hx).symm) _) _) ?_
    rintro y (hy | rfl)
    · exact lives_of_mem hy
    · exact lives_of_loose (Nat.le_trans hn hle.size_le) (.inl rfl)

theorem alive_for_clause {clause : NodeId} (hclause : clause ∈ t.comprehensionFors s)
    (hf : Fresh t clause k) (hn : n ≤ k.size) (h : Alive n k P) :
    Alive n (forClause t V clause k) P := by
  obtain ⟨hmem, hkind⟩ := SyntaxTree.mem_comprehension_fors.1 hclause
  have hchild : ∀ c ∈ (t.iterable clause).toList ++ t.targets clause, c ∈ t.children clause := by
    intro c hc
    rcases List.mem_append.1 hc with hc | hc
    · exact (mem_iterable_list hc).1
    · exact (SyntaxTree.mem_targets.1 hc).1
  unfold forClause
  rw [← each_append]
  exact alive_each_quiet hg (hB.inside hg (inside_of_mem hg.ordered hmem))
    (nodup_for_clause hg.ordered clause) hchild
    (fun c hc => hg.quiet_child (by rw [hkind]; rfl) (hchild c hc))
    (fun c hc => fresh_below hg.ordered hf (inside_of_mem hg.ordered (hchild c hc)).1) hn h

theorem alive_filtered (hs : Fresh t s k0) : Alive k0.size (filtered t V s k0) P := by
  obtain ⟨-, halive⟩ := filters_keeps hg hB.grows
    (M := fun k => k0.size ≤ k.size ∧ Alive k0.size k P)
    (fun c k hc hf ⟨hn, h⟩ => ⟨Nat.le_trans hn (later_filter hg hB.grows hc hf).size_le,
      alive_filter hg hB hc hf hn h⟩) (fun _ h => h) ((hg.ordered.children_nodup s).filter _)
    (fun _ hc => fresh_child hg.ordered hs (SyntaxTree.mem_comprehension_ifs.1 hc).1)
    ⟨by rw [start, size_place]; exact Nat.le_succ _,
      alive_place (alive_start k0 P) (Nat.le_refl _) _ _⟩
  exact halive

theorem alive_comprehension (hk : t.kind s = .comprehension) (hs : Fresh t s k0) :
    Alive k0.size (comprehension t V s k0) P := by
  have hfiltered := (grown_filtered hg hk hB.grows hs).later.size_le
  obtain ⟨hn, hfors⟩ := each_keeps hg.ordered (fun _ hc => grows_for_clause hg hB.grows hc)
    (apart_for_clauses hg) (fun _ hc => fresh_for_clause hg hB.grows hs hc)
    (P := fun k => k0.size ≤ k.size ∧ Alive k0.size k P) ⟨hfiltered, alive_filtered hg hB hs⟩
    fun c hc k ⟨hn, h⟩ hf => ⟨Nat.le_trans hn (grows_for_clause hg hB.grows hc k hf).later.size_le,
      alive_for_clause hg hB hc hf hn h⟩
  have hmem : ∀ c ∈ (t.comprehensionResult s).toList, c ∈ t.children s := fun c hc =>
    (SyntaxTree.mem_result (Option.mem_toList.1 hc)).1
  exact alive_each_quiet hg hB (nodup_option _) hmem
    (fun c hc => hg.quiet_child (by rw [hk]; rfl) (hmem c hc))
    (fun _ hc => fresh_result hg hk hB.grows hs hc) hn hfors

end comprehension

theorem alive_definition (s : NodeId) (k : Sketch) (P : InstructionId → Prop) :
    Alive k.size (definition t s k) P := by
  unfold definition
  split <;> exact alive_place (alive_start k P) (Nat.le_refl _) _ _

theorem reaches_dispatch (hg : t.Grammatical) (hB : Below t V s) : Reaches t (dispatch t V) s := by
  intro k P hf hp
  unfold dispatch
  have hall := hg.ordered.children_nodup s
  cases hk : t.kind s
  case functionDef | classDef => exact alive_definition s k P
  case lambda => exact alive_start k P
  case statement | importStatement =>
    exact alive_sequence hg hB hf hp (by rw [hk]; rfl) (by simp [hk]) hall fun _ h => h
  case assignment =>
    exact alive_sequence hg hB hf hp (by rw [hk]; rfl) (by simp [hk])
      (nodup_assigned hg.ordered s) fun _ => mem_assigned
  case target | parameter | importBinding =>
    exact alive_binding hg hB hf hp (by rw [hk]; rfl) (by rw [hk]; rfl)
  case ifStatement => exact alive_conditional hg hB hf hp hk
  case whileLoop => exact alive_while hg hk hB hf hp
  case forLoop => exact alive_for hg hk hB hf hp
  case breakJump => exact alive_break P
  case continueJump => exact alive_continue hg hp hk
  case returnExit | raiseExit => exact alive_leaving hg hB hf hp (by rw [hk]; rfl) (by simp [hk])
  case tryStatement => exact alive_try hg hk hB hf hp
  case comprehension => exact alive_comprehension hg hB hk hf
  all_goals
    exact alive_children hg hB hf hp (by rw [hk]; rfl) hall (fun _ h => h)
      (open_of_plain (by rw [hk]; rfl))

theorem reaches_visit (hg : t.Grammatical) (depth : Nat) (s : NodeId) :
    Reaches t (visit t depth) s := by
  induction depth generalizing s with
  | zero =>
    intro k P _ _
    exact alive_place (k := { k with truncated := s :: k.truncated })
      (alive_start { k with truncated := s :: k.truncated } P) (Nat.le_refl _) _ _
  | succ depth ih =>
    exact reaches_dispatch hg ⟨fun c _ => grows_visit hg depth c, fun c _ => steady_visit hg depth c,
      fun c _ => ih c⟩

end PythonFlow.Sketch
