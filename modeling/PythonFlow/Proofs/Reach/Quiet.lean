import PythonFlow.Proofs.Reach.Basic
import PythonFlow.Proofs.Trace.Reads

/-!
# Visits of terms

A visit of a node below which there is no statement never loses the cursor: where flow stands before
it, flow stands after it, and a walk that reads nothing leads from the one to the other.
-/

set_option autoImplicit false

namespace PythonFlow.Sketch
variable {t : SyntaxTree} {s : NodeId} {V : Visitor} {k k1 k2 : Sketch}

def Forwards (t : SyntaxTree) (k k' : Sketch) : Prop :=
  ∀ x, k.cursor = some x → ∃ y, k'.cursor = some y ∧ Reads t k' x [] y

def Steady (t : SyntaxTree) (V : Visitor) (s : NodeId) : Prop :=
  ∀ k, Fresh t s k → Forwards t k (V s k)

theorem Reads.walk {x y : InstructionId} {w : List NodeId} (h : Reads t k x w y) : k.Walk x y := by
  induction h with
  | here x => exact walk_refl k x
  | step h _ _ ih => exact Relation.ReflTransGen.head h ih

theorem not_simple_of_quiet {kind : SyntaxKind} (h : kind.isQuiet = true) :
    kind.isSimple = false := by
  revert h
  cases kind <;> simp [SyntaxKind.isQuiet, SyntaxKind.isSimple]

theorem forwards_refl (t : SyntaxTree) (k : Sketch) : Forwards t k k :=
  fun x hx => ⟨x, hx, .here x⟩

theorem Forwards.trans (h : Forwards t k k1) (h' : Forwards t k1 k2) (hle : Later k1 k2) :
    Forwards t k k2 := by
  intro x hx
  obtain ⟨y, hy, hread⟩ := h x hx
  obtain ⟨z, hz, hread'⟩ := h' y hy
  exact ⟨z, hz, (hread.later hle).trans hread'⟩

theorem forwards_place (k : Sketch) {el : NodeId} (hel : (t.kind el).isSimple = false)
    (kind : InstructionKind) : Forwards t k (k.place t (some el) kind) := by
  intro x hx
  have hread : Reads t (k.place t (some el) kind) x (mark t el) k.next :=
    reads_place (mem_arrivals_of_cursor (some el) hx)
  rw [mark_other hel] at hread
  exact ⟨k.next, rfl, hread⟩

theorem forwards_joined {c : NodeId} (hc : (t.kind c).isSimple = false) :
    Forwards t k (joined t c k) := by
  unfold joined
  split
  · exact fun x hx => ⟨x, hx, .here x⟩
  · intro x hx
    obtain ⟨y, hy, hread⟩ := forwards_place (k.drained t c) hc .plain x hx
    exact ⟨y, hy, hread.later ((Later.refl _).linked _ _)⟩

section each
variable (hg : t.Grammatical) {cs : List NodeId} (hV : ∀ c ∈ cs, Grows t V c)
  (hsteady : ∀ c ∈ cs, Steady t V c)
include hg hV hsteady

theorem forwards_each (hapart : cs.Pairwise (Apart t)) (hfresh : ∀ c ∈ cs, Fresh t c k) :
    Forwards t k (each V cs k) :=
  each_keeps hg.ordered hV hapart hfresh (P := Forwards t k) (forwards_refl t k) fun c hc k' hk' hf =>
    hk'.trans (hsteady c hc k' hf) (hV c hc k' hf).later

end each

section rules
variable (hg : t.Grammatical) (hV : ∀ c, t.Inside c s → Grows t V c)
  (hsteady : ∀ c ∈ t.children s, Steady t V c)
include hg hV hsteady

theorem forwards_children (hf : Fresh t s k) : Forwards t k (each V (t.children s) k) :=
  forwards_each hg (fun c hc => hV c (inside_of_mem hg.ordered hc)) hsteady
    (apart_children hg.ordered (hg.ordered.children_nodup s) fun _ hc => hc)
    fun _ hc => fresh_below hg.ordered hf (inside_of_mem hg.ordered hc).1

theorem forwards_binding (hquiet : (t.kind s).isQuiet = true) (hf : Fresh t s k) : Forwards t k (binding t V s k) := by
  unfold binding
  cases t.name s with
  | none => exact forwards_children hg hV hsteady hf
  | some name => exact forwards_place k (not_simple_of_quiet hquiet) _

end rules

section comprehension
variable (hg : t.Grammatical) (hk : t.kind s = .comprehension)
  (hV : ∀ c, t.Inside c s → Grows t V c)
  (hsteady : ∀ c, t.Inside c s → (t.kind c).isQuiet = true → Steady t V c)
include hg hV hsteady

omit hV in
theorem forwards_filter {clause : NodeId} (hclause : clause ∈ t.comprehensionIfs s)
    (hf : Fresh t clause k) : Forwards t k (filterClause t V s clause k) := by
  unfold filterClause
  cases hc : t.condition clause with
  | none => exact forwards_refl t k
  | some c =>
    obtain ⟨hd, hin, hterm⟩ := filter_condition hg hclause hc
    have hfc := fresh_below hg.ordered hf hin.1
    have hquiet := SyntaxTree.is_quiet_of_term hterm
    have hkept := forwards_place (V c k) (not_simple_of_quiet hquiet) (.conditional (some c) true)
    intro x hx
    obtain ⟨y, hy, hw⟩ := (hsteady c hd.1 hquiet k hfc).trans hkept
      ((Later.refl _).place (some c) _) x hx
    exact ⟨y, hy, hw.later (((((Later.refl _).moved _).place _ _).pended _ _).moved _)⟩

omit hsteady in
theorem later_filter {clause : NodeId} (hclause : clause ∈ t.comprehensionIfs s)
    (hf : Fresh t clause k) : Later k (filterClause t V s clause k) := by
  unfold filterClause
  cases hc : t.condition clause with
  | none => exact .refl k
  | some c =>
    obtain ⟨hd, hin, -⟩ := filter_condition hg hclause hc
    have hv := hV c hd.1 k (fresh_below hg.ordered hf hin.1)
    exact ((((hv.later.place _ _).moved _).place _ _).pended _ _).moved _

theorem steady_for_clause {clause : NodeId} (hclause : clause ∈ t.comprehensionFors s) :
    Steady t (forClause t V) clause := by
  intro k hf
  obtain ⟨hmem, hkind⟩ := SyntaxTree.mem_comprehension_fors.1 hclause
  have hin : ∀ c ∈ t.children clause, t.Inside c s := fun c hc =>
    hg.ordered.inside_of_inside_below (inside_of_mem hg.ordered hc)
      (inside_of_mem hg.ordered hmem).1
  have hchild : ∀ c ∈ (t.iterable clause).toList ++ t.targets clause, c ∈ t.children clause := by
    intro c hc
    rcases List.mem_append.1 hc with hc | hc
    · exact (mem_iterable_list hc).1
    · exact (SyntaxTree.mem_targets.1 hc).1
  unfold forClause
  rw [← each_append]
  refine forwards_each hg (fun c hc => hV c (hin c (hchild c hc))) (fun c hc => ?_)
    (apart_children hg.ordered (nodup_for_clause hg.ordered clause) hchild)
    fun c hc => fresh_below hg.ordered hf (inside_of_mem hg.ordered (hchild c hc)).1
  exact hsteady c (hin c (hchild c hc)) (hg.quiet_child (by rw [hkind]; rfl) (hchild c hc))

include hk

theorem forwards_comprehension (hs : Fresh t s k) : Forwards t k (comprehension t V s k) := by
  have hquiet : (t.kind s).isQuiet = true := by rw [hk]; rfl
  obtain ⟨hfiltered, -⟩ := filters_keeps hg hV
    (M := fun k' => Forwards t k k' ∧ Later k k')
    (fun c k' hc hf ⟨h, hle⟩ => ⟨h.trans (forwards_filter hg hsteady hc hf)
      (later_filter hg hV hc hf), hle.trans (later_filter hg hV hc hf)⟩)
    (fun _ h => h) ((hg.ordered.children_nodup s).filter _)
    (fun _ hc => fresh_child hg.ordered hs (SyntaxTree.mem_comprehension_ifs.1 hc).1)
    ⟨forwards_place k (not_simple_of_quiet hquiet) _, (Later.refl k).place _ _⟩
  have hfors := forwards_each hg (fun _ hc => grows_for_clause hg hV hc)
    (fun _ hc => steady_for_clause hg hV hsteady hc) (apart_for_clauses hg)
    fun _ hc => fresh_for_clause hg hV hs hc
  have hle : Later (filtered t V s k)
      (each (forClause t V) (t.comprehensionFors s) (filtered t V s k)) :=
    each_keeps hg.ordered (fun _ hc => grows_for_clause hg hV hc) (apart_for_clauses hg)
      (fun _ hc => fresh_for_clause hg hV hs hc) (P := Later (filtered t V s k)) (.refl _)
      fun c hc k' hk' hf => hk'.trans (grows_for_clause hg hV hc k' hf).later
  have hmem : ∀ c ∈ (t.comprehensionResult s).toList, c ∈ t.children s := fun c hc =>
    (SyntaxTree.mem_result (Option.mem_toList.1 hc)).1
  have hresult := forwards_each hg
    (fun c hc => hV c (inside_of_mem hg.ordered (hmem c hc)))
    (fun c hc => hsteady c (inside_of_mem hg.ordered (hmem c hc))
      (hg.quiet_child hquiet (hmem c hc)))
    (apart_children hg.ordered (nodup_option _) hmem) fun _ hc => fresh_result hg hk hV hs hc
  have hle' := later_each hg hV (nodup_option (t.comprehensionResult s)) hmem
    fun _ hc => fresh_result hg hk hV hs hc
  exact (hfiltered.trans hfors hle).trans hresult hle'

end comprehension

theorem steady_dispatch (hg : t.Grammatical) (hV : ∀ c, t.Inside c s → Grows t V c)
    (hsteady : ∀ c, t.Inside c s → (t.kind c).isQuiet = true → Steady t V c)
    (hquiet : (t.kind s).isQuiet = true) : Steady t (dispatch t V) s := by
  intro k hf
  have hsilent := hquiet
  have hchildren : ∀ c ∈ t.children s, Steady t V c := fun c hc =>
    hsteady c (inside_of_mem hg.ordered hc) (hg.quiet_child hquiet hc)
  unfold dispatch
  cases hk : t.kind s <;> rw [hk] at hquiet <;> first
    | exact absurd hquiet (by decide)
    | exact forwards_refl t k
    | exact forwards_binding hg hV hchildren hsilent hf
    | exact forwards_comprehension hg hk hV hsteady hf
    | exact forwards_children hg hV hchildren hf

theorem steady_visit (hg : t.Grammatical) (depth : Nat) (s : NodeId)
    (hquiet : (t.kind s).isQuiet = true) : Steady t (visit t depth) s := by
  induction depth generalizing s with
  | zero =>
    exact fun k _ => forwards_place { k with truncated := s :: k.truncated }
      (not_simple_of_quiet hquiet) _
  | succ depth ih =>
    exact steady_dispatch hg (fun c _ => grows_visit hg depth c) (fun c _ hc => ih c hc) hquiet

end PythonFlow.Sketch
