import PythonFlow.Proofs.Tree.Pushed
import PythonFlow.Proofs.Tree.Walks

/-!
# Trees grown under any parents

A push names its parent by an index, and the index is looked up when the new node is there already. It may
therefore be the index of the new node itself, and no larger one. Every node is the child of the parent that
its push named and of no other, and the way up from it ends unless it meets a node that was pushed under
itself.
-/

set_option autoImplicit false

namespace PythonFlow

structure PushCall where
  parent : NodeId
  kind : SyntaxKind
  role : Role
  span : Span
deriving DecidableEq, Repr

namespace SyntaxTree

/-- Pushes one node after the other, as far as the first that meets a fault. -/
def pushAll (t : SyntaxTree) : List PushCall → Except Fault SyntaxTree
  | [] => .ok t
  | call :: rest =>
    match t.push call.parent call.kind call.role call.span with
    | (_, .error e) => .error e
    | (t, .ok _) => t.pushAll rest

section push
variable {t : SyntaxTree} {p : NodeId} (k : SyntaxKind) (r : Role) (s : Span)

theorem push_ok (hp : p.index ≤ t.size) : (t.push p k r s).2 = .ok ⟨t.size⟩ := by
  have hlt : p.index < (⟨t.nodes.push (.fresh (some p) k r s)⟩ : SyntaxTree).size := by
    simp only [size, Array.size_push] at hp ⊢
    omega
  rw [push, (require_ok _ _).2 hlt]

theorem push_error (hp : t.size < p.index) :
    (t.push p k r s).2 = .error (.outOfRange (t.size + 1) p.index) := by
  have hsize : (⟨t.nodes.push (.fresh (some p) k r s)⟩ : SyntaxTree).size = t.size + 1 := by
    simp [size]
  have hout : (⟨t.nodes.push (.fresh (some p) k r s)⟩ : SyntaxTree).require p =
      .error (.outOfRange (t.size + 1) p.index) := by
    rw [require, if_neg (by omega), hsize]
  rw [push, hout]

end push

section pushAll
variable {t : SyntaxTree} {call : PushCall} (rest : List PushCall)

theorem push_all_cons (hp : call.parent.index ≤ t.size) :
    t.pushAll (call :: rest) = (t.push call.parent call.kind call.role call.span).1.pushAll rest := by
  have hok : t.push call.parent call.kind call.role call.span =
      ((t.push call.parent call.kind call.role call.span).1, .ok ⟨t.size⟩) :=
    Prod.ext rfl (push_ok call.kind call.role call.span hp)
  rw [pushAll, hok]

theorem push_all_fault (hp : t.size < call.parent.index) :
    t.pushAll (call :: rest) = .error (.outOfRange (t.size + 1) call.parent.index) := by
  have hfault : t.push call.parent call.kind call.role call.span =
      ((t.push call.parent call.kind call.role call.span).1,
        .error (.outOfRange (t.size + 1) call.parent.index)) :=
    Prod.ext rfl (push_error call.kind call.role call.span hp)
  rw [pushAll, hfault]

/-- The calls are accepted as long as each names a node that is there or the one it pushes. -/
theorem push_all_accepted {calls : List PushCall}
    (h : ∀ i call, calls[i]? = some call → call.parent.index ≤ t.size + i) :
    ∃ t', t.pushAll calls = .ok t' := by
  induction calls generalizing t with
  | nil => exact ⟨t, rfl⟩
  | cons call rest ih =>
    have hp : call.parent.index ≤ t.size := h 0 call rfl
    rw [push_all_cons rest hp]
    refine ih fun i c hc => ?_
    have hle := h (i + 1) c hc
    rw [size_push]
    omega

end pushAll

/-- Every node but the first is one that a call pushed, and the links of the tree are those the calls named. -/
structure Grown (t : SyntaxTree) (calls : List PushCall) : Prop where
  size_eq : t.size = calls.length + 1
  root_parent : t.parent root = none
  parent_eq : ∀ i, t.parent ⟨i + 1⟩ = calls[i]?.map PushCall.parent
  children_eq : ∀ q, t.children q = t.ids.filter fun c => t.parent c = some q
  bounded : ∀ i call, calls[i]? = some call → call.parent.index ≤ i + 1

theorem node_singleton (kind : SyntaxKind) (span : Span) (i : Nat) :
    (singleton kind span).node ⟨i + 1⟩ = .blank :=
  @node_of_size_le (singleton kind span) ⟨i + 1⟩ (Nat.le_add_left 1 i)

theorem grown_singleton (kind : SyntaxKind) (span : Span) : (singleton kind span).Grown [] where
  size_eq := rfl
  root_parent := rfl
  parent_eq i := by
    rw [parent, node_singleton kind span i]
    rfl
  children_eq q := by
    have hnone : (singleton kind span).children q = [] := by
      cases q with
      | mk index =>
        cases index with
        | zero => rfl
        | succ i =>
          rw [children, node_singleton kind span i]
          rfl
    rw [hnone]
    rfl
  bounded i call h := by cases h

theorem ids_push (t : SyntaxTree) (p : NodeId) (k : SyntaxKind) (r : Role) (s : Span) :
    (t.push p k r s).1.ids = t.ids ++ [⟨t.size⟩] := by
  rw [ids, size_push, List.range_succ, List.map_append]
  rfl

namespace Grown
variable {t : SyntaxTree} {before : List PushCall} (hg : t.Grown before)
include hg

section step
variable {call : PushCall} (hp : call.parent.index ≤ t.size)
include hp

theorem parent_eq_push (i : Nat) :
    (t.push call.parent call.kind call.role call.span).1.parent ⟨i + 1⟩ =
      (before ++ [call])[i]?.map PushCall.parent := by
  rw [parent_push hp, hg.size_eq, hg.parent_eq]
  rcases Nat.lt_trichotomy i before.length with hi | rfl | hi
  · rw [if_neg (by simp; omega), List.getElem?_append_left hi]
  · simp
  · rw [if_neg (by simp; omega), List.getElem?_eq_none (by omega),
      List.getElem?_eq_none (by simp; omega)]

/-- The new node stands last among the children of its parent, as it does among all nodes. -/
theorem children_eq_push (q : NodeId) :
    (t.push call.parent call.kind call.role call.span).1.children q =
      (t.push call.parent call.kind call.role call.span).1.ids.filter fun c =>
        (t.push call.parent call.kind call.role call.span).1.parent c = some q := by
  have hparent := parent_push hp call.kind call.role call.span
  have hold : (t.ids.filter fun c =>
      (t.push call.parent call.kind call.role call.span).1.parent c = some q) = t.children q := by
    rw [hg.children_eq]
    refine List.filter_congr fun c hc => ?_
    rw [hparent, if_neg (Nat.ne_of_lt (mem_ids.1 hc))]
  rw [children_push hp, ids_push, List.filter_append, hold, List.filter_singleton, hparent, if_pos rfl]
  by_cases hq : q = call.parent
  · simp [hq]
  · simp [hq, Ne.symm hq]

theorem bounded_push {i : Nat} {c : PushCall} (hc : (before ++ [call])[i]? = some c) :
    c.parent.index ≤ i + 1 := by
  have hsize := hg.size_eq
  rcases Nat.lt_trichotomy i before.length with hi | rfl | hi
  · rw [List.getElem?_append_left hi] at hc
    exact hg.bounded i c hc
  · rw [List.getElem?_concat_length] at hc
    obtain rfl := Option.some.inj hc
    omega
  · rw [List.getElem?_eq_none (by simp; omega)] at hc
    cases hc

theorem push : (t.push call.parent call.kind call.role call.span).1.Grown (before ++ [call]) where
  size_eq := by
    rw [size_push, hg.size_eq, List.length_append]
    rfl
  root_parent := by
    rw [parent_push hp, if_neg (by simp [root, hg.size_eq])]
    exact hg.root_parent
  parent_eq := hg.parent_eq_push hp
  children_eq := hg.children_eq_push hp
  bounded _ _ hc := hg.bounded_push hp hc

end step

theorem push_all {calls : List PushCall} {t' : SyntaxTree} (h : t.pushAll calls = .ok t') :
    t'.Grown (before ++ calls) := by
  induction calls generalizing t before with
  | nil =>
    obtain rfl := Except.ok.inj h
    rwa [List.append_nil]
  | cons call rest ih =>
    rcases Nat.lt_or_ge t.size call.parent.index with hlt | hp
    · rw [push_all_fault rest hlt] at h
      cases h
    · rw [push_all_cons rest hp] at h
      rw [List.append_cons]
      exact ih (hg.push hp) h

section made
variable {i : Nat} {call : PushCall} (hc : before[i]? = some call)
include hc

theorem parent_of_call : t.parent ⟨i + 1⟩ = some call.parent := by
  rw [hg.parent_eq, hc]
  rfl

theorem index_lt_of_call : i + 1 < t.size := by
  obtain ⟨hlt, -⟩ := List.getElem?_eq_some_iff.1 hc
  rw [hg.size_eq]
  omega

/-- A pushed node stands once among the children of its parent, and not among those of another node. -/
theorem count_children (q : NodeId) :
    (t.children q).count ⟨i + 1⟩ = if q = call.parent then 1 else 0 := by
  have hparent := hg.parent_of_call hc
  rw [hg.children_eq]
  split
  · next hq =>
    have hnodup : t.ids.Nodup := t.ids_ascending.imp fun hlt heq => Nat.ne_of_lt hlt (congrArg _ heq)
    have hmem : (⟨i + 1⟩ : NodeId) ∈ t.ids := mem_ids.2 (hg.index_lt_of_call hc)
    rw [List.count_filter (by simp [hparent, hq]), List.count_eq_one_of_mem hnodup hmem]
  · next hq =>
    refine List.count_eq_zero_of_not_mem fun h => hq ?_
    have hq' := (List.mem_filter.1 h).2
    simp only [hparent, Option.some.injEq, decide_eq_true_eq] at hq'
    exact hq'.symm

end made

/-- A node is the root or was pushed. -/
theorem pushed_of_ne_root {n : NodeId} (hn : n.index < t.size) (hne : n ≠ root) :
    ∃ i call, n = ⟨i + 1⟩ ∧ before[i]? = some call := by
  obtain ⟨index⟩ := n
  cases index with
  | zero => exact absurd rfl hne
  | succ i =>
    rw [hg.size_eq] at hn
    have hi : i < before.length := Nat.lt_of_succ_lt_succ hn
    exact ⟨i, before[i], rfl, List.getElem?_eq_getElem hi⟩

theorem call_of_parent {n p : NodeId} (h : t.parent n = some p) :
    ∃ i call, n = ⟨i + 1⟩ ∧ before[i]? = some call ∧ p = call.parent := by
  have hne : n ≠ root := by
    rintro rfl
    rw [hg.root_parent] at h
    cases h
  obtain ⟨i, call, rfl, hc⟩ := hg.pushed_of_ne_root (index_lt_size_of_parent h) hne
  exact ⟨i, call, rfl, hc, Option.some.inj (h.symm.trans (hg.parent_of_call hc))⟩

theorem parent_le {n p : NodeId} (h : t.parent n = some p) : p.index ≤ n.index := by
  obtain ⟨i, call, rfl, hc, rfl⟩ := hg.call_of_parent h
  exact hg.bounded i call hc

theorem parent_lt_iff : (∀ n p, t.parent n = some p → p.index < n.index) ↔
    ∀ i call, before[i]? = some call → call.parent.index ≠ i + 1 := by
  constructor
  · intro h i call hc
    exact Nat.ne_of_lt (h _ _ (hg.parent_of_call hc))
  · intro h n p hp
    obtain ⟨i, call, rfl, hc, rfl⟩ := hg.call_of_parent hp
    exact Nat.lt_of_le_of_ne (hg.bounded i call hc) (h i call hc)

theorem rises {n : NodeId} (h : ∀ m, t.Meets n m → t.parent m ≠ some m) : t.Rises n := by
  suffices hk : ∀ k, ∀ n : NodeId, n.index < k → (∀ m, t.Meets n m → t.parent m ≠ some m) → t.Rises n from
    hk (n.index + 1) n (Nat.lt_succ_self _) h
  intro k
  induction k with
  | zero => intro n hn; omega
  | succ k ih =>
    intro n hn h
    cases hp : t.parent n with
    | none => exact .top hp
    | some p =>
      -- A parent never comes later, so all that is left to exclude is the node itself.
      have hne : p.index ≠ n.index := fun he =>
        h n .refl (hp.trans (congrArg some (congrArg NodeId.mk he)))
      have hle := hg.parent_le hp
      exact .up hp (by omega) (ih p (by omega) fun m hm => h m (.head hp hm))

theorem meets_root {n : NodeId} (hr : t.Rises n) (hn : n.index < t.size) : t.Meets n root := by
  induction hr with
  | @top n h =>
    by_cases hroot : n = root
    · rw [hroot]
      exact .refl
    · obtain ⟨i, call, rfl, hc⟩ := hg.pushed_of_ne_root hn hroot
      rw [hg.parent_of_call hc] at h
      cases h
  | up h hlt _ ih => exact .head h (ih (Nat.lt_trans hlt hn))

/-- The walks from a node end just when they meet no node that was pushed under itself. -/
theorem walks_end_iff {n : NodeId} (hn : n.index < t.size) :
    t.WalksEnd n ↔ ∀ m, t.Meets n m → t.parent m ≠ some m := by
  constructor
  · intro hends m hm hown
    have hrun := hends.descendant root (n.index + 2) (Nat.lt_succ_self _)
    rw [run_seeking_root hg.root_parent hm hown] at hrun
    cases hrun
  · intro h
    exact (hg.rises h).walks_end (hg.meets_root (hg.rises h) hn)

end Grown
end SyntaxTree

open SyntaxTree in
/-- Pushes under arbitrary parents. They are accepted as long as none names an index past the one it is about
to fill. A node then stands once among the children of the parent that its push named and nowhere else, and
its parent comes before it unless the push named the node itself; and the walks from a node end at the root
unless they meet such a node, where they go on for ever. -/
theorem pushed_walks_end (kind : SyntaxKind) (span : Span) (calls : List PushCall) :
    ((∃ t, (singleton kind span).pushAll calls = .ok t) ↔
      ∀ i call, calls[i]? = some call → call.parent.index ≤ i + 1) ∧
    ∀ t, (singleton kind span).pushAll calls = .ok t →
      t.size = calls.length + 1 ∧ t.parent root = none ∧
      (∀ i call, calls[i]? = some call → t.parent ⟨i + 1⟩ = some call.parent ∧
        call.parent.index ≤ i + 1 ∧
        ∀ q, (t.children q).count ⟨i + 1⟩ = if q = call.parent then 1 else 0) ∧
      ((∀ n p, t.parent n = some p → p.index < n.index) ↔
        ∀ i call, calls[i]? = some call → call.parent.index ≠ i + 1) ∧
      ∀ n, n.index < t.size → (t.WalksEnd n ↔ ∀ m, t.Meets n m → t.parent m ≠ some m) := by
  have hgrown : ∀ t, (singleton kind span).pushAll calls = .ok t → t.Grown calls := fun t ht =>
    (grown_singleton kind span).push_all ht
  refine ⟨⟨?_, ?_⟩, ?_⟩
  · rintro ⟨t, ht⟩
    exact (hgrown t ht).bounded
  · intro h
    refine push_all_accepted fun i call hc => ?_
    rw [Nat.add_comm]
    exact h i call hc
  · intro t ht
    have hg := hgrown t ht
    refine ⟨hg.size_eq, hg.root_parent, ?_, hg.parent_lt_iff, fun n hn => hg.walks_end_iff hn⟩
    exact fun i call hc => ⟨hg.parent_of_call hc, hg.bounded i call hc, hg.count_children hc⟩

def looseCalls : List PushCall :=
  [⟨⟨0⟩, .whileLoop, .plain, .zero⟩, ⟨⟨2⟩, .statement, .plain, .zero⟩, ⟨⟨1⟩, .block, .body, .zero⟩]

open SyntaxTree in
/-- The second push is accepted, and no walk from its node arrives at the root. -/
theorem own_parent_accepted : ∃ t, (singleton .module .zero).pushAll looseCalls = .ok t ∧
    t.parent ⟨2⟩ = some ⟨2⟩ ∧ ¬ t.WalksEnd ⟨2⟩ ∧ t.WalksEnd ⟨3⟩ := by
  obtain ⟨haccepted, hmade⟩ := pushed_walks_end .module .zero looseCalls
  obtain ⟨t, ht⟩ := haccepted.2 (by
    intro i call hc
    obtain ⟨hi, rfl⟩ := List.getElem?_eq_some_iff.1 hc
    revert i
    decide)
  obtain ⟨hsize, hroot, hcalls, -, hwalks⟩ := hmade t ht
  have hfirst : t.parent ⟨1⟩ = some root := (hcalls 0 _ rfl).1
  have hown : t.parent ⟨2⟩ = some ⟨2⟩ := (hcalls 1 _ rfl).1
  have hlast : t.parent ⟨3⟩ = some ⟨1⟩ := (hcalls 2 _ rfl).1
  refine ⟨t, ht, hown, fun h => (hwalks _ (hsize ▸ by decide)).1 h _ .refl hown, ?_⟩
  refine (hwalks _ (hsize ▸ by decide)).2 fun m hm => ?_
  rw [meets_of_parent hlast, meets_of_parent hfirst, meets_of_top hroot] at hm
  rcases hm with rfl | rfl | rfl
  · simp [hlast]
  · simp [hfirst, root]
  · simp [hroot]

end PythonFlow
