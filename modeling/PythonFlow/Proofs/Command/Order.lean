import PythonFlow.Command.Report

/-!
# Orders of paths and of lines

Paths are ordered by their parts, and parts by rank and then by name, so that the order of paths is one and
sorting puts them in it. Lines that are sorted and then kept once each increase strictly.
-/

set_option autoImplicit false

namespace PythonFlow.Command

namespace PathPart

def text : PathPart → String
  | name s => s
  | _ => ""

theorem compare_eq_lex : PathPart.compare = compareLex (compareOn rank) (compareOn text) := by
  funext a b
  cases a <;> cases b <;> rfl

instance : Std.TransCmp PathPart.compare := by
  rw [compare_eq_lex]
  infer_instance

end PathPart

namespace Path

theorem compare_parts_eq_lex : compareParts = List.compareLex PathPart.compare := by
  funext as bs
  induction as generalizing bs with
  | nil => cases bs <;> rfl
  | cons a as ih =>
    cases bs with
    | nil => rfl
    | cons b bs => rw [compareParts, List.compareLex_cons_cons, ih]

instance : Std.TransCmp Path.compare where
  eq_swap {a b} := by
    rw [compare, compare, compare_parts_eq_lex]
    exact Std.OrientedCmp.eq_swap
  isLE_trans {a b c} := by
    rw [compare, compare, compare, compare_parts_eq_lex]
    exact Std.TransCmp.isLE_trans

theorem sort_sorted (paths : List String) : (sort paths).Pairwise fun a b => (compare a b).isLE = true := by
  refine List.pairwise_mergeSort (fun a b c => Std.TransCmp.isLE_trans) (fun a b => ?_) paths
  have hswap : compare b a = (compare a b).swap := Std.OrientedCmp.eq_swap
  rw [hswap]
  cases compare a b <;> rfl

end Path

theorem erase_reps_increase {a : Nat} {as acc : List Nat} (h : (a :: as).Pairwise (· ≤ ·))
    (hacc : (a :: acc).Pairwise (· > ·)) :
    (List.eraseRepsBy.loop (· == ·) a as acc).Pairwise (· < ·) := by
  induction as generalizing a acc with
  | nil => exact List.pairwise_reverse.2 hacc
  | cons b rest ih =>
    rw [List.pairwise_cons] at h
    simp only [List.eraseRepsBy.loop]
    split
    · next heq =>
      obtain rfl := beq_iff_eq.1 heq
      exact ih h.2 hacc
    · next hne =>
      have hlt : a < b := Nat.lt_of_le_of_ne (h.1 b List.mem_cons_self) (by simpa using hne)
      refine ih h.2 (List.pairwise_cons.2 ⟨fun x hx => ?_, hacc⟩)
      rcases List.mem_cons.1 hx with rfl | hx
      · exact hlt
      · exact Nat.lt_trans (List.rel_of_pairwise_cons hacc hx) hlt

theorem distinct_lines_increase (lines : List Nat) : (distinctLines lines).Pairwise (· < ·) := by
  have hsorted : (lines.mergeSort (· ≤ ·)).Pairwise (· ≤ ·) := by
    simpa using @List.pairwise_mergeSort Nat (· ≤ ·) (fun a b c => by simpa using Nat.le_trans)
      (fun a b => by simpa using Nat.le_total a b) lines
  unfold distinctLines
  cases hlines : lines.mergeSort (· ≤ ·) with
  | nil => exact .nil
  | cons a rest =>
    rw [hlines] at hsorted
    exact erase_reps_increase hsorted (List.pairwise_singleton _ a)

end PythonFlow.Command
