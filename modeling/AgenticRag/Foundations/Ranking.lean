import Mathlib.Data.List.Sort

/-!
# Rankings

The result of a sort by a relation that tells its elements apart does not depend on the order
of the list, and its first elements rank before all others.
-/

namespace AgenticRag

namespace Ranking

variable {α : Type*} {r : α → α → Prop} {xs ys : List α}

/-- A sort looks at what is sorted only. -/
theorem insertionSort_of_perm [DecidableRel r] [Std.Total r] [IsTrans α r] (hperm : xs.Perm ys)
    (happart : ∀ x ∈ xs, ∀ y ∈ xs, r x y → r y x → x = y) : xs.insertionSort r = ys.insertionSort r := by
  have hsorted : (xs.insertionSort r).Perm (ys.insertionSort r) :=
    (List.perm_insertionSort r xs).trans (hperm.trans (List.perm_insertionSort r ys).symm)
  refine List.Perm.eq_of_pairwise ?_ (List.pairwise_insertionSort r xs) (List.pairwise_insertionSort r ys) hsorted
  intro x y hx hy hxy hyx
  have hx' : x ∈ xs := (List.mem_insertionSort r).mp hx
  have hy' : y ∈ xs := hperm.mem_iff.mpr ((List.mem_insertionSort r).mp hy)
  exact happart x hx' y hy' hxy hyx

/-- What is taken ranks before what is left. -/
theorem rel_of_taken (hsorted : xs.Pairwise r) (count : Nat) {x y : α} (hx : x ∈ xs.take count)
    (hy : y ∈ xs.drop count) : r x y := by
  rw [← List.take_append_drop count xs, List.pairwise_append] at hsorted
  exact hsorted.2.2 x hx y hy

/-- A member is either taken or left. -/
theorem mem_drop_of_not_taken {count : Nat} {y : α} (hy : y ∈ xs) (hnot : y ∉ xs.take count) :
    y ∈ xs.drop count := by
  rw [← List.take_append_drop count xs, List.mem_append] at hy
  exact hy.resolve_left hnot

end Ranking

end AgenticRag
