/-
MultiForge.Lib.SortedSet — `sorted(set(xs))`.

The sorted list of a list's distinct elements. A list is its own sorted
set exactly when it increases strictly (`sortedSet_eq_self_iff`), which is
how such lists are validated.
-/
import Mathlib.Data.List.Dedup
import Mathlib.Data.List.Sort

namespace MultiForge

variable {α : Type} [LinearOrder α]

/-- `sorted(set(xs))` -/
def sortedSet (xs : List α) : List α := xs.dedup.insertionSort (· ≤ ·)

@[simp] theorem mem_sortedSet {xs : List α} {x : α} : x ∈ sortedSet xs ↔ x ∈ xs := by
  rw [sortedSet, List.mem_insertionSort, List.mem_dedup]

theorem sortedSet_pairwise (xs : List α) : (sortedSet xs).Pairwise (· < ·) := by
  have hle : (sortedSet xs).Pairwise (· ≤ ·) := List.pairwise_insertionSort (· ≤ ·) _
  have hnodup : (sortedSet xs).Nodup :=
    (List.perm_insertionSort (· ≤ ·) _).nodup_iff.mpr (List.nodup_dedup xs)
  exact hle.and hnodup |>.imp fun h => lt_of_le_of_ne h.1 h.2

/-- **Only strictly increasing lists are their own sorted set.** -/
theorem sortedSet_eq_self_iff {xs : List α} : xs = sortedSet xs ↔ xs.Pairwise (· < ·) := by
  constructor
  · intro h
    rw [h]
    exact sortedSet_pairwise xs
  · intro h
    have hdedup : xs.dedup = xs := List.dedup_eq_self.mpr (h.imp fun hlt => ne_of_lt hlt)
    rw [sortedSet, hdedup]
    exact (List.Pairwise.insertionSort_eq (h.imp le_of_lt)).symm

/-- Sorting a part of a strictly increasing list changes nothing. -/
theorem sortedSet_filter {xs : List α} (h : xs.Pairwise (· < ·)) (p : α → Bool) :
    sortedSet (xs.filter p) = xs.filter p :=
  (sortedSet_eq_self_iff.mpr (h.filter p)).symm

end MultiForge
