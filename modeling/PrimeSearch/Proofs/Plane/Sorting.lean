/-
Module: PrimeSearch.Proofs.Plane.Sorting
Purpose: The different points of an exact cloud, column by column.
Main exports: Point.columnKey, mem_distinctPoints, nodup_distinctPoints, length_distinctPoints,
  distinctPoints_eq_of_same
-/
import Mathlib.Algebra.Order.Ring.Rat
import Mathlib.Data.Finset.Card
import Mathlib.Data.Prod.Lex
import PrimeSearch.Plane.Hull

namespace PrimeSearch

open Point

/-!
Columns are compared by two coordinates, one after the other, so the order is the lexicographic one of
pairs.  A sorted list without repetitions is settled by its members, and therefore the different points
of a cloud do not depend on the order in which they are given or on how often.
-/

namespace Point

variable {p q : Point ℚ}

/-- Coordinates in the order in which columns are compared. -/
def columnKey (p : Point ℚ) : ℚ ×ₗ ℚ := toLex (p.x, p.y)

theorem columnKey_inj : p.columnKey = q.columnKey ↔ p = q := by
  cases p
  cases q
  simp [columnKey]

theorem columnLe_iff : columnLe p q = true ↔ p.columnKey ≤ q.columnKey := by
  simp only [columnLe, columnKey, Bool.or_eq_true, Bool.and_eq_true, Bool.not_eq_true',
    decide_eq_true_eq, decide_eq_false_iff_not, not_lt, Prod.Lex.toLex_le_toLex]
  grind

end Point

section
variable {p q : Point ℚ} {points others l : List (Point ℚ)}

/-! ### Different points -/

theorem mem_dropRepeats (sorted : l.Pairwise fun p q => p.columnKey ≤ q.columnKey) :
    q ∈ dropRepeats l ↔ q ∈ l := by
  fun_induction dropRepeats l with
  | case1 => rfl
  | case2 => rfl
  | case3 p next rest back ih =>
      have le : p.columnKey ≤ next.columnKey := List.rel_of_pairwise_cons sorted List.mem_cons_self
      obtain rfl : p = next := columnKey_inj.mp (le_antisymm le (columnLe_iff.mp back))
      rw [ih sorted.of_cons]
      simp
  | case4 p next rest _ ih =>
      rw [List.mem_cons, ih sorted.of_cons]
      exact List.mem_cons.symm

theorem pairwise_dropRepeats (sorted : l.Pairwise fun p q => p.columnKey ≤ q.columnKey) :
    (dropRepeats l).Pairwise fun p q => p.columnKey < q.columnKey := by
  fun_induction dropRepeats l with
  | case1 => exact .nil
  | case2 p => exact List.pairwise_singleton _ p
  | case3 p next rest back ih =>
      obtain ⟨first, tail⟩ := List.pairwise_cons.mp sorted
      have beyond := (List.forall_mem_cons.mp first).2
      exact ih (List.pairwise_cons.mpr ⟨beyond, tail.of_cons⟩)
  | case4 p next rest forward ih =>
      obtain ⟨-, tail⟩ := List.pairwise_cons.mp sorted
      have step : p.columnKey < next.columnKey := not_le.mp fun back => forward (columnLe_iff.mpr back)
      refine List.pairwise_cons.mpr ⟨fun q member => ?_, ih tail⟩
      rcases List.mem_cons.mp ((mem_dropRepeats tail).mp member) with rfl | later
      · exact step
      · exact step.trans_le (List.rel_of_pairwise_cons tail later)

theorem pairwise_mergeSort_columnLe (points : List (Point ℚ)) :
    (points.mergeSort columnLe).Pairwise fun p q => p.columnKey ≤ q.columnKey := by
  have trans (p q r : Point ℚ) (first : columnLe p q = true) (second : columnLe q r = true) :
      columnLe p r = true := by
    rw [columnLe_iff] at *
    exact first.trans second
  have total (p q : Point ℚ) : (columnLe p q || columnLe q p) = true := by
    rw [Bool.or_eq_true, columnLe_iff, columnLe_iff]
    exact le_total _ _
  exact (List.pairwise_mergeSort trans total points).imp columnLe_iff.mp

/-- The different points stand in strict order. -/
theorem pairwise_distinctPoints (points : List (Point ℚ)) :
    (distinctPoints points).Pairwise fun p q => p.columnKey < q.columnKey :=
  pairwise_dropRepeats (pairwise_mergeSort_columnLe points)

theorem mem_distinctPoints : q ∈ distinctPoints points ↔ q ∈ points :=
  (mem_dropRepeats (pairwise_mergeSort_columnLe points)).trans (List.mergeSort_perm points _).mem_iff

theorem nodup_distinctPoints (points : List (Point ℚ)) : (distinctPoints points).Nodup :=
  (pairwise_distinctPoints points).imp fun less same => less.ne (congrArg columnKey same)

theorem length_distinctPoints (points : List (Point ℚ)) :
    (distinctPoints points).length = points.toFinset.card := by
  rw [← List.toFinset_card_of_nodup (nodup_distinctPoints points)]
  congr 1
  ext q
  rw [List.mem_toFinset, List.mem_toFinset, mem_distinctPoints]

/-- Order and repetition of the points of a cloud do not matter. -/
theorem distinctPoints_eq_of_same (same : ∀ q, q ∈ points ↔ q ∈ others) :
    distinctPoints points = distinctPoints others := by
  have perm : (distinctPoints points).Perm (distinctPoints others) := by
    apply (List.perm_ext_iff_of_nodup (nodup_distinctPoints points) (nodup_distinctPoints others)).mpr
    intro q
    rw [mem_distinctPoints, mem_distinctPoints, same]
  apply perm.eq_of_pairwise _ (pairwise_distinctPoints points) (pairwise_distinctPoints others)
  intro a b _ _ less greater
  exact absurd less greater.not_gt

end

end PrimeSearch
