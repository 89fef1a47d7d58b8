/-
Module: PrimeSearch.Proofs.Plane.Extremes
Purpose: The outermost members of an exact cloud: least and greatest coordinates, and the lowest point.
Main exports: foldl_chosen, isLeast_foldl, isGreatest_foldl, Point.rowKey, lowest_spec
-/
import Mathlib.Algebra.Order.Ring.Rat
import Mathlib.Data.Prod.Lex
import Mathlib.Order.Bounds.Basic
import PrimeSearch.Plane.Frame
import PrimeSearch.Plane.Hull

namespace PrimeSearch

open Point

/-!
An outermost member is found by going through a list and keeping one of two members at each step.  What
is kept comes before neither of the two in some order, so in the end it comes before no member.
-/

/-- One of two members is kept at each step, the one whose key is not the larger; then one of all
members is kept in the end, and no key is smaller. -/
theorem foldl_chosen {α β : Type} [Preorder β] {choose : α → α → α} (key : α → β)
    (chosen : ∀ a b, choose a b ∈ [a, b] ∧ ∀ c ∈ [a, b], key (choose a b) ≤ key c)
    (first : α) (rest : List α) :
    rest.foldl choose first ∈ first :: rest ∧
      ∀ c ∈ first :: rest, key (rest.foldl choose first) ≤ key c := by
  induction rest generalizing first with
  | nil => exact ⟨List.mem_singleton_self first, List.forall_mem_singleton.mpr le_rfl⟩
  | cons next rest ih =>
      obtain ⟨kept, least⟩ := chosen first next
      obtain ⟨member, below⟩ := ih (choose first next)
      obtain ⟨belowKept, belowRest⟩ := List.forall_mem_cons.mp below
      constructor
      · rcases List.mem_cons.mp member with same | later
        · rw [← same] at kept
          exact List.mem_append_left rest kept
        · exact List.mem_cons_of_mem first (List.mem_cons_of_mem next later)
      · intro c among
        rcases List.mem_append.mp (show c ∈ [first, next] ++ rest from among) with here | later
        · exact belowKept.trans (least c here)
        · exact belowRest c later

/-! ### Coordinates -/

theorem least_eq_min (a b : ℚ) : least a b = min a b := by
  rw [least, beq_self_eq_true, Bool.not_true, Bool.or_false, min_comm, min_def_lt]
  simp only [decide_eq_true_eq]

theorem greatest_eq_max (a b : ℚ) : greatest a b = max a b := by
  rw [greatest, beq_self_eq_true, Bool.not_true, Bool.or_false, max_def_lt]
  simp only [decide_eq_true_eq]

theorem isLeast_foldl (first : ℚ) (rest : List ℚ) :
    IsLeast {v | v ∈ first :: rest} (rest.foldl least first) := by
  refine foldl_chosen id (fun a b => ?_) first rest
  rw [least_eq_min]
  refine ⟨?_, List.forall_mem_cons.mpr
    ⟨min_le_left a b, List.forall_mem_singleton.mpr (min_le_right a b)⟩⟩
  rcases min_choice a b with same | same <;> simp [same]

theorem isGreatest_foldl (first : ℚ) (rest : List ℚ) :
    IsGreatest {v | v ∈ first :: rest} (rest.foldl greatest first) := by
  refine foldl_chosen OrderDual.toDual (fun a b => ?_) first rest
  rw [greatest_eq_max]
  refine ⟨?_, List.forall_mem_cons.mpr
    ⟨le_max_left a b, List.forall_mem_singleton.mpr (le_max_right a b)⟩⟩
  rcases max_choice a b with same | same <;> simp [same]

/-! ### Rows -/

namespace Point

variable {p q : Point ℚ}

/-- Coordinates in the order in which rows are compared. -/
def rowKey (p : Point ℚ) : ℚ ×ₗ ℚ := toLex (p.y, p.x)

theorem rowKey_inj : p.rowKey = q.rowKey ↔ p = q := by
  cases p
  cases q
  simp [rowKey, and_comm]

theorem rowLe_iff : rowLe p q = true ↔ p.rowKey ≤ q.rowKey := by
  simp only [rowLe, rowKey, Bool.or_eq_true, Bool.and_eq_true, Bool.not_eq_true',
    decide_eq_true_eq, decide_eq_false_iff_not, not_lt, Prod.Lex.toLex_le_toLex]
  grind

end Point

/-- The lowest point is one of the points, and none comes before it row by row. -/
theorem lowest_spec (first : Point ℚ) (rest : List (Point ℚ)) :
    lowest first rest ∈ first :: rest ∧
      ∀ q ∈ first :: rest, (lowest first rest).rowKey ≤ q.rowKey := by
  refine foldl_chosen Point.rowKey (fun p q => ?_) first rest
  split
  next le =>
    refine ⟨List.mem_cons_self, List.forall_mem_cons.mpr ⟨le_rfl, ?_⟩⟩
    exact List.forall_mem_singleton.mpr (rowLe_iff.mp le)
  next gt =>
    refine ⟨List.mem_cons_of_mem p List.mem_cons_self, List.forall_mem_cons.mpr ⟨?_, ?_⟩⟩
    · exact le_of_not_ge fun le => gt (rowLe_iff.mpr le)
    · exact List.forall_mem_singleton.mpr le_rfl

end PrimeSearch
