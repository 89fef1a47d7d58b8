/-
Module: PrimeSearch.Proofs.Prime.Listing
Purpose: A limit with room for a prime gets exactly the primes up to it, in increasing order.
Main exports: Sieve.listThrough, Sieve.listThrough_eq, primesWithin_lists
-/
import Mathlib.Data.Nat.Sqrt
import PrimeSearch.Prime.Request
import PrimeSearch.Proofs.Prime.Sieve

namespace PrimeSearch

namespace Sieve

/-!
The sieve squares the number it has come to and stops beyond the limit.  It may as well take a
root of the limit first and go through the numbers up to it.  Such a root is rounded, and all
that matters is that it is not rounded to less than the integer root: the squares of further
numbers are beyond the limit, and nothing is crossed out for them.
-/

/-- Cross out the multiples of so many numbers, as far as they are still marked. -/
def siftFor (limit : Nat) : Nat → Nat → Array Bool → Array Bool
  | 0, _, marks => marks
  | count + 1, i, marks =>
      siftFor limit count (i + 1)
        (if marks.getD i false then crossOut i (limit + 1) (i * i) marks else marks)

/-- The numbers up to a limit that are left of it by the numbers from two to a root. -/
def listThrough (limit root : Nat) : List Nat :=
  collect (siftFor limit (root - 1) 2 (start limit)) (limit + 1) []

theorem Sifted.siftFor {limit i : Nat} {marks : Array Bool} (sifted : Sifted limit i marks)
    (two : 2 ≤ i) (count : Nat) : Sifted limit (i + count) (siftFor limit count i marks) := by
  induction count generalizing i marks with
  | zero => exact sifted
  | succ count ih =>
      have := ih (sifted.step two) (by omega)
      rwa [Nat.add_right_comm, Nat.add_assoc] at this

/-- The primes up to a limit are what is left by the numbers up to any root that is no less
than the integer root. -/
theorem listThrough_eq {limit root : Nat} (reaches : limit.sqrt ≤ root) :
    listThrough limit root = primesTo limit := by
  have sifted := (sifted_start limit).siftFor (le_refl 2) (root - 1)
  have done : limit < (2 + (root - 1)) * (2 + (root - 1)) := Nat.sqrt_lt.mp (by omega)
  have listed := lists_collect fun j inside => sifted.marked_iff_prime done (j := j) inside
  exact listed.unique (lists_primesTo limit)

end Sieve

/-- A limit below two is refused.  Up to any other limit exactly the primes are listed, in
increasing order, whichever root of the limit the sieve goes up to, as long as it is no less than
the integer root.  A limit that a table can have is asked for to the same effect. -/
theorem primesWithin_lists (limit : Int) :
    (limit < 2 → primesWithin limit = .error (.limit (.whole limit))) ∧
      (2 ≤ limit → ∃ found, primesWithin limit = .ok found ∧
        (Lists found fun n => (n : Int) ≤ limit ∧ n.Prime) ∧
        ∀ root, limit.toNat.sqrt ≤ root → Sieve.listThrough limit.toNat root = found) ∧
      (limit ≤ largestBound → primesFor (.int limit) = primesWithin limit) := by
  refine ⟨fun low => if_pos low, fun high => ?_, fun fits => ?_⟩
  · have found : primesWithin limit = .ok (primesTo limit.toNat) := if_neg (by omega)
    obtain ⟨increasing, mem_iff⟩ := lists_primesTo limit.toNat
    refine ⟨primesTo limit.toNat, found, ⟨increasing, fun n => (mem_iff n).trans ?_⟩,
      fun root reaches => Sieve.listThrough_eq reaches⟩
    exact and_congr_left fun _ => by omega
  · have bounded : boundFor limit = .ok limit.toNat := if_neg (by omega)
    rw [primesFor]
    dsimp only [Quantity.ofJson?]
    rw [bounded]
    rfl

/-- The square of a prime is crossed out where it is the limit, and a limit that is prime is
listed. -/
theorem primesWithin_squareOfSeven :
    primesWithin 1 = .error (.limit (.whole 1)) ∧
      primesWithin 49 = .ok [2, 3, 5, 7, 11, 13, 17, 19, 23, 29, 31, 37, 41, 43, 47] ∧
      primesFor (.int 47) = primesWithin 47 := by
  refine ⟨(primesWithin_lists 1).1 (by decide), ?_, (primesWithin_lists 47).2.2 (by decide)⟩
  obtain ⟨found, listed, -, roots⟩ := (primesWithin_lists 49).2.1 (by decide)
  have least : Nat.sqrt 49 ≤ 7 := Nat.lt_succ_iff.mp (Nat.sqrt_lt.mpr (by decide))
  rw [listed, ← roots 7 least]
  exact congrArg Except.ok (by decide +kernel)

end PrimeSearch
