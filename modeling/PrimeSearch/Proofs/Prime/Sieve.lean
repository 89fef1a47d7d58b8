/-
Module: PrimeSearch.Proofs.Prime.Sieve
Purpose: The sieve finds exactly the primes up to its bound, in increasing order.
Main exports: Lists, Lists.unique, crossOut_marked, Sifted, sift_sifted, lists_primesTo,
  lists_compositesAmong
-/
import PrimeSearch.Prime.Sieve
import Mathlib.Data.Nat.Prime.Basic
import Mathlib.Data.List.Sort
import Mathlib.Tactic.Linarith
import Mathlib.Tactic.Ring

namespace PrimeSearch

/-- A list holds the numbers of a class, each once and in increasing order. -/
structure Lists (found : List Nat) (belongs : Nat → Prop) : Prop where
  increasing : found.Pairwise (· < ·)
  mem_iff : ∀ n, n ∈ found ↔ belongs n

/-- Lists of the same numbers in increasing order are the same. -/
theorem Lists.unique {found found' : List Nat} {belongs : Nat → Prop}
    (lists : Lists found belongs) (lists' : Lists found' belongs) : found = found' := by
  have perm : found.Perm found' := (List.perm_ext_iff_of_nodup
    (lists.increasing.imp Nat.ne_of_lt) (lists'.increasing.imp Nat.ne_of_lt)).mpr fun n =>
      (lists.mem_iff n).trans (lists'.mem_iff n).symm
  exact perm.eq_of_pairwise (fun a b _ _ less more => absurd less (Nat.not_lt_of_lt more))
    lists.increasing lists'.increasing

/-- A composite number. -/
def Composite (n : Nat) : Prop := 2 ≤ n ∧ ¬ n.Prime

namespace Sieve

/-!
After the multiples of all numbers below `i` are crossed out, a number is still marked exactly
if none of them divides it from its square on (`Sifted`).  A number that is itself crossed out
adds nothing: its multiples are multiples of the smaller number that crossed it out.
-/

/-- Whether a number is marked. -/
def Marked (marks : Array Bool) (j : Nat) : Prop := marks.getD j false = true

theorem marked_setIfInBounds (marks : Array Bool) (k j : Nat) :
    Marked (marks.setIfInBounds k false) j ↔ Marked marks j ∧ j ≠ k := by
  unfold Marked
  rw [Array.getD_eq_getD_getElem?, Array.getD_eq_getD_getElem?, Array.getElem?_setIfInBounds]
  by_cases same : k = j
  · subst same
    simp
    split <;> simp
  · simp [same, Ne.symm same]

theorem lt_size_of_marked {marks : Array Bool} {j : Nat} (marked : Marked marks j) :
    j < marks.size := by
  by_contra outside
  rw [Marked, Array.getD_eq_getD_getElem?, Array.getElem?_eq_none (by omega)] at marked
  cases marked

/-! ### Crossing out -/

theorem size_crossOut (step fuel k : Nat) (marks : Array Bool) :
    (crossOut step fuel k marks).size = marks.size := by
  fun_induction crossOut step fuel k marks with
  | case1 => rfl
  | case2 fuel k marks _ ih => rw [ih, Array.size_setIfInBounds]
  | case3 => rfl

/-- Crossing out takes the marks off the numbers that are a multiple of the step away. -/
theorem crossOut_marked {step fuel k : Nat} {marks : Array Bool}
    (enough : marks.size ≤ k + fuel * step) (j : Nat) :
    Marked (crossOut step fuel k marks) j ↔ Marked marks j ∧ ∀ m, j ≠ k + m * step := by
  have beyond {k : Nat} {marks : Array Bool} (outside : marks.size ≤ k) :
      Marked marks j ↔ Marked marks j ∧ ∀ m, j ≠ k + m * step := by
    refine ⟨fun marked => ⟨marked, fun m equal => ?_⟩, And.left⟩
    have := lt_size_of_marked marked
    omega
  induction fuel generalizing k marks with
  | zero =>
      rw [crossOut]
      exact beyond (by omega)
  | succ fuel ih =>
      unfold crossOut
      split
      next inside =>
        have enough : (marks.setIfInBounds k false).size ≤ k + step + fuel * step := by
          rw [Nat.add_one_mul] at enough
          rw [Array.size_setIfInBounds]
          omega
        refine (ih enough).trans ?_
        rw [marked_setIfInBounds, and_assoc]
        refine and_congr_right fun _ => ⟨fun ⟨first, later⟩ m => ?_, fun all => ⟨?_, fun m => ?_⟩⟩
        · cases m with
          | zero => simpa using first
          | succ m =>
              have := later m
              rw [Nat.add_one_mul]
              omega
        · simpa using all 0
        · have := all (m + 1)
          rw [Nat.add_one_mul] at this
          omega
      next outside => exact beyond (by omega)

/-! ### Sifting -/

/-- The multiples of all numbers below `i` are crossed out, each from the square on. -/
structure Sifted (limit i : Nat) (marks : Array Bool) : Prop where
  size : marks.size = limit + 1
  marked_iff : ∀ j ≤ limit,
    Marked marks j ↔ 2 ≤ j ∧ ∀ d, 2 ≤ d → d < i → d * d ≤ j → ¬ d ∣ j

theorem sifted_start (limit : Nat) : Sifted limit 2 (start limit) where
  size := by simp [start]
  marked_iff := by
    intro j inside
    have all : Marked (Array.replicate (limit + 1) true) j := by
      simp [Marked, Array.getD_eq_getD_getElem?, Nat.lt_succ_of_le inside]
    simp only [start, marked_setIfInBounds, all, true_and]
    constructor
    · rintro ⟨notZero, notOne⟩
      exact ⟨by omega, fun d two below => by omega⟩
    · rintro ⟨two, -⟩
      omega

/-- One step of the sieve. -/
theorem Sifted.step {limit i : Nat} {marks : Array Bool} (sifted : Sifted limit i marks)
    (two : 2 ≤ i) :
    Sifted limit (i + 1)
      (if marks.getD i false then crossOut i (limit + 1) (i * i) marks else marks) := by
  split
  next marked =>
    refine ⟨by rw [size_crossOut, sifted.size], fun j inside => ?_⟩
    have enough : marks.size ≤ i * i + (limit + 1) * i := by
      rw [sifted.size]
      nlinarith
    rw [crossOut_marked enough, sifted.marked_iff j inside, and_assoc]
    refine and_congr_right fun _ => ⟨fun ⟨smaller, notMultiple⟩ d one below square => ?_,
      fun all => ⟨fun d one below => all d one (by omega), fun m equal => ?_⟩⟩
    · rcases Nat.lt_succ_iff_lt_or_eq.mp below with below | rfl
      · exact smaller d one below square
      · rintro ⟨q, rfl⟩
        have large : d ≤ q := Nat.le_of_mul_le_mul_left square (by omega)
        obtain ⟨m, rfl⟩ := Nat.exists_eq_add_of_le large
        exact notMultiple m (by ring)
    · exact all i two (by omega) (by omega) ⟨i + m, by rw [equal]; ring⟩
  next unmarked =>
    refine ⟨sifted.size, fun j inside => ?_⟩
    rw [sifted.marked_iff j inside]
    refine and_congr_right fun _ => ⟨fun smaller d one below square divides => ?_,
      fun all d one below => all d one (by omega)⟩
    rcases Nat.lt_succ_iff_lt_or_eq.mp below with below | rfl
    · exact smaller d one below square divides
    · -- Some smaller number crossed `d` out, and it divides `j` too.
      have within : d ≤ limit := by nlinarith
      have crossed : ∃ e, 2 ≤ e ∧ e < d ∧ e * e ≤ d ∧ e ∣ d := by
        by_contra none
        refine unmarked ((sifted.marked_iff d within).mpr ⟨two, fun e least less root factor => ?_⟩)
        exact none ⟨e, least, less, root, factor⟩
      obtain ⟨e, least, less, root, factor⟩ := crossed
      exact smaller e least less (by nlinarith) (factor.trans divides)

/-- The sieve stops once all numbers up to the square root are done. -/
theorem sift_sifted {limit fuel i : Nat} {marks : Array Bool} (sifted : Sifted limit i marks)
    (two : 2 ≤ i) (enough : limit < i + fuel) :
    ∃ k, limit < k * k ∧ Sifted limit k (sift limit fuel i marks) := by
  induction fuel generalizing i marks with
  | zero => exact ⟨i, by nlinarith, sifted⟩
  | succ fuel ih =>
      unfold sift
      split
      next more => exact ih (sifted.step two) (by omega) (by omega)
      next done => exact ⟨i, by omega, sifted⟩

/-- When the sieve is done, exactly the primes are marked. -/
theorem Sifted.marked_iff_prime {limit k : Nat} {marks : Array Bool}
    (sifted : Sifted limit k marks) (done : limit < k * k) {j : Nat} (inside : j ≤ limit) :
    Marked marks j ↔ j.Prime := by
  rw [sifted.marked_iff j inside, Nat.prime_def_le_sqrt]
  refine and_congr_right fun _ => ⟨fun all d two root => ?_, fun all d two _ square => ?_⟩
  · have square := Nat.le_sqrt.mp root
    exact all d two (Nat.mul_self_lt_mul_self_iff.mp (by omega)) square
  · exact all d two (Nat.le_sqrt.mpr square)

theorem collect_eq (marks : Array Bool) (k : Nat) (found : List Nat) :
    collect marks k found = (List.range k).filter (marks.getD · false) ++ found := by
  induction k generalizing found with
  | zero => rfl
  | succ k ih =>
      rw [collect, ih, List.range_succ, List.filter_append, List.append_assoc]
      congr 1
      cases h : marks.getD k false
      · simp only [h, List.filter_cons_of_neg, Bool.false_eq_true, not_false_eq_true,
          List.filter_nil, List.nil_append, if_false]
      · simp only [h, List.filter_cons_of_pos, List.filter_nil, if_true, List.singleton_append]

/-- Collecting lists what is marked. -/
theorem lists_collect {marks : Array Bool} {limit : Nat} {belongs : Nat → Prop}
    (marked : ∀ j ≤ limit, Marked marks j ↔ belongs j) :
    Lists (collect marks (limit + 1) []) fun n => n ≤ limit ∧ belongs n where
  increasing := by
    rw [collect_eq, List.append_nil]
    exact (List.pairwise_lt_range).filter _
  mem_iff n := by
    rw [collect_eq, List.append_nil, List.mem_filter, List.mem_range, Nat.lt_succ_iff]
    exact and_congr_right fun inside => marked n inside

end Sieve

open Sieve

/-- The sieve lists the primes up to its bound. -/
theorem lists_primesTo (limit : Nat) : Lists (primesTo limit) fun n => n ≤ limit ∧ n.Prime := by
  have enough : limit < 2 + (limit + 1) := by omega
  obtain ⟨k, done, sifted⟩ := sift_sifted (sifted_start limit) (le_refl 2) enough
  exact lists_collect fun j inside => sifted.marked_iff_prime done inside

/-- What is left of the numbers up to a bound, without those of a list. -/
theorem lists_compositesAmong (limit : Nat) (primes : List Nat) :
    Lists (compositesAmong limit primes) fun n => n ≤ limit ∧ 2 ≤ n ∧ n ∉ primes := by
  have struck (marks : Array Bool) (j : Nat) :
      Marked (primes.foldl (fun marks p => marks.setIfInBounds p false) marks) j ↔
        Marked marks j ∧ j ∉ primes := by
    induction primes generalizing marks with
    | nil => simp
    | cons p primes ih =>
        rw [List.foldl_cons, ih, marked_setIfInBounds, List.mem_cons, not_or, and_assoc]
  refine lists_collect fun j inside => ?_
  rw [struck, (sifted_start limit).marked_iff j inside]
  constructor
  · rintro ⟨⟨two, -⟩, notMember⟩
    exact ⟨two, notMember⟩
  · rintro ⟨two, notMember⟩
    exact ⟨⟨two, fun d least below => by omega⟩, notMember⟩

end PrimeSearch
