/-
Module: PrimeSearch.Proofs.Prime.StrongTest
Purpose: What the strong test with fixed bases says about large numbers, and what the test for
  primality comes to for numbers of any size.
Main exports: StrongProbablePrime, strongProbable_iff, passes_of_prime,
  passesTests_iff, isPrime_of_large, isPrime_exact_up_to_pseudoprimes
-/
import PrimeSearch.Proofs.Prime.Test
import Mathlib.FieldTheory.Finite.Basic
import Mathlib.Tactic.NormNum.Prime

namespace PrimeSearch

/-!
A prime divides `a ^ (n - 1) - 1` for every base that is no multiple of it, and the only square
roots of one are one and minus one.  So if `n - 1 = d * 2 ^ s` with `d` odd and `n` is prime, then
`a ^ d` is one, or minus one is met when it is squared less than `s` times.  A number for which
this is so is a strong probable prime to the base, whether it is prime or not.
-/

/-- A strong probable prime to a base. -/
def StrongProbablePrime (n a : Nat) : Prop :=
  ∃ d s, d % 2 = 1 ∧ n - 1 = d * 2 ^ s ∧
    (a ^ d ≡ 1 [MOD n] ∨ ∃ r < s, n ∣ a ^ (d * 2 ^ r) + 1)

/-! ### Powers -/

theorem powModLoop_eq {m fuel exponent : Nat} (acc base : Nat) (enough : exponent < 2 ^ fuel) :
    powModLoop m fuel acc base exponent = acc * base ^ exponent % m := by
  induction fuel generalizing acc base exponent with
  | zero =>
      obtain rfl : exponent = 0 := by simpa using enough
      rw [powModLoop, pow_zero, mul_one]
  | succ fuel ih =>
      have half : exponent / 2 < 2 ^ fuel := by
        rw [pow_succ] at enough
        omega
      have square : (base * base % m) ^ (exponent / 2) ≡ base ^ (2 * (exponent / 2)) [MOD m] := by
        rw [pow_mul, sq]
        exact (Nat.mod_modEq _ _).pow _
      rw [powModLoop, ih _ _ half]
      split
      next odd =>
        calc acc * base % m * (base * base % m) ^ (exponent / 2)
            ≡ acc * base * base ^ (2 * (exponent / 2)) [MOD m] := (Nat.mod_modEq _ _).mul square
          _ = acc * base ^ exponent := by
            rw [mul_assoc, ← pow_succ']
            congr 2
            omega
      next even =>
        calc acc * (base * base % m) ^ (exponent / 2)
            ≡ acc * base ^ (2 * (exponent / 2)) [MOD m] := square.mul_left acc
          _ = acc * base ^ exponent := by
            congr 2
            omega

theorem powMod_eq (base exponent m : Nat) : powMod base exponent m = base ^ exponent % m := by
  rw [powMod, powModLoop_eq 1 _ Nat.lt_log2_self, one_mul]
  exact (Nat.mod_modEq base m).pow exponent

/-- Taking out factors of two leaves an odd number. -/
theorem splitTwos_spec {fuel d : Nat} (s : Nat) (positive : 0 < d) (enough : d < 2 ^ (fuel + 1)) :
    (splitTwos fuel d s).1 % 2 = 1 ∧
      (splitTwos fuel d s).1 * 2 ^ (splitTwos fuel d s).2 = d * 2 ^ s := by
  induction fuel generalizing d s with
  | zero =>
      obtain rfl : d = 1 := by
        rw [zero_add, pow_one] at enough
        omega
      exact ⟨rfl, rfl⟩
  | succ fuel ih =>
      rw [splitTwos]
      split
      next even =>
        have half : d / 2 < 2 ^ (fuel + 1) := by
          rw [pow_succ] at enough
          omega
        obtain ⟨odd, product⟩ := ih (s + 1) (by omega) half
        refine ⟨odd, product.trans ?_⟩
        rw [pow_succ', ← mul_assoc, Nat.div_mul_cancel (Nat.dvd_of_mod_eq_zero even)]
      next odd => exact ⟨by omega, rfl⟩

/-! ### One base -/

/-- A residue is minus one exactly if the next number is a multiple. -/
theorem mod_eq_sub_one_iff {n : Nat} (two : 2 ≤ n) (x : Nat) : x % n = n - 1 ↔ n ∣ x + 1 := by
  constructor
  · intro residue
    apply Nat.dvd_of_mod_eq_zero
    rw [Nat.add_mod, residue, Nat.mod_eq_of_lt (a := 1) two, Nat.sub_add_cancel (by omega),
      Nat.mod_self]
  · rintro ⟨q, product⟩
    obtain ⟨q, rfl⟩ : ∃ k, q = k + 1 := Nat.exists_eq_succ_of_ne_zero fun zero => by
      rw [zero, mul_zero] at product
      cases product
    obtain rfl : x = n - 1 + n * q := by
      rw [mul_add, mul_one] at product
      omega
    rw [Nat.add_mul_mod_self_left, Nat.mod_eq_of_lt (by omega)]

/-- Minus one is met exactly if it is one of the first so many squares. -/
theorem squaresToMinusOne_iff {n : Nat} (two : 2 ≤ n) (count x : Nat) :
    squaresToMinusOne n count x = true ↔ ∃ r < count, n ∣ x ^ 2 ^ (r + 1) + 1 := by
  induction count generalizing x with
  | zero => simp [squaresToMinusOne]
  | succ count ih =>
      have later (r : Nat) : n ∣ (x * x % n) ^ 2 ^ (r + 1) + 1 ↔ n ∣ x ^ 2 ^ (r + 2) + 1 := by
        rw [← mod_eq_sub_one_iff two, ← mod_eq_sub_one_iff two]
        have same : (x * x % n) ^ 2 ^ (r + 1) ≡ x ^ 2 ^ (r + 2) [MOD n] := by
          rw [pow_succ' 2 (r + 1), pow_mul, sq]
          exact (Nat.mod_modEq _ _).pow _
        rw [same]
      have first : x * x % n = n - 1 ↔ n ∣ x ^ 2 ^ (0 + 1) + 1 := by
        rw [mod_eq_sub_one_iff two, zero_add, pow_one, sq]
      rw [squaresToMinusOne]
      split
      next met => exact iff_of_true rfl ⟨0, Nat.succ_pos _, first.mp met⟩
      next notMet =>
        rw [ih]
        constructor
        · rintro ⟨r, less, divides⟩
          exact ⟨r + 1, Nat.succ_lt_succ less, (later r).mp divides⟩
        · rintro ⟨_ | r, less, divides⟩
          · exact absurd (first.mpr divides) notMet
          · exact ⟨r, Nat.lt_of_succ_lt_succ less, (later r).mpr divides⟩

/-- The test by a base that is no multiple of the number. -/
theorem strongProbable_iff {n d s a : Nat} (two : 2 ≤ n) (some : 0 < s) (proper : ¬ n ∣ a) :
    strongProbable n d s a = true ↔
      a ^ d ≡ 1 [MOD n] ∨ ∃ r < s, n ∣ a ^ (d * 2 ^ r) + 1 := by
  have one : a ^ d % n = 1 ↔ a ^ d ≡ 1 [MOD n] := by
    rw [Nat.ModEq, Nat.mod_eq_of_lt (a := 1) two]
  have squares (r : Nat) : n ∣ (a ^ d % n) ^ 2 ^ (r + 1) + 1 ↔ n ∣ a ^ (d * 2 ^ (r + 1)) + 1 := by
    rw [← mod_eq_sub_one_iff two, ← mod_eq_sub_one_iff two, pow_mul]
    rw [show (a ^ d % n) ^ 2 ^ (r + 1) ≡ (a ^ d) ^ 2 ^ (r + 1) [MOD n] from
      (Nat.mod_modEq _ _).pow _]
  rw [strongProbable, if_neg fun zero => proper (Nat.dvd_of_mod_eq_zero zero), powMod_eq]
  dsimp only
  split
  next early =>
    rw [mod_eq_sub_one_iff two, one] at early
    refine iff_of_true rfl (early.imp_right fun divides => ⟨0, some, ?_⟩)
    rwa [pow_zero, mul_one]
  next late =>
    rw [mod_eq_sub_one_iff two, one, not_or] at late
    rw [squaresToMinusOne_iff two]
    constructor
    · rintro ⟨r, less, divides⟩
      exact .inr ⟨r + 1, by omega, (squares r).mp divides⟩
    · rintro (isOne | ⟨_ | r, less, divides⟩)
      · exact absurd isOne late.1
      · rw [pow_zero, mul_one] at divides
        exact absurd divides late.2
      · exact ⟨r, by omega, (squares r).mpr divides⟩

/-! ### Primes -/

/-- Squaring leads to one only from one, or by way of minus one. -/
theorem eq_one_or_meets_minus_one {p : Nat} [Fact p.Prime] {s : Nat} {x : ZMod p}
    (ends : x ^ 2 ^ s = 1) : x = 1 ∨ ∃ r < s, x ^ 2 ^ r = -1 := by
  induction s with
  | zero => exact .inl (by simpa using ends)
  | succ s ih =>
      rw [pow_succ, pow_mul, sq] at ends
      rcases mul_self_eq_one_iff.mp ends with one | minus
      · exact (ih one).imp_right fun ⟨r, less, met⟩ => ⟨r, by omega, met⟩
      · exact .inr ⟨s, Nat.lt_succ_self s, minus⟩

/-- A prime passes the test by every base that is no multiple of it, however many factors of two
are taken out. -/
theorem passes_of_prime {p a d s : Nat} (prime : p.Prime) (proper : ¬ p ∣ a)
    (split : p - 1 = d * 2 ^ s) :
    a ^ d ≡ 1 [MOD p] ∨ ∃ r < s, p ∣ a ^ (d * 2 ^ r) + 1 := by
  have : Fact p.Prime := ⟨prime⟩
  have unit : (a : ZMod p) ≠ 0 := fun zero => proper ((ZMod.natCast_eq_zero_iff a p).mp zero)
  have fermat : ((a : ZMod p) ^ d) ^ 2 ^ s = 1 := by
    rw [← pow_mul, ← split]
    exact ZMod.pow_card_sub_one_eq_one unit
  rcases eq_one_or_meets_minus_one fermat with one | ⟨r, less, minus⟩
  · left
    apply (ZMod.natCast_eq_natCast_iff _ _ _).mp
    rw [Nat.cast_pow, one, Nat.cast_one]
  · right
    refine ⟨r, less, (ZMod.natCast_eq_zero_iff _ _).mp ?_⟩
    rw [Nat.cast_add, Nat.cast_pow, pow_mul, minus, Nat.cast_one, neg_add_cancel]

/-! ### All bases -/

theorem pos_of_mem_testBases {a : Nat} (base : a ∈ testBases) : 0 < a ∧ a < trialLimit :=
  (by decide : ∀ a ∈ testBases, 0 < a ∧ a < trialLimit) a base

/-- A base is no multiple of a large number. -/
theorem not_dvd_testBase {n a : Nat} (large : trialLimit ≤ n) (base : a ∈ testBases) : ¬ n ∣ a := by
  obtain ⟨positive, small⟩ := pos_of_mem_testBases base
  intro divides
  have := Nat.le_of_dvd positive divides
  omega

/-- How factors of two are taken out makes no difference. -/
theorem split_unique {d d' s s' : Nat} (odd : d % 2 = 1) (odd' : d' % 2 = 1)
    (same : d * 2 ^ s = d' * 2 ^ s') : d = d' ∧ s = s' := by
  induction s generalizing s' with
  | zero =>
      cases s' with
      | zero => exact ⟨by simpa using same, rfl⟩
      | succ s' =>
          rw [pow_zero, mul_one, pow_succ, ← mul_assoc] at same
          omega
  | succ s ih =>
      cases s' with
      | zero =>
          rw [pow_zero, mul_one, pow_succ, ← mul_assoc] at same
          omega
      | succ s' =>
          rw [pow_succ, pow_succ, ← mul_assoc, ← mul_assoc] at same
          obtain ⟨sameOdd, samePower⟩ := ih (Nat.eq_of_mul_eq_mul_right two_pos same)
          exact ⟨sameOdd, congrArg (· + 1) samePower⟩

/-- The test by one base tells strong probable primes. -/
theorem strongProbable_iff_strongProbablePrime {n d s a : Nat} (odd : d % 2 = 1)
    (split : n - 1 = d * 2 ^ s) (some : 0 < s) (proper : ¬ n ∣ a) :
    strongProbable n d s a = true ↔ StrongProbablePrime n a := by
  have two : 2 ≤ n := by
    have : 0 < d * 2 ^ s := Nat.mul_pos (by omega) (Nat.two_pow_pos s)
    omega
  rw [strongProbable_iff two some proper]
  constructor
  · intro passed
    exact ⟨d, s, odd, split, passed⟩
  · rintro ⟨d', s', odd', split', passed⟩
    obtain ⟨rfl, rfl⟩ := split_unique odd' odd (split'.symm.trans split)
    exact passed

/-- A large odd number passes the tests exactly if it is a strong probable prime to all bases. -/
theorem passesTests_iff {n : Nat} (large : trialLimit ≤ n) (odd : n % 2 = 1) :
    passesTests n = true ↔ ∀ a ∈ testBases, StrongProbablePrime n a := by
  have positive : 0 < n - 1 := Nat.sub_pos_of_lt (lt_of_lt_of_le (by decide) large)
  have enough : n - 1 < 2 ^ (n.log2 + 1) := lt_of_le_of_lt (Nat.sub_le n 1) Nat.lt_log2_self
  obtain ⟨oddPart, product⟩ := splitTwos_spec 0 positive enough
  rw [passesTests]
  generalize splitTwos n.log2 (n - 1) 0 = parts at oddPart product
  obtain ⟨d, s⟩ := parts
  rw [pow_zero, mul_one] at product
  have some : 0 < s := by
    apply Nat.pos_of_ne_zero
    rintro rfl
    rw [pow_zero, mul_one] at product
    omega
  rw [List.all_eq_true]
  exact forall₂_congr fun a base => strongProbable_iff_strongProbablePrime oddPart product.symm some
    (not_dvd_testBase large base)

/-- For a large number the test comes to this: no base divides it, and it is a strong probable
prime to all of them. -/
theorem isPrime_of_large {n : Nat} (large : trialLimit ≤ n) :
    isPrime n = true ↔
      (∀ p ∈ testBases, ¬ p ∣ n) ∧ ∀ a ∈ testBases, StrongProbablePrime n a := by
  have limit : trialLimit = 1000000 := rfl
  rw [isPrime, if_neg (by omega), Int.toNat_natCast, isPrimeNat, if_neg (by omega),
    if_neg (by omega), if_neg (by omega)]
  split
  next p found =>
    have base := List.mem_of_find?_eq_some found
    have divides : p ∣ n := Nat.dvd_of_mod_eq_zero (by simpa using List.find?_some found)
    have other : n ≠ p := by
      have := (pos_of_mem_testBases base).2
      omega
    exact iff_of_false (fun same => other (beq_iff_eq.mp same))
      fun ⟨undivided, _⟩ => undivided p base divides
  next notFound =>
    have undivided : ∀ p ∈ testBases, ¬ p ∣ n := by
      intro p base divides
      exact List.find?_eq_none.mp notFound p base (decide_eq_true (Nat.mod_eq_zero_of_dvd divides))
    have odd : n % 2 = 1 :=
      Nat.mod_two_ne_zero.mp fun even => undivided 2 (by decide) (Nat.dvd_of_mod_eq_zero even)
    rw [passesTests_iff large odd]
    exact ⟨fun passed => ⟨undivided, passed⟩, And.right⟩

/-- Large primes pass. -/
theorem isPrime_of_prime {n : Nat} (large : trialLimit ≤ n) (prime : n.Prime) :
    isPrime n = true := by
  refine (isPrime_of_large large).mpr ⟨fun p base divides => ?_, fun a base => ?_⟩
  · obtain ⟨-, small⟩ := pos_of_mem_testBases base
    rcases (Nat.dvd_prime prime).mp divides with one | whole
    · exact absurd (one ▸ base) (by decide)
    · omega
  · have two : 2 ≤ n := prime.two_le
    obtain ⟨odd, product⟩ := splitTwos_spec 0 (by omega : 0 < n - 1)
      (lt_of_le_of_lt (Nat.sub_le n 1) Nat.lt_log2_self)
    rw [pow_zero, mul_one] at product
    exact ⟨_, _, odd, product.symm,
      passes_of_prime prime (not_dvd_testBase large base) product.symm⟩

/-- Trial division decides primality without any upper bound. -/
theorem trialDivision_iff_prime {n : Nat} (two : 2 ≤ n) : trialDivision n = true ↔ n.Prime := by
  obtain rfl | rfl | four : n = 2 ∨ n = 3 ∨ 4 ≤ n := by omega
  · exact iff_of_true rfl Nat.prime_two
  · exact iff_of_true rfl Nat.prime_three
  · exact trialDivision_iff four

/-- The test for primality is exact up to strong pseudoprimes.  Numbers below two are refused.  Below
the limit of trial division the test is exact, and trial division alone would be so for all numbers.
From the limit on exactly those numbers are accepted that none of the bases divides and that are
strong probable primes to all of them, and every prime is among them.  So as far as every composite
number fails for some base, the test is exact. -/
theorem isPrime_exact_up_to_pseudoprimes :
    (∀ n : Int, n < 2 → isPrime n = false) ∧
      (∀ n : Nat, 2 ≤ n → n < trialLimit → (isPrime n = true ↔ n.Prime)) ∧
      (∀ n : Nat, trialLimit ≤ n → n.Prime → isPrime n = true) ∧
      (∀ n : Nat, trialLimit ≤ n → (isPrime n = true ↔
        (∀ p ∈ testBases, ¬ p ∣ n) ∧ ∀ a ∈ testBases, StrongProbablePrime n a)) ∧
      (∀ n : Nat, 2 ≤ n → (trialDivision n = true ↔ n.Prime)) ∧
      ∀ bound : Nat,
        (∀ m, trialLimit ≤ m → m < bound → ¬ m.Prime → ∃ a ∈ testBases, ¬ StrongProbablePrime m a) →
          ∀ n : Nat, 2 ≤ n → n < bound → (isPrime n = true ↔ n.Prime) := by
  have exactBelow (n : Nat) (small : n < trialLimit) : isPrime n = true ↔ n.Prime :=
    isPrime_iff_of_lt (Int.ofNat_lt.mpr small)
  refine ⟨fun n tiny => if_pos tiny, fun n _ small => exactBelow n small,
    fun n large prime => isPrime_of_prime large prime, fun n large => isPrime_of_large large,
    fun n two => trialDivision_iff_prime two, fun bound published n _ below => ?_⟩
  rcases Nat.lt_or_ge n trialLimit with small | large
  · exact exactBelow n small
  · refine ⟨fun accepted => ?_, isPrime_of_prime large⟩
    by_contra composite
    obtain ⟨a, base, fails⟩ := published n large below composite
    exact fails (((isPrime_of_large large).mp accepted).2 a base)

/-- Around the limit of trial division: the last prime below it, the first one above it, and a product
of two primes in between, which fails for the first base. -/
theorem isPrime_near_limit :
    isPrime (-7) = false ∧ isPrime (999983 : Nat) = true ∧ trialDivision 1000003 = true ∧
      isPrime (1000003 : Nat) = true ∧ (∀ a ∈ testBases, StrongProbablePrime 1000003 a) ∧
      isPrime (1000001 : Nat) = false := by
  obtain ⟨tiny, small, large, passes, trial, published⟩ := isPrime_exact_up_to_pseudoprimes
  have prime : Nat.Prime 1000003 := by norm_num
  have evenFails : ¬ StrongProbablePrime 1000000 2 := by
    rintro ⟨d, s, odd, split, passed⟩
    obtain ⟨-, rfl⟩ := split_unique (d := 999999) (s := 0) (by decide) odd split
    obtain residue | ⟨r, impossible, -⟩ := passed
    · have even : 2 ^ d ≡ 0 [MOD 2] := (dvd_pow_self 2 (by omega)).modEq_zero_nat
      exact absurd (even.symm.trans (residue.of_dvd (by decide : 2 ∣ 1000000))) (by decide)
    · exact absurd impossible (Nat.not_lt_zero r)
  have productFails : ¬ StrongProbablePrime 1000001 2 := by
    rw [← strongProbable_iff_strongProbablePrime (d := 15625) (s := 6) (by decide) (by decide)
      (by decide) (by decide)]
    decide +kernel
  have composite : ¬ isPrime (1000001 : Nat) = true := by
    rw [published 1000002 (fun m least less _ => ?_) 1000001 (by decide) (by decide)]
    · norm_num
    · obtain rfl | rfl : m = 1000000 ∨ m = 1000001 := by
        have : trialLimit = 1000000 := rfl
        omega
      · exact ⟨2, by decide, evenFails⟩
      · exact ⟨2, by decide, productFails⟩
  exact ⟨tiny (-7) (by decide), (small 999983 (by decide) (by decide)).mpr (by norm_num),
    (trial 1000003 (by decide)).mpr prime, large 1000003 (by decide) prime,
    ((passes 1000003 (by decide)).mp (large 1000003 (by decide) prime)).2,
    Bool.eq_false_iff.mpr composite⟩

end PrimeSearch
