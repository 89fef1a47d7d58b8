/-
Module: PrimeSearch.Proofs.Number.Rounding
Purpose: Rounding a quotient gives the double whose interval the quotient lies in.
Main exports: Interval.Contains, roundHalfEven_of_near, targetExponent_spec,
  magnitudeOfRatio_of_contains, decode_ofRatio_of_contains
-/
import PrimeSearch.Number.Decimal
import PrimeSearch.Proofs.Number.Bits
import Mathlib.Algebra.Order.Field.Power
import Mathlib.Data.Rat.Cast.Order
import Mathlib.Tactic.FieldSimp
import Mathlib.Tactic.Linarith
import Mathlib.Tactic.NormNum
import Mathlib.Tactic.Positivity
import Mathlib.Tactic.Ring

namespace PrimeSearch

open Decimal

namespace Binary64

/-!
The quotient is a rational number here, and its scale is a power of two with an integral
exponent.  `targetExponent` finds the scale at which the quotient has 53 bits, and there the
nearest natural number is the mantissa.  A power of two is the one mantissa that is also reached
from the scale below, where the doubles are twice as dense.
-/

/-! ### Nearest natural number -/

/-- The nearest natural number is the one that is at most a half away; an odd one has to be
nearer than a half. -/
theorem roundHalfEven_eq {num den m : Nat} (low : 2 * (m * den) ≤ 2 * num + den)
    (high : 2 * num ≤ 2 * (m * den) + den)
    (ties : m % 2 = 1 → 2 * (m * den) < 2 * num + den ∧ 2 * num < 2 * (m * den) + den)
    (positive : 0 < den) : roundHalfEven num den = m := by
  have division : den * (num / den) + num % den = num := Nat.div_add_mod num den
  have rest : num % den < den := Nat.mod_lt num positive
  unfold roundHalfEven
  dsimp only
  generalize num / den = quotient at *
  generalize num % den = remainder at *
  subst num
  have notAbove : quotient ≤ m := by
    by_contra above
    have := Nat.mul_le_mul_right den (Nat.lt_of_not_le above)
    rw [Nat.succ_mul, Nat.mul_comm quotient] at this
    omega
  have notBelow : m ≤ quotient + 1 := by
    by_contra below
    have := Nat.mul_le_mul_right den (Nat.lt_of_not_le below)
    rw [Nat.succ_mul, Nat.succ_mul, Nat.mul_comm quotient] at this
    omega
  obtain rfl | rfl : m = quotient ∨ m = quotient + 1 := by omega
  · rw [Nat.mul_comm den] at *
    split
    · rfl
    · split
      · have : m % 2 ≠ 1 := fun odd => by have := ties odd; omega
        omega
      · omega
  · rw [Nat.add_one_mul quotient, Nat.mul_comm den] at *
    split
    · omega
    · split
      · have : (quotient + 1) % 2 ≠ 1 := fun odd => by have := ties odd; omega
        omega
      · rfl

theorem roundHalfEven_of_near {num den m : Nat} {x : ℚ} (value : x = num / den)
    (positive : 0 < den) (low : (m : ℚ) - 1 / 2 ≤ x) (high : x ≤ m + 1 / 2)
    (ties : m % 2 = 1 → (m : ℚ) - 1 / 2 < x ∧ x < m + 1 / 2) : roundHalfEven num den = m := by
  have cleared : (num : ℚ) = x * den := by
    rw [value]
    field_simp
  have denominator : (0 : ℚ) < den := by exact_mod_cast positive
  apply roundHalfEven_eq _ _ _ positive
  · have : 2 * ((m : ℚ) * den) ≤ 2 * num + den := by rw [cleared]; nlinarith
    exact_mod_cast this
  · have : 2 * (num : ℚ) ≤ 2 * (m * den) + den := by rw [cleared]; nlinarith
    exact_mod_cast this
  · intro odd
    obtain ⟨above, below⟩ := ties odd
    constructor
    · have : 2 * ((m : ℚ) * den) < 2 * num + den := by rw [cleared]; nlinarith
      exact_mod_cast this
    · have : 2 * (num : ℚ) < 2 * (m * den) + den := by rw [cleared]; nlinarith
      exact_mod_cast this

/-! ### Scale of a quotient -/

theorem scaleByPower_pos (num : Nat) {den : Nat} (exponent : Int) (positive : 0 < den) :
    0 < (scaleByPower num den exponent).2 := by
  unfold scaleByPower
  split
  · exact Nat.mul_pos positive (by positivity)
  · exact positive

theorem scaleByPower_ratio (num den : Nat) (exponent : Int) :
    ((scaleByPower num den exponent).1 : ℚ) / (scaleByPower num den exponent).2 =
      (num : ℚ) / den / 2 ^ exponent := by
  unfold scaleByPower
  split
  next up =>
    obtain ⟨k, rfl⟩ := Int.eq_ofNat_of_zero_le up
    simp [div_div]
  next down =>
    obtain ⟨k, hk⟩ := Int.eq_ofNat_of_zero_le (a := -exponent) (by omega)
    obtain rfl : exponent = -k := by omega
    simp only [neg_neg, Int.toNat_natCast, Nat.cast_mul, Nat.cast_pow, Nat.cast_ofNat, zpow_neg,
      zpow_natCast, div_inv_eq_mul]
    ring

/-- A natural number is between the power of two of its binary logarithm and the next. -/
theorem log2_bounds {n : Nat} (positive : 0 < n) :
    (2 : ℚ) ^ (n.log2 : Int) ≤ n ∧ (n : ℚ) < 2 ^ ((n.log2 : Int) + 1) := by
  constructor
  · rw [zpow_natCast]
    exact_mod_cast Nat.log2_self_le positive.ne'
  · rw [← Nat.cast_succ, zpow_natCast]
    exact_mod_cast Nat.lt_log2_self

/-- A quotient is between the powers of two that its binary logarithms give. -/
theorem ratio_bounds {num den : Nat} (numerator : 0 < num) (denominator : 0 < den) :
    (2 : ℚ) ^ ((num.log2 : Int) - den.log2 - 1) ≤ num / den ∧
      (num : ℚ) / den < 2 ^ ((num.log2 : Int) - den.log2 + 1) := by
  obtain ⟨numLow, numHigh⟩ := log2_bounds numerator
  obtain ⟨denLow, denHigh⟩ := log2_bounds denominator
  have positive : (0 : ℚ) < den := by exact_mod_cast denominator
  constructor
  · rw [le_div_iff₀ positive]
    calc (2 : ℚ) ^ ((num.log2 : Int) - den.log2 - 1) * den
        ≤ 2 ^ ((num.log2 : Int) - den.log2 - 1) * 2 ^ ((den.log2 : Int) + 1) := by gcongr
      _ = 2 ^ (num.log2 : Int) := by
          rw [← zpow_add₀ two_ne_zero]
          congr 1
          ring
      _ ≤ num := numLow
  · rw [div_lt_iff₀ positive]
    calc (num : ℚ) < 2 ^ ((num.log2 : Int) + 1) := numHigh
      _ = 2 ^ ((num.log2 : Int) - den.log2 + 1) * 2 ^ (den.log2 : Int) := by
          rw [← zpow_add₀ two_ne_zero]
          congr 1
          ring
      _ ≤ 2 ^ ((num.log2 : Int) - den.log2 + 1) * den := by gcongr

/-- `targetExponent` is the exponent at which the quotient has 53 bits, or the least one. -/
theorem targetExponent_spec {num den : Nat} (numerator : 0 < num) (denominator : 0 < den) :
    ∃ exponent, targetExponent num den = max minExponent exponent ∧
      (2 : ℚ) ^ 52 ≤ num / den / 2 ^ exponent ∧ (num : ℚ) / den / 2 ^ exponent < 2 ^ 53 := by
  obtain ⟨low, high⟩ := ratio_bounds numerator denominator
  have ratio := scaleByPower_ratio num den ((num.log2 : Int) - den.log2 - fractionBits)
  have scaled := scaleByPower_pos num ((num.log2 : Int) - den.log2 - fractionBits) denominator
  unfold targetExponent
  dsimp only
  generalize scaleByPower num den _ = pair at *
  have scaledPositive : (0 : ℚ) < pair.2 := by exact_mod_cast scaled
  by_cases short : pair.1 / pair.2 < 2 ^ fractionBits
  · refine ⟨(num.log2 : Int) - den.log2 - fractionBits - 1, by rw [if_pos short], ?_, ?_⟩
    · rw [le_div_iff₀ (by positivity)]
      refine le_trans (le_of_eq ?_) low
      rw [← zpow_natCast, ← zpow_add₀ two_ne_zero]
      congr 1
      simp only [fractionBits]
      ring
    · have below : (pair.1 : ℚ) / pair.2 < 2 ^ 52 := by
        rw [div_lt_iff₀ scaledPositive]
        exact_mod_cast (Nat.div_lt_iff_lt_mul scaled).mp short
      rw [zpow_sub_one₀ two_ne_zero, ← div_div, ← ratio, div_inv_eq_mul]
      linarith
  · refine ⟨(num.log2 : Int) - den.log2 - fractionBits, by rw [if_neg short], ?_, ?_⟩
    · rw [← ratio, le_div_iff₀ scaledPositive]
      exact_mod_cast (Nat.le_div_iff_mul_le scaled).mp (Nat.le_of_not_lt short)
    · rw [div_lt_iff₀ (by positivity)]
      refine lt_of_lt_of_le high (le_of_eq ?_)
      rw [← zpow_natCast, ← zpow_add₀ two_ne_zero]
      congr 1
      simp only [fractionBits]
      ring

/-- The exponent at which a number has 53 bits is unique. -/
theorem exponent_unique {x : ℚ} {a b : Int} (low : (2 : ℚ) ^ 52 ≤ x / 2 ^ a)
    (high : x / 2 ^ b < 2 ^ 53) : a ≤ b := by
  by_contra above
  rw [le_div_iff₀ (by positivity)] at low
  rw [div_lt_iff₀ (by positivity)] at high
  have step : (2 : ℚ) ^ (b + 1) ≤ 2 ^ a := zpow_le_zpow_right₀ (by norm_num) (by omega)
  rw [zpow_add_one₀ two_ne_zero] at step
  linarith

end Binary64

namespace Decimal

/-- A number lies in an interval; `x` is in the interval's unit. -/
def Interval.Contains (i : Interval) (x : ℚ) : Prop :=
  if i.closed then (i.low : ℚ) ≤ x ∧ x ≤ i.high else (i.low : ℚ) < x ∧ x < i.high

end Decimal

namespace Binary64

/-- The interval of a double reaches half a unit up and half a unit down, but a quarter down from
a power of two.  The ends belong to an even mantissa only. -/
theorem bounds_of_contains {mantissa : Nat} {exponent : Int} {x : ℚ} (positive : 0 < mantissa)
    (contained : (interval mantissa exponent).Contains (4 * x)) :
    ((mantissa : ℚ) - 1 / 2 ≤ x ∧ x ≤ mantissa + 1 / 2) ∧
      (mantissa % 2 = 1 → (mantissa : ℚ) - 1 / 2 < x ∧ x < mantissa + 1 / 2) ∧
      (mantissa = 2 ^ 52 → minExponent < exponent → (mantissa : ℚ) - 1 / 4 ≤ x) := by
  obtain ⟨gap, atMost, atBoundary, lowEnd⟩ : ∃ gap : ℚ, gap ≤ 2 ∧
      (mantissa = 2 ^ 52 → minExponent < exponent → gap ≤ 1) ∧
      ((interval mantissa exponent).low : ℚ) = 4 * mantissa - gap := by
    by_cases boundary : mantissa = 2 ^ fractionBits ∧ minExponent < exponent
    · refine ⟨1, by norm_num, fun _ _ => le_refl 1, ?_⟩
      simp only [interval, if_pos boundary]
      rw [Nat.cast_sub (by omega)]
      push_cast
      rfl
    · refine ⟨2, le_refl 2, fun power above => absurd ⟨power, above⟩ boundary, ?_⟩
      simp only [interval, if_neg boundary]
      rw [Nat.cast_sub (by omega)]
      push_cast
      rfl
  have highEnd : ((interval mantissa exponent).high : ℚ) = 4 * mantissa + 2 := by
    simp [interval]
  have ends : (interval mantissa exponent).closed = (mantissa % 2 == 0) := rfl
  rw [Interval.Contains, ends, lowEnd, highEnd] at contained
  by_cases even : mantissa % 2 = 0
  · simp only [even, beq_self_eq_true, if_true] at contained
    obtain ⟨above, below⟩ := contained
    refine ⟨⟨by linarith, by linarith⟩, by omega, fun power up => ?_⟩
    have := atBoundary power up
    linarith
  · have odd : (mantissa % 2 == 0) = false := by simpa using even
    simp only [odd, Bool.false_eq_true, if_false] at contained
    obtain ⟨above, below⟩ := contained
    refine ⟨⟨by linarith, by linarith⟩, fun _ => ⟨by linarith, by linarith⟩, fun power up => ?_⟩
    have := atBoundary power up
    linarith

/-- Rounding at the exponent that the quotient has. -/
theorem magnitudeOfRatio_eq {num den m : Nat} {exponent : Int} (numerator : 0 < num)
    (denominator : 0 < den) (target : targetExponent num den = exponent)
    (low : (m : ℚ) - 1 / 2 ≤ num / den / 2 ^ exponent)
    (high : (num : ℚ) / den / 2 ^ exponent ≤ m + 1 / 2)
    (ties : m % 2 = 1 →
      (m : ℚ) - 1 / 2 < num / den / 2 ^ exponent ∧ (num : ℚ) / den / 2 ^ exponent < m + 1 / 2) :
    magnitudeOfRatio num den =
      min infinityBits ((exponent - minExponent).toNat * 2 ^ fractionBits + m) := by
  unfold magnitudeOfRatio
  rw [if_neg numerator.ne', target]
  dsimp only
  rw [roundHalfEven_of_near (scaleByPower_ratio num den exponent).symm
    (scaleByPower_pos num exponent denominator) low high ties]

/-- A quotient just below a power of two is rounded up to it.  Its exponent is the one below, and
the mantissa there overflows. -/
theorem magnitudeOfRatio_below_power {num den : Nat} {exponent : Int} (numerator : 0 < num)
    (denominator : 0 < den) (above : minExponent < exponent) (atMost : exponent ≤ 971)
    (low : (2 : ℚ) ^ 52 - 1 / 4 ≤ num / den / 2 ^ exponent)
    (high : (num : ℚ) / den / 2 ^ exponent < 2 ^ 52) :
    magnitudeOfRatio num den = (exponent - minExponent).toNat * 2 ^ fractionBits + 2 ^ 52 := by
  have doubled : (num : ℚ) / den / 2 ^ (exponent - 1) = 2 * (num / den / 2 ^ exponent) := by
    rw [zpow_sub_one₀ two_ne_zero]
    field_simp
  obtain ⟨scale, target, scaleLow, scaleHigh⟩ := targetExponent_spec numerator denominator
  have exact : scale = exponent - 1 := by
    apply le_antisymm
    · apply exponent_unique scaleLow
      rw [doubled]
      norm_num at high ⊢
      linarith
    · apply exponent_unique _ scaleHigh
      rw [doubled]
      norm_num at low ⊢
      linarith
  rw [exact, max_eq_right (by omega)] at target
  have near : ((2 ^ 53 : Nat) : ℚ) - 1 / 2 ≤ num / den / 2 ^ (exponent - 1) ∧
      (num : ℚ) / den / 2 ^ (exponent - 1) ≤ (2 ^ 53 : Nat) + 1 / 2 := by
    rw [doubled]
    norm_num at low high ⊢
    constructor <;> linarith
  rw [magnitudeOfRatio_eq numerator denominator target near.1 near.2 (by norm_num)]
  simp only [minExponent, fractionBits, infinityBits] at above ⊢
  omega

/-- A quotient that lies in the interval of a double is rounded to the double. -/
theorem magnitudeOfRatio_of_contains {num den mantissa : Nat} {exponent : Int}
    (canonical : (Value.finite false mantissa exponent).Canonical) (positive : 0 < mantissa)
    (denominator : 0 < den)
    (contained : (interval mantissa exponent).Contains (4 * (num / den / 2 ^ exponent))) :
    magnitudeOfRatio num den = (exponent - minExponent).toNat * 2 ^ fractionBits + mantissa := by
  obtain ⟨width, least, greatest, normal⟩ := canonical
  obtain ⟨⟨low, high⟩, ties, sparse⟩ := bounds_of_contains positive contained
  have mantissaPositive : (1 : ℚ) ≤ mantissa := by exact_mod_cast positive
  have widthRat : (mantissa : ℚ) + 1 ≤ 2 ^ 53 := by exact_mod_cast width
  have numerator : 0 < num := by
    apply Nat.pos_of_ne_zero
    rintro rfl
    simp at low
    linarith
  obtain ⟨scale, target, scaleLow, scaleHigh⟩ := targetExponent_spec numerator denominator
  have finite : (exponent - minExponent).toNat * 2 ^ fractionBits + mantissa < infinityBits := by
    simp only [minExponent, fractionBits, infinityBits] at least ⊢
    omega
  have atMost : scale ≤ exponent := exponent_unique scaleLow (by linarith)
  -- Below 53 bits the mantissa is subnormal, or the quotient is just below a power of two.
  rcases lt_or_ge ((num : ℚ) / den / 2 ^ exponent) (2 ^ 52) with short | full
  · rcases eq_or_lt_of_le least with rfl | above
    · rw [max_eq_left atMost] at target
      rw [magnitudeOfRatio_eq numerator denominator target low high ties, min_eq_right finite.le]
    · have power : mantissa = 2 ^ 52 := by
        have atLeast : 2 ^ 52 ≤ mantissa := by omega
        have atMost : (mantissa : ℚ) < 2 ^ 52 + 1 := by linarith
        have atMost : mantissa < 2 ^ 52 + 1 := by exact_mod_cast atMost
        omega
      have quarter := sparse power above
      subst power
      push_cast at quarter
      exact magnitudeOfRatio_below_power numerator denominator above greatest quarter short
  · have exact : scale = exponent := le_antisymm atMost (exponent_unique full scaleHigh)
    rw [exact, max_eq_right least] at target
    rw [magnitudeOfRatio_eq numerator denominator target low high ties, min_eq_right finite.le]

/-- A quotient that lies in the interval of a double is read as the double. -/
theorem decode_ofRatio_of_contains {num den mantissa : Nat} {exponent : Int} (negative : Bool)
    (canonical : (Value.finite false mantissa exponent).Canonical) (positive : 0 < mantissa)
    (denominator : 0 < den)
    (contained : (interval mantissa exponent).Contains (4 * (num / den / 2 ^ exponent))) :
    decode (ofRatio negative num den) = .finite negative mantissa exponent := by
  have magnitude := magnitudeOfRatio_of_contains canonical positive denominator contained
  apply decode_ofMagnitude
  · exact canonical
  · rw [magnitude, Value.bits_finite]
  · obtain ⟨width, least, greatest, normal⟩ := canonical
    rw [magnitude]
    simp only [minExponent, fractionBits] at least ⊢
    omega

/-- The value of a double lies in its interval. -/
theorem contains_value {mantissa : Nat} (exponent : Int) (positive : 0 < mantissa) :
    (interval mantissa exponent).Contains (4 * mantissa) := by
  have low : (interval mantissa exponent).low < 4 * mantissa := by
    simp only [interval]
    split <;> omega
  have high : 4 * mantissa < (interval mantissa exponent).high := by simp [interval]
  have low : ((interval mantissa exponent).low : ℚ) < 4 * mantissa := by exact_mod_cast low
  have high : (4 * mantissa : ℚ) < (interval mantissa exponent).high := by exact_mod_cast high
  unfold Interval.Contains
  split
  · exact ⟨low.le, high.le⟩
  · exact ⟨low, high⟩

/-- A positive number below `2 ^ 53` has 53 bits when it is shifted up. -/
theorem shifted_up {n : Nat} (positive : 0 < n) (short : n < 2 ^ 53) :
    n.log2 < 53 ∧ 2 ^ 52 ≤ n * 2 ^ (52 - n.log2) ∧ n * 2 ^ (52 - n.log2) < 2 ^ 53 := by
  have low : 2 ^ n.log2 ≤ n := Nat.log2_self_le positive.ne'
  have high : n < 2 ^ (n.log2 + 1) := Nat.lt_log2_self
  have digits : n.log2 < 53 := (Nat.log2_lt positive.ne').mpr short
  have split : 2 ^ n.log2 * 2 ^ (52 - n.log2) = 2 ^ 52 := by
    rw [← pow_add]
    congr 1
    omega
  refine ⟨digits, ?_, ?_⟩
  · rw [← split]
    exact Nat.mul_le_mul_right _ low
  · rw [pow_succ, ← split, mul_right_comm, ← pow_succ]
    exact Nat.mul_lt_mul_of_pos_right high (by positivity)

end Binary64

end PrimeSearch
