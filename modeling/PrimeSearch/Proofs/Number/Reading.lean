/-
Module: PrimeSearch.Proofs.Number.Reading
Purpose: The written magnitude of a finite double is read back as the double.
Main exports: decode_ofScientific, exists_literal_of_magnitudeText
-/
import PrimeSearch.Expr.Printer
import PrimeSearch.Proofs.Number.Literal

namespace PrimeSearch

open Binary64 Decimal

namespace Numeral

/-! ### Reading a decimal -/

/-- A positive number is between the powers of ten that its number of digits gives. -/
theorem digits_bounds {n : Nat} (positive : 0 < n) :
    (10 : ℚ) ^ (((digits n).length : Int) - 1) ≤ n ∧ (n : ℚ) < 10 ^ ((digits n).length : Int) := by
  have long : 0 < (digits n).length := Nat.length_toDigits_pos
  have high : n < 10 ^ (digits n).length :=
    (Nat.length_toDigits_le_iff (by norm_num) long).mp (le_refl _)
  have low : 10 ^ ((digits n).length - 1) ≤ n := by
    rcases Nat.eq_zero_or_pos ((digits n).length - 1) with one | more
    · rw [one]
      exact positive
    · by_contra above
      have := (Nat.length_toDigits_le_iff (b := 10) (by norm_num) more).mpr (Nat.lt_of_not_le above)
      change (digits n).length ≤ _ at this
      omega
  constructor
  · rw [← Nat.cast_one, ← Nat.cast_sub long, zpow_natCast]
    exact_mod_cast low
  · rw [zpow_natCast]
    exact_mod_cast high

/-- A decimal in the interval of a double is not below half the least double and not above the
power of two that no double reaches. -/
theorem value_bounds {d : Decimal} {mantissa : Nat} {exponent : Int}
    (canonical : (Value.finite false mantissa exponent).Canonical) (positive : 0 < mantissa)
    (contained : (interval mantissa exponent).Contains (4 * (d.value / 2 ^ exponent))) :
    (2 : ℚ) ^ (-1075 : Int) ≤ d.value ∧ d.value ≤ (2 : ℚ) ^ ((1024 : Nat) : Int) := by
  obtain ⟨⟨low, high⟩, -⟩ := bounds_of_contains positive contained
  obtain ⟨width, least, greatest, -⟩ := canonical
  have widthRat : (mantissa : ℚ) + 1 ≤ 2 ^ 53 := by exact_mod_cast width
  have unitRat : (1 : ℚ) ≤ mantissa := by exact_mod_cast positive
  have scale : (0 : ℚ) < 2 ^ exponent := by positivity
  rw [le_div_iff₀ scale] at low
  rw [div_le_iff₀ scale] at high
  constructor
  · calc (2 : ℚ) ^ (-1075 : Int) = 1 / 2 * 2 ^ minExponent := by
          rw [show (-1075 : Int) = -1 + minExponent from rfl, zpow_add₀ two_ne_zero,
            zpow_neg_one, one_div]
      _ ≤ 1 / 2 * 2 ^ exponent := by
          have := zpow_le_zpow_right₀ (a := (2 : ℚ)) (by norm_num) least
          linarith
      _ ≤ (mantissa - 1 / 2) * 2 ^ exponent :=
          mul_le_mul_of_nonneg_right (by linarith) scale.le
      _ ≤ d.value := low
  · calc d.value ≤ (mantissa + 1 / 2) * 2 ^ exponent := high
      _ ≤ 2 ^ (53 : Int) * 2 ^ (971 : Int) := by
          apply mul_le_mul _ (zpow_le_zpow_right₀ (by norm_num) greatest) scale.le (by positivity)
          norm_num at widthRat ⊢
          linarith
      _ = 2 ^ ((1024 : Nat) : Int) := by
          rw [show ((1024 : Nat) : Int) = 53 + 971 from rfl, zpow_add₀ two_ne_zero]

/-- A decimal in the interval of a double is neither too large nor too small to be read. -/
theorem leading_bounds {d : Decimal} {mantissa : Nat} {exponent : Int}
    (canonical : (Value.finite false mantissa exponent).Canonical) (positive : 0 < mantissa)
    (contained : (interval mantissa exponent).Contains (4 * (d.value / 2 ^ exponent))) :
    0 < d.coefficient ∧ -exponentBound ≤ d.exponent + (digits d.coefficient).length ∧
      d.exponent + (digits d.coefficient).length ≤ exponentBound := by
  obtain ⟨above, below⟩ := value_bounds canonical positive contained
  have coefficient : 0 < d.coefficient := by
    apply Nat.pos_of_ne_zero
    intro zero
    rw [value, zero, Nat.cast_zero, zero_mul] at above
    exact lt_irrefl 0 (lt_of_lt_of_le (zpow_pos two_pos _) above)
  obtain ⟨lead, next⟩ := digits_bounds coefficient
  have power : (0 : ℚ) < 10 ^ d.exponent := by positivity
  have least := ten_zpow_le_two_zpow (b := -1075) (by norm_num) (by norm_num)
  rw [show Int.fdiv (-1075 * 30103) 100000 - 1 = -325 from rfl] at least
  refine ⟨coefficient, ?_, ?_⟩
  · have : (10 : ℚ) ^ (-325 : Int) < 10 ^ (d.exponent + (digits d.coefficient).length) :=
      calc (10 : ℚ) ^ (-325 : Int) ≤ 2 ^ (-1075 : Int) := least
        _ ≤ d.value := above
        _ < 10 ^ ((digits d.coefficient).length : Int) * 10 ^ d.exponent :=
            mul_lt_mul_of_pos_right next power
        _ = 10 ^ (d.exponent + (digits d.coefficient).length) := by
            rw [← zpow_add₀ (by norm_num), add_comm]
    rw [zpow_lt_zpow_iff_right₀ (by norm_num)] at this
    simp only [exponentBound]
    omega
  · have : (10 : ℚ) ^ (d.exponent + (digits d.coefficient).length - 1) ≤
        10 ^ (((309 : Nat) : Int) + 1) :=
      calc (10 : ℚ) ^ (d.exponent + (digits d.coefficient).length - 1)
          = 10 ^ (((digits d.coefficient).length : Int) - 1) * 10 ^ d.exponent := by
            rw [← zpow_add₀ (by norm_num), show d.exponent + (digits d.coefficient).length - 1 =
              (digits d.coefficient).length - 1 + d.exponent by ring]
        _ ≤ d.value := mul_le_mul_of_nonneg_right lead power.le
        _ ≤ 2 ^ ((1024 : Nat) : Int) := below
        _ ≤ 10 ^ (((309 : Nat) : Int) + 1) := two_zpow_le_ten_zpow (by norm_num) (by norm_num)
    rw [zpow_le_zpow_iff_right₀ (by norm_num)] at this
    simp only [exponentBound]
    omega

/-- A decimal in the interval of a double is read as the double. -/
theorem decode_ofScientific {d : Decimal} {mantissa : Nat} {exponent : Int} (negative : Bool)
    (canonical : (Value.finite false mantissa exponent).Canonical) (positive : 0 < mantissa)
    (contained : (interval mantissa exponent).Contains (4 * (d.value / 2 ^ exponent))) :
    decode (ofScientific negative d.coefficient d.exponent) =
      .finite negative mantissa exponent := by
  obtain ⟨coefficient, low, high⟩ := leading_bounds canonical positive contained
  unfold ofScientific
  rw [if_neg coefficient.ne', if_neg (by omega), if_neg (by omega)]
  change decode (ofRatio negative (shift d.coefficient 1 d.exponent).1
    (shift d.coefficient 1 d.exponent).2) = _
  apply decode_ofRatio_of_contains negative canonical positive (shift_pos _ _ Nat.one_pos)
  rw [shift_ratio, Nat.cast_one, div_one]
  exact contained

/-- Nothing is lost in a literal that stands for zero. -/
theorem decode_ofScientific_zero (negative : Bool) (exponent : Int) :
    decode (ofScientific negative 0 exponent) = .finite negative 0 minExponent := by
  unfold ofScientific
  rw [if_pos rfl]
  apply decode_ofMagnitude
  · exact ⟨by norm_num, le_refl _, by decide, .inr rfl⟩
  · simp [Value.bits_finite]
  · norm_num

/-- A whole number that is the value of a double is read as the double. -/
theorem decode_ofScientific_of_eq {n mantissa : Nat} {exponent : Int}
    (canonical : (Value.finite false mantissa exponent).Canonical)
    (exact : (n : ℚ) = mantissa * 2 ^ exponent) :
    decode (ofScientific false n 0) = .finite false mantissa exponent := by
  rcases Nat.eq_zero_or_pos mantissa with rfl | positive
  · obtain rfl : n = 0 := by simpa using exact
    obtain rfl : exponent = minExponent := by
      obtain ⟨-, -, -, normal⟩ := canonical
      omega
    exact decode_ofScientific_zero false 0
  · apply decode_ofScientific (d := ⟨n, 0⟩) false canonical positive
    have unit : (⟨n, 0⟩ : Decimal).value / 2 ^ exponent = mantissa := by
      simp only [Decimal.value, exact, zpow_zero, mul_one]
      field_simp
    rw [unit]
    exact contains_value exponent positive

theorem ofLiteral_of_chars {text : String} {l : Literal} (written : l.chars = text.toList) :
    ofLiteral text = ofScientific false l.coefficient l.exponent := by
  have span := l.spanNumber_chars Literal.ends_nil
  rw [List.append_nil, written] at span
  rw [ofLiteral, span]

end Numeral

/-! ### Magnitudes of constants -/

/-- The shortest form of a double without its sign. -/
theorem exists_literal_of_shortest {v : Float} {mantissa : Nat} {exponent : Int}
    (magnitude : decode v = .finite false mantissa exponent) :
    ∃ l : Literal, l.chars = (Numeral.shortest v).toList ∧
      decode (Numeral.ofScientific false l.coefficient l.exponent) =
        .finite false mantissa exponent := by
  have canonical := canonical_decode v
  rw [magnitude] at canonical
  simp only [Numeral.shortest, Numeral.write, magnitude]
  rcases Nat.eq_zero_or_pos mantissa with rfl | positive
  · have least : exponent = minExponent := by
      obtain ⟨-, -, -, normal⟩ := canonical
      omega
    refine ⟨⟨['0'], by simp, .zeros 1, some ['0'], by simpa using Digits.zeros 1, none, by simp⟩,
      by simp [Literal.chars, Literal.fractionChars, Literal.powerChars, Decimal.shortest,
        Numeral.layout, Numeral.exact], ?_⟩
    rw [least]
    exact Numeral.decode_ofScientific_zero false _
  · have contained := shortest_contains canonical positive
    have coefficient := (Numeral.leading_bounds canonical positive contained).1
    obtain ⟨l, written, value⟩ := exists_literal_of_layout coefficient
    refine ⟨l, by simpa using written, ?_⟩
    rw [← value] at contained
    exact Numeral.decode_ofScientific (d := ⟨l.coefficient, l.exponent⟩) false canonical positive
      contained

/-- An integral double is its truncation. -/
theorem truncate?_of_isInteger {v : Float} {mantissa : Nat} {exponent : Int}
    (magnitude : decode v = .finite false mantissa exponent) (integral : isInteger v = true) :
    ∃ n : Nat, truncate? v = some (n : Int) ∧ (n : ℚ) = mantissa * 2 ^ exponent := by
  simp only [isInteger, magnitude, Bool.or_eq_true, decide_eq_true_eq, beq_iff_eq] at integral
  simp only [truncate?, magnitude]
  by_cases up : 0 ≤ exponent
  · obtain ⟨k, rfl⟩ := Int.eq_ofNat_of_zero_le up
    exact ⟨mantissa * 2 ^ k, by simp, by push_cast; rfl⟩
  · obtain ⟨k, hk⟩ := Int.eq_ofNat_of_zero_le (a := -exponent) (by omega)
    obtain rfl : exponent = -k := by omega
    have divides : mantissa % 2 ^ k = 0 := by
      rcases integral with nonnegative | divides
      · exact absurd nonnegative up
      · simpa using divides
    obtain ⟨n, rfl⟩ := Nat.dvd_of_mod_eq_zero divides
    refine ⟨n, ?_, ?_⟩
    · simp only [if_neg up, neg_neg, Int.toNat_natCast]
      rw [Nat.mul_div_cancel_left n (by positivity)]
      rfl
    · push_cast
      rw [zpow_neg, zpow_natCast]
      field_simp

/-- The magnitude of a finite double is written as a number that is read as the double. -/
theorem exists_literal_of_magnitudeText {v : Float} {mantissa : Nat} {exponent : Int}
    (magnitude : decode v = .finite false mantissa exponent) :
    ∃ l : Literal, l.chars = (Constant.magnitudeText v).toList ∧
      Numeral.ofLiteral (Constant.magnitudeText v) = v := by
  have canonical := canonical_decode v
  rw [magnitude] at canonical
  suffices ∃ l : Literal, l.chars = (Constant.magnitudeText v).toList ∧
      decode (Numeral.ofScientific false l.coefficient l.exponent) =
        .finite false mantissa exponent by
    obtain ⟨l, written, value⟩ := this
    refine ⟨l, written, decode_inj ?_⟩
    rw [Numeral.ofLiteral_of_chars written, value, magnitude]
  unfold Constant.magnitudeText
  split
  next n truncated =>
    split
    next whole =>
      obtain ⟨n, equal, exact⟩ := truncate?_of_isInteger magnitude (by simp_all)
      obtain rfl := Option.some.inj (truncated.symm.trans equal)
      have sign : ¬ (n : Int) < 0 := by omega
      refine ⟨.ofNat n, ?_, ?_⟩
      · rw [Numeral.ofInt, if_neg sign, Int.natAbs_natCast, Literal.chars_ofNat, Numeral.ofNat,
          String.toList_ofList]
      · rw [Literal.coefficient_ofNat, Literal.exponent_ofNat]
        exact Numeral.decode_ofScientific_of_eq canonical exact
    next => exact exists_literal_of_shortest magnitude
  next => exact exists_literal_of_shortest magnitude

/-- A whole number that is the truncation of an integral double is read as the double. -/
theorem ofLiteral_ofNat {v : Float} {n mantissa : Nat} {exponent : Int}
    (magnitude : decode v = .finite false mantissa exponent) (integral : isInteger v = true)
    (truncated : truncate? v = some (n : Int)) : Numeral.ofLiteral (Numeral.ofNat n) = v := by
  have canonical := canonical_decode v
  rw [magnitude] at canonical
  obtain ⟨k, equal, exact⟩ := truncate?_of_isInteger magnitude integral
  obtain rfl : n = k := by
    have same := Option.some.inj (truncated.symm.trans equal)
    exact_mod_cast same
  have written : (Literal.ofNat n).chars = (Numeral.ofNat n).toList := by
    rw [Literal.chars_ofNat, Numeral.ofNat, String.toList_ofList]
  apply decode_inj
  rw [Numeral.ofLiteral_of_chars written, Literal.coefficient_ofNat, Literal.exponent_ofNat,
    Numeral.decode_ofScientific_of_eq canonical exact, magnitude]

end PrimeSearch
