/-
Module: PrimeSearch.Proofs.Number.Notation
Purpose: Which doubles are written with a power of ten.
Main exports: Decimal.leading, Constant.hasPower, nearest_shortest, shortest_lt_iff,
  leading_shortest_iff, hasPower_eq_false
-/
import PrimeSearch.Proofs.Number.Nearest
import PrimeSearch.Proofs.Number.Reading

namespace PrimeSearch

open Binary64

/-!
Where the first digit of a double stands is a question about the decimal with the fewest digits,
not about the double, which need not be on the same side of a power of ten.  But the decimals are
in the order of the doubles, because each is rounded to its double and rounding keeps the order.
So the bounds of the positional form are doubles, too: those with the bounds as their decimals.
-/

namespace Constant

/-- Whether a magnitude is written with a power of ten. -/
def hasPower (v : Float) : Bool :=
  decide (0.0 < v) && decide (v < 0.0001) || decide (integerLimit ≤ v)

end Constant

namespace Decimal

/-- The power of ten of the first digit. -/
def leading (d : Decimal) : Int := d.exponent + (digits d.coefficient).length - 1

/-- The first digit stands below a power of ten if the number does. -/
theorem leading_lt_iff {d : Decimal} (positive : 0 < d.coefficient) (k : Int) :
    d.leading < k ↔ d.value < 10 ^ k := by
  obtain ⟨low, high⟩ := Numeral.digits_bounds positive
  have power : (0 : ℚ) < 10 ^ d.exponent := by positivity
  constructor
  · intro below
    calc d.value < 10 ^ ((digits d.coefficient).length : Int) * 10 ^ d.exponent :=
          mul_lt_mul_of_pos_right high power
      _ = 10 ^ ((digits d.coefficient).length + d.exponent) :=
          (zpow_add₀ (by norm_num) _ _).symm
      _ ≤ 10 ^ k := by
          apply zpow_le_zpow_right₀ (by norm_num)
          rw [leading] at below
          omega
  · intro below
    have reached : (10 : ℚ) ^ (((digits d.coefficient).length : Int) - 1 + d.exponent) < 10 ^ k :=
      calc (10 : ℚ) ^ (((digits d.coefficient).length : Int) - 1 + d.exponent)
          = 10 ^ (((digits d.coefficient).length : Int) - 1) * 10 ^ d.exponent :=
            zpow_add₀ (by norm_num) _ _
        _ ≤ d.value := mul_le_mul_of_nonneg_right low power.le
        _ < 10 ^ k := below
    rw [zpow_lt_zpow_iff_right₀ (by norm_num)] at reached
    rw [leading]
    omega

section
variable {x y : Float} {mantissa mantissa' : Nat} {exponent exponent' : Int}

/-- The fewest digits of a positive double are rounded to it. -/
theorem nearest_shortest (magnitude : decode x = .finite false mantissa exponent)
    (positive : 0 < mantissa) : nearest (shortest mantissa exponent).value = x := by
  have canonical := canonical_decode x
  rw [magnitude] at canonical
  have contained := shortest_contains canonical positive
  have nonnegative : 0 ≤ (shortest mantissa exponent).value := by
    rw [value]
    positivity
  apply decode_inj
  rw [magnitude, nearest, decide_eq_false nonnegative.not_gt]
  apply decode_ofRatio_of_contains false canonical positive (Rat.den_pos _)
  rwa [natAbs_num_div_den, abs_of_nonneg nonnegative]

/-- The fewest digits of positive doubles are in the order of the doubles. -/
theorem shortest_lt_iff (magnitude : decode x = .finite false mantissa exponent)
    (positive : 0 < mantissa) (magnitude' : decode y = .finite false mantissa' exponent')
    (positive' : 0 < mantissa') :
    (shortest mantissa exponent).value < (shortest mantissa' exponent').value ↔ x < y := by
  have finite : x.isFinite = true := (isFinite_iff x).mpr ⟨_, _, _, magnitude⟩
  have finite' : y.isFinite = true := (isFinite_iff y).mpr ⟨_, _, _, magnitude'⟩
  rw [lt_iff_exact finite finite']
  constructor
  · intro below
    have order := nearest_le_nearest below.le
    rw [nearest_shortest magnitude positive, nearest_shortest magnitude' positive',
      le_iff_exact finite finite'] at order
    refine lt_of_le_of_ne order fun same => ?_
    have equal : x = y := by
      rw [← nearest_exact magnitude positive, same, nearest_exact magnitude' positive']
    rw [equal, magnitude'] at magnitude
    cases magnitude
    exact below.false
  · intro below
    by_contra above
    have order := nearest_le_nearest (not_lt.mp above)
    rw [nearest_shortest magnitude positive, nearest_shortest magnitude' positive',
      le_iff_exact finite' finite] at order
    exact below.not_ge order

/-- The least double of the positional form has a power of ten as its decimal. -/
theorem value_leastPositional :
    decode 0.0001 = .finite false 7378697629483821 (-66) ∧
      (shortest 7378697629483821 (-66)).value = 10 ^ Numeral.exact.leastPositional := by
  refine ⟨by decide, ?_⟩
  rw [show shortest 7378697629483821 (-66) = ⟨1, -4⟩ by decide +kernel]
  norm_num [value, Numeral.exact]

/-- So has the first double above it that is not of this form. -/
theorem value_firstScientific :
    decode Constant.integerLimit = .finite false 5000000000000000 1 ∧
      (shortest 5000000000000000 1).value = 10 ^ Numeral.exact.firstScientific := by
  refine ⟨by decide, ?_⟩
  rw [show shortest 5000000000000000 1 = ⟨1, 16⟩ by decide +kernel]
  norm_num [value, Numeral.exact]

/-- The first digit of a positive double stands within the bounds of the positional form unless
the double is written with a power of ten. -/
theorem leading_shortest_iff (magnitude : decode x = .finite false mantissa exponent)
    (positive : 0 < mantissa) :
    Numeral.exact.leastPositional ≤ (shortest mantissa exponent).leading ∧
      (shortest mantissa exponent).leading < Numeral.exact.firstScientific ↔
    Constant.hasPower x = false := by
  have canonical := canonical_decode x
  rw [magnitude] at canonical
  have coefficient :=
    (Numeral.leading_bounds canonical positive (shortest_contains canonical positive)).1
  obtain ⟨low, lowDigits⟩ := value_leastPositional
  obtain ⟨high, highDigits⟩ := value_firstScientific
  have finite : x.isFinite = true := (isFinite_iff x).mpr ⟨_, _, _, magnitude⟩
  have finiteLimit : Constant.integerLimit.isFinite = true := (isFinite_iff _).mpr ⟨_, _, _, high⟩
  have above : 0.0 < x := by
    rw [lt_iff_exact (by decide) finite, exact_zero, exact, magnitude, Value.exact]
    simp only [Bool.false_eq_true, if_false, one_mul]
    positivity
  have atMost : Constant.integerLimit ≤ x ↔ ¬ x < Constant.integerLimit := by
    rw [le_iff_exact finiteLimit finite, lt_iff_exact finite finiteLimit, not_lt]
  rw [← not_lt, leading_lt_iff coefficient, leading_lt_iff coefficient, ← lowDigits, ← highDigits,
    shortest_lt_iff magnitude positive low (by norm_num),
    shortest_lt_iff magnitude positive high (by norm_num)]
  simp [Constant.hasPower, above, atMost]

end

end Decimal

namespace Constant

/-- No whole number below the limit is written with a power of ten. -/
theorem hasPower_eq_false {v : Float} {mantissa : Nat} {exponent : Int}
    (magnitude : decode v = .finite false mantissa exponent) (whole : isInteger v = true)
    (below : v < integerLimit) : hasPower v = false := by
  have finite : v.isFinite = true := (isFinite_iff v).mpr ⟨_, _, _, magnitude⟩
  have finiteLimit : integerLimit.isFinite = true := by decide
  obtain ⟨n, -, value⟩ := truncate?_of_isInteger magnitude whole
  have number : exact v = n := by
    rw [exact, magnitude, Value.exact, value]
    simp
  have low : exact 0.0001 < 1 := by
    rw [exact, Decimal.value_leastPositional.1, Value.exact]
    norm_num
  have notSmall : ¬ (0.0 < v ∧ v < 0.0001) := by
    rw [lt_iff_exact (by decide) finite, lt_iff_exact finite (by decide), exact_zero, number]
    rintro ⟨above, small⟩
    have one : (1 : ℚ) ≤ n := by exact_mod_cast (by exact_mod_cast above : 0 < n)
    linarith
  have notLarge : ¬ integerLimit ≤ v := by
    rw [le_iff_exact finiteLimit finite, not_le]
    exact (lt_iff_exact finite finiteLimit).mp below
  simpa [hasPower, notLarge] using notSmall

end Constant

end PrimeSearch
