/-
Module: PrimeSearch.Proofs.Fitness.HalfUp
Purpose: Which whole numbers stay what they are when a half is added and the floor is taken.
Main exports: Binary64.exact_nearest_of_contains, Binary64.exact_nearest_half,
  Binary64.exact_nearest_tie, roundedWhole, roundHalfUp_whole
-/
import PrimeSearch.Proofs.Fitness.PrimeShare

namespace PrimeSearch

/-!
Below `2 ^ 52` the doubles are at most a half apart, so a whole number with a half added is a double,
and its floor is the number again.  From there up to `2 ^ 53` they are the whole numbers, and the sum
is the middle between two of them: it goes to the even one, which is above an odd number on either
side of zero.
-/

namespace Binary64

section
variable {q : ℚ} {mantissa : Nat} {exponent : Int}

/-- The interval of a double with an even mantissa holds its ends. -/
theorem contains_of_even {x : ℚ} (positive : 0 < mantissa) (even : mantissa % 2 = 0)
    (low : (mantissa : ℚ) - 1 / 2 ≤ x) (high : x ≤ mantissa + 1 / 2)
    (sparse : mantissa = 2 ^ 52 → (mantissa : ℚ) - 1 / 4 ≤ x) :
    (Decimal.interval mantissa exponent).Contains (4 * x) := by
  have closed : (Decimal.interval mantissa exponent).closed = true := by simp [Decimal.interval, even]
  have top : ((Decimal.interval mantissa exponent).high : ℚ) = 4 * mantissa + 2 := by
    simp [Decimal.interval]
  have bottom : ((Decimal.interval mantissa exponent).low : ℚ) ≤ 4 * x := by
    simp only [Decimal.interval]
    split
    next boundary =>
      have quarter := sparse boundary.1
      rw [Nat.cast_sub (by omega : 1 ≤ 4 * mantissa)]
      push_cast
      linarith
    next =>
      rw [Nat.cast_sub (by omega)]
      push_cast
      linarith
  rw [Decimal.Interval.Contains, if_pos closed, top]
  exact ⟨bottom, by linarith⟩

/-- A number in the interval of a double is rounded to what the double stands for. -/
theorem exact_nearest_of_contains (canonical : (Value.finite false mantissa exponent).Canonical)
    (positive : 0 < mantissa)
    (contained : (Decimal.interval mantissa exponent).Contains (4 * (|q| / 2 ^ exponent))) :
    exact (nearest q) = (if q < 0 then -1 else 1) * (mantissa * 2 ^ exponent) := by
  rw [← natAbs_num_div_den] at contained
  have value := decode_ofRatio_of_contains (decide (q < 0)) canonical positive q.den_pos contained
  rw [exact, nearest, value, Value.exact]
  simp only [decide_eq_true_eq]

end

/-- Half of a whole number of at most 53 bits is a double. -/
theorem exact_nearest_half {n : Int} (short : n.natAbs < 2 ^ 53) (some : n ≠ 0) :
    exact (nearest (n / 2)) = n / 2 := by
  have positive : 0 < n.natAbs := Int.natAbs_pos.mpr some
  obtain ⟨digits, full, width⟩ := shifted_up positive short
  obtain ⟨shift, amount⟩ : ∃ shift, 52 - n.natAbs.log2 = shift := ⟨_, rfl⟩
  rw [amount] at full width
  have few : shift ≤ 52 := by omega
  have size : |(n : ℚ) / 2| / 2 ^ (-(shift + 1 : Nat) : Int) = (n.natAbs * 2 ^ shift : Nat) := by
    rw [zpow_neg, zpow_natCast, div_inv_eq_mul, abs_div, abs_two, pow_succ, Nat.cast_mul,
      Nat.cast_natAbs, Int.cast_abs]
    push_cast
    ring
  have canonical :
      (Value.finite false (n.natAbs * 2 ^ shift) (-(shift + 1 : Nat) : Int)).Canonical := by
    refine ⟨width, ?_, ?_, .inl full⟩
    · simp only [minExponent]
      omega
    · omega
  have mantissa : 0 < n.natAbs * 2 ^ shift := Nat.mul_pos positive (Nat.two_pow_pos shift)
  rw [exact_nearest_of_contains canonical mantissa (by rw [size]; exact contains_value _ mantissa),
    ← size, div_mul_cancel₀ _ (by positivity)]
  split
  next below => rw [abs_of_neg below, neg_one_mul, neg_neg]
  next above => rw [abs_of_nonneg (not_lt.mp above), one_mul]

/-- Where the doubles are the whole numbers, what lies at most a half from an even one is rounded to
it. -/
theorem exact_nearest_tie {q : ℚ} {t : Int} (even : Even t) (large : 2 ^ 52 ≤ |q|)
    (small : t.natAbs ≤ 2 ^ 53) (near : |q - t| ≤ 1 / 2) : exact (nearest q) = t := by
  have even : t.natAbs % 2 = 0 := Nat.even_iff.mp (Int.natAbs_even.mpr even)
  have size : |(t : ℚ)| = t.natAbs := by rw [← Int.cast_abs, Int.abs_eq_natAbs, Int.cast_natCast]
  obtain ⟨low, high⟩ := abs_le.mp ((abs_abs_sub_abs_le q t).trans near)
  rw [size] at low high
  have full : 2 ^ 52 ≤ t.natAbs := by
    have : (2 : ℚ) ^ 52 < t.natAbs + 1 := by linarith
    exact Nat.lt_succ_iff.mp (by exact_mod_cast this)
  have signed : (if q < 0 then -1 else 1) * (t.natAbs : ℚ) = t := by
    obtain ⟨above, below⟩ := abs_le.mp near
    rw [← size]
    split
    next negative =>
      rw [abs_of_neg negative] at large
      rw [abs_of_neg (by linarith), neg_one_mul, neg_neg]
    next positive =>
      rw [abs_of_nonneg (not_lt.mp positive)] at large
      rw [abs_of_pos (by linarith), one_mul]
  rcases Nat.lt_or_eq_of_le small with short | top
  · -- A unit of the mantissa is one.
    have contained : (Decimal.interval t.natAbs 0).Contains (4 * (|q| / 2 ^ (0 : Int))) := by
      rw [zpow_zero, div_one]
      refine contains_of_even (by omega) even (by linarith) (by linarith) fun least => ?_
      rw [least]
      push_cast
      linarith
    rw [exact_nearest_of_contains ⟨short, by decide, by decide, .inl full⟩ (by omega) contained,
      zpow_zero, mul_one, signed]
  · -- The first double whose unit is two; the doubles below it are a quarter of that away.
    have contained : (Decimal.interval (2 ^ 52) 1).Contains (4 * (|q| / 2 ^ (1 : Int))) := by
      rw [top] at low high
      push_cast at low high
      rw [zpow_one]
      apply contains_of_even (by decide) (by decide) <;> push_cast <;> intros <;> linarith
    rw [exact_nearest_of_contains ⟨by decide, by decide, by decide, .inl le_rfl⟩ (by decide)
      contained, ← signed, top]
    norm_num

end Binary64

/-! ### Rounding whole numbers -/

open Binary64

/-- What a whole number of at most `2 ^ 53` is rounded to: itself, but the number after it where it is
odd and exceeds `2 ^ 52`. -/
def roundedWhole (z : Int) : Int := if 2 ^ 52 < z.natAbs ∧ z % 2 = 1 then z + 1 else z

theorem natAbs_roundedWhole_even {z : Int} (large : 2 ^ 52 < z.natAbs) :
    (roundedWhole z).natAbs % 2 = 0 ∧ 2 < (roundedWhole z).natAbs := by
  unfold roundedWhole
  split <;> omega

/-- The double nearest to a whole number and a half has the rounded number as its floor. -/
theorem floor_nearest_add_half {z : Int} (small : z.natAbs ≤ 2 ^ 53) :
    ⌊exact (nearest (z + 1 / 2))⌋ = roundedWhole z := by
  by_cases dense : -2 ^ 52 ≤ z ∧ z < 2 ^ 52
  · -- The sum is a double.
    have sum : (z : ℚ) + 1 / 2 = ((2 * z + 1 : Int) : ℚ) / 2 := by
      push_cast
      ring
    have kept : roundedWhole z = z := if_neg (by omega)
    rw [sum, exact_nearest_half (by omega) (by omega), ← sum, kept, Int.floor_eq_iff]
    constructor <;> linarith
  · -- The sum is the middle between two doubles, and one of them is even.
    have even : Even (roundedWhole z) := by
      rw [Int.even_iff]
      unfold roundedWhole
      split <;> omega
    have short : (roundedWhole z).natAbs ≤ 2 ^ 53 := by
      unfold roundedWhole
      split <;> omega
    have near : |(z : ℚ) + 1 / 2 - roundedWhole z| ≤ 1 / 2 := by
      unfold roundedWhole
      split
      · push_cast
        norm_num [abs_le]
      · norm_num [abs_le]
    have large : (2 : ℚ) ^ 52 ≤ |(z : ℚ) + 1 / 2| := by
      rw [le_abs]
      rcases Int.lt_or_le z (2 ^ 52) with below | above
      · have : z + 1 ≤ -2 ^ 52 := by omega
        have : (z : ℚ) + 1 ≤ -2 ^ 52 := by exact_mod_cast this
        exact .inr (by linarith)
      · have : (2 : ℚ) ^ 52 ≤ z := by exact_mod_cast above
        exact .inl (by linarith)
    rw [exact_nearest_tie even large short near, Int.floor_intCast]

/-- Rounding keeps a whole number of at most `2 ^ 53` if it is at most `2 ^ 52` or even, and takes any
other one to the number after it.  That is the value at this place of a sample, so beyond `2 ^ 52`
only even numbers, and no primes, are asked about. -/
theorem roundHalfUp_whole {v : Float} {z : Int} (finite : v.isFinite = true) (whole : exact v = z)
    (small : z.natAbs ≤ 2 ^ 53) :
    (roundHalfUp v).isFinite = true ∧ exact (roundHalfUp v) = roundedWhole z ∧
      ((roundHalfUp v == v) = true ↔ z.natAbs ≤ 2 ^ 52 ∨ z % 2 = 0) ∧
      (∀ (share : PrimeShare) (t : Expr) (k : Nat), k < share.sampleSize →
        t.eval (countToFloat (k + 1)) = v → (share.values t)[k]? = some (roundedWhole z)) ∧
      (2 ^ 52 < z.natAbs → ¬ (roundedWhole z).natAbs.Prime) := by
  obtain ⟨sum, finite'⟩ := add_half finite
  obtain ⟨rounded, floored⟩ := floor_spec finite'
  have value : ⌊exact (v + 0.5)⌋ = roundedWhole z := by
    rw [sum, whole, floor_nearest_add_half small]
  refine ⟨rounded, ?_, ?_, fun share t k inside at_k => ?_, fun large prime => ?_⟩
  · rw [roundHalfUp, floored, value]
  · rw [roundHalfUp, beq_iff_exact rounded finite, floored, value, whole, Int.cast_inj, roundedWhole]
    split <;> omega
  · rw [share.values_eq t, List.getElem?_map, List.getElem?_range inside, Option.map_some]
    dsimp only
    rw [at_k, if_pos finite, value]
  · obtain ⟨even, above⟩ := natAbs_roundedWhole_even large
    rcases prime.eq_two_or_odd with two | odd <;> omega

/-- The prime `4503599627370517` lies above `2 ^ 52`, and the number after it is looked at in its
stead. -/
theorem roundHalfUp_whole_above :
    let v : Float := 4503599627370517.0
    v.isFinite = true ∧ exact v = (4503599627370517 : Int) ∧
      (4503599627370517 : Int).natAbs ≤ 2 ^ 53 ∧ (roundHalfUp v == v) = false ∧
      ((PrimeShare.ofNat 1).values (.const v))[0]? = some 4503599627370518 := by
  intro v
  have value : decode v = .finite false 4503599627370517 0 := by decide
  have finite : v.isFinite = true := (isFinite_iff v).mpr ⟨_, _, _, value⟩
  have whole : exact v = (4503599627370517 : Int) := by
    rw [exact, value, Value.exact]
    norm_num
  have small : (4503599627370517 : Int).natAbs ≤ 2 ^ 53 := by decide
  obtain ⟨-, -, same, values, -⟩ := roundHalfUp_whole finite whole small
  refine ⟨finite, whole, small, ?_, values _ _ 0 (by decide) rfl⟩
  rw [Bool.eq_false_iff, ne_eq, same]
  decide

/-- Not every whole number of at most `2 ^ 53` is kept. -/
theorem roundHalfUp_not_exact :
    ¬ ∀ (v : Float) (z : Int), v.isFinite = true → exact v = z → z.natAbs ≤ 2 ^ 53 →
      (roundHalfUp v == v) = true := by
  intro kept
  have value : decode 4503599627370497.0 = .finite false 4503599627370497 0 := by decide
  have same := kept 4503599627370497.0 4503599627370497
    ((isFinite_iff _).mpr ⟨_, _, _, value⟩)
    (by rw [exact, value, Value.exact]; norm_num) (by decide)
  exact absurd same (by decide)

end PrimeSearch
