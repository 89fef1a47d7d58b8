/-
Module: PrimeSearch.Proofs.Number.Shortest
Purpose: The fewest digits of a double lie in its interval, so that they are read back as the
  double.
Main exports: Decimal.value, leadingExponent_le, search_contains, shortest_contains
-/
import PrimeSearch.Proofs.Number.Rounding

namespace PrimeSearch

open Binary64

namespace Decimal

/-!
The search goes through finer and finer grids and takes the first multiple that lies in the
interval.  A grid step below half the interval's width always has such a multiple, and the grid
reaches it within the tries because the leading exponent is not above the value.
-/

/-- The number that a decimal stands for. -/
def value (d : Decimal) : ℚ := d.coefficient * 10 ^ d.exponent

/-! ### Leading exponent -/

theorem shift_pos (num : Nat) {den : Nat} (k : Int) (positive : 0 < den) :
    0 < (shift num den k).2 := by
  unfold shift
  split
  · exact positive
  · exact Nat.mul_pos positive (by positivity)

theorem shift_ratio (num den : Nat) (k : Int) :
    ((shift num den k).1 : ℚ) / (shift num den k).2 = (num : ℚ) / den * 10 ^ k := by
  unfold shift
  split
  next up =>
    obtain ⟨j, rfl⟩ := Int.eq_ofNat_of_zero_le up
    simp only [Int.toNat_natCast, Nat.cast_mul, Nat.cast_pow, Nat.cast_ofNat, zpow_natCast]
    ring
  next down =>
    obtain ⟨j, hj⟩ := Int.eq_ofNat_of_zero_le (a := -k) (by omega)
    obtain rfl : k = -j := by omega
    simp only [neg_neg, Int.toNat_natCast, Nat.cast_mul, Nat.cast_pow, Nat.cast_ofNat, zpow_neg,
      zpow_natCast, ← div_eq_mul_inv, div_div]

/-- Raising an exponent keeps its power of ten at most the quotient. -/
theorem raise_le {num den : Nat} (denominator : 0 < den) (fuel : Nat) {exponent : Int}
    (below : (10 : ℚ) ^ exponent ≤ num / den) :
    (10 : ℚ) ^ raise num den fuel exponent ≤ num / den := by
  induction fuel generalizing exponent with
  | zero => exact below
  | succ fuel ih =>
      unfold raise
      dsimp only
      split
      next higher =>
        apply ih
        have positive := shift_pos num (-(exponent + 1)) denominator
        have positive : (0 : ℚ) < (shift num den (-(exponent + 1))).2 := by exact_mod_cast positive
        have ratio := shift_ratio num den (-(exponent + 1))
        have atLeast : (1 : ℚ) ≤ (num : ℚ) / den * 10 ^ (-(exponent + 1)) := by
          rw [← ratio, le_div_iff₀ positive, one_mul]
          exact_mod_cast higher
        rw [zpow_neg, ← div_eq_mul_inv, le_div_iff₀ (by positivity), one_mul] at atLeast
        exact atLeast
      next => exact below

/-- `30103 / 100000` is the logarithm of two closely enough for every power that occurs. -/
theorem ten_pow_le_two_pow {b t : Nat} (ratio : t * 100000 ≤ b * 30103) (small : b ≤ 2200) :
    10 ^ t ≤ 2 ^ (b + 1) := by
  have step : 10 ^ 59 ≤ 2 ^ 196 := by norm_num
  have powers : (10 ^ t) ^ 59 ≤ (2 ^ (b + 1)) ^ 59 :=
    calc (10 ^ t) ^ 59 = (10 ^ 59) ^ t := by rw [← pow_mul, ← pow_mul, Nat.mul_comm]
      _ ≤ (2 ^ 196) ^ t := Nat.pow_le_pow_left step t
      _ = 2 ^ (196 * t) := by rw [← pow_mul]
      _ ≤ 2 ^ ((b + 1) * 59) := Nat.pow_le_pow_right (by norm_num) (by omega)
      _ = (2 ^ (b + 1)) ^ 59 := by rw [← pow_mul]
  exact (Nat.pow_le_pow_iff_left (by norm_num)).mp powers

theorem two_pow_le_ten_pow {b s : Nat} (ratio : b * 30103 ≤ s * 100000) (small : b ≤ 2200) :
    2 ^ b ≤ 10 ^ (s + 1) := by
  have step : 2 ^ 93 ≤ 10 ^ 28 := by norm_num
  have powers : (2 ^ b) ^ 28 ≤ (10 ^ (s + 1)) ^ 28 :=
    calc (2 ^ b) ^ 28 = 2 ^ (b * 28) := by rw [← pow_mul]
      _ ≤ 2 ^ (93 * (s + 1)) := Nat.pow_le_pow_right (by norm_num) (by omega)
      _ = (2 ^ 93) ^ (s + 1) := by rw [← pow_mul]
      _ ≤ (10 ^ 28) ^ (s + 1) := Nat.pow_le_pow_left step _
      _ = (10 ^ (s + 1)) ^ 28 := by rw [← pow_mul, ← pow_mul, Nat.mul_comm]
  exact (Nat.pow_le_pow_iff_left (by norm_num)).mp powers

theorem two_zpow_le_ten_zpow {b s : Nat} (ratio : b * 30103 ≤ s * 100000) (small : b ≤ 2200) :
    (2 : ℚ) ^ (b : Int) ≤ 10 ^ ((s : Int) + 1) := by
  rw [← Nat.cast_succ, zpow_natCast, zpow_natCast]
  exact_mod_cast two_pow_le_ten_pow ratio small

/-- A binary exponent converted to a decimal one, and lowered by one for the error of the
conversion. -/
theorem ten_zpow_le_two_zpow {b : Int} (low : -2200 ≤ b) (high : b ≤ 2200) :
    (10 : ℚ) ^ (Int.fdiv (b * 30103) 100000 - 1) ≤ 2 ^ b := by
  rw [Int.fdiv_eq_ediv_of_nonneg _ (by norm_num)]
  rcases le_total 0 b with up | down
  · obtain ⟨n, rfl⟩ := Int.eq_ofNat_of_zero_le up
    obtain ⟨t, conversion⟩ := Int.eq_ofNat_of_zero_le (a := (n : Int) * 30103 / 100000) (by omega)
    have bound : (10 : ℚ) ^ t ≤ 2 ^ (n + 1) := by
      exact_mod_cast ten_pow_le_two_pow (b := n) (t := t) (by omega) (by omega)
    rw [conversion, zpow_sub_one₀ (by norm_num), zpow_natCast, zpow_natCast]
    rw [pow_succ] at bound
    have : (0 : ℚ) < 10 ^ t := by positivity
    linarith
  · obtain ⟨n, hn⟩ := Int.eq_ofNat_of_zero_le (a := -b) (by omega)
    obtain rfl : b = -n := by omega
    obtain ⟨s, conversion⟩ := Int.eq_ofNat_of_zero_le (a := -(-(n : Int) * 30103 / 100000))
      (by omega)
    rw [show -(n : Int) * 30103 / 100000 - 1 = -((s : Int) + 1) by omega, zpow_neg, zpow_neg]
    exact inv_anti₀ (by positivity) (two_zpow_le_ten_zpow (by omega) (by omega))

/-- The power of ten of the leading exponent is at most the quotient. -/
theorem leadingExponent_le {num den : Nat} (numerator : 0 < num) (denominator : 0 < den)
    (numSmall : num.log2 ≤ 1100) (denSmall : den.log2 ≤ 1100) :
    (10 : ℚ) ^ leadingExponent num den ≤ num / den := by
  unfold leadingExponent
  apply raise_le denominator
  have binary := (ratio_bounds numerator denominator).1
  refine le_trans (le_trans ?_ (ten_zpow_le_two_zpow ?_ ?_)) binary
  · exact zpow_le_zpow_right₀ (by norm_num) (by omega)
  · omega
  · omega

/-! ### Search -/

theorem Interval.holds_of_pick {i : Interval} {grid unit k : Nat}
    (picked : i.pick grid unit = some k) : i.holds grid unit k = true := by
  unfold Interval.pick at picked
  dsimp only at picked
  split at picked
  next => cases picked
  next below _ =>
    cases picked
    exact below
  next _ above =>
    cases picked
    exact above
  next below above =>
    split at picked
    · cases picked
      exact below
    · split at picked
      · cases picked
        exact above
      · cases picked
        rcases Nat.mod_two_eq_zero_or_one (i.value * unit / grid) with even | odd
        · rw [even]
          exact below
        · rw [odd]
          exact above

theorem Interval.contains_of_holds {i : Interval} {grid unit k : Nat} {x : ℚ}
    (positive : 0 < unit) (value : x = k * grid / unit) (held : i.holds grid unit k = true) :
    i.Contains x := by
  have unitPositive : (0 : ℚ) < unit := by exact_mod_cast positive
  unfold Interval.holds at held
  unfold Interval.Contains
  split at held
  next closed =>
    simp only [Bool.and_eq_true, decide_eq_true_eq] at held
    rw [if_pos closed, value, le_div_iff₀ unitPositive, div_le_iff₀ unitPositive]
    exact_mod_cast held
  next notClosed =>
    simp only [Bool.and_eq_true, decide_eq_true_eq] at held
    rw [if_neg notClosed, value, lt_div_iff₀ unitPositive, div_lt_iff₀ unitPositive]
    exact_mod_cast held

/-- A grid that is finer than the upper half of the interval has a multiple in it. -/
theorem Interval.pick_ne_none {i : Interval} {grid unit : Nat} (positive : 0 < grid)
    (ordered : i.low ≤ i.value) (fine : i.value * unit + grid < i.high * unit) :
    i.pick grid unit ≠ none := by
  have above : i.holds grid unit (i.value * unit / grid + 1) = true := by
    have quotient := Nat.div_add_mod (i.value * unit) grid
    have rest := Nat.mod_lt (i.value * unit) positive
    have product : (i.value * unit / grid + 1) * grid = i.value * unit / grid * grid + grid :=
      Nat.add_one_mul _ _
    have lowEnd := Nat.mul_le_mul_right unit ordered
    rw [Nat.mul_comm grid] at quotient
    unfold Interval.holds
    split <;> simp only [Bool.and_eq_true, decide_eq_true_eq] <;> omega
  unfold Interval.pick
  dsimp only
  rw [above]
  split
  next contradiction => cases contradiction
  next => simp
  next => simp
  next =>
    split
    · simp
    · split <;> simp

/-- Grid step and interval unit of a search, over a common denominator. -/
def gridStep (exponent power : Int) : Nat :=
  (if 0 ≤ power then 10 ^ power.toNat else 1) * (if 0 ≤ exponent then 1 else 2 ^ (-exponent).toNat)

def gridUnit (exponent power : Int) : Nat :=
  (if 0 ≤ power then 1 else 10 ^ (-power).toNat) * (if 0 ≤ exponent then 2 ^ exponent.toNat else 1)

theorem search_succ (i : Interval) (exponent power : Int) (fuel : Nat) :
    search i exponent power (fuel + 1) =
      match i.pick (gridStep exponent power) (gridUnit exponent power) with
      | some k => ⟨k, power⟩
      | none => search i exponent (power - 1) fuel :=
  rfl

theorem gridStep_pos (exponent power : Int) : 0 < gridStep exponent power := by
  unfold gridStep
  split <;> split <;> positivity

theorem gridUnit_pos (exponent power : Int) : 0 < gridUnit exponent power := by
  unfold gridUnit
  split <;> split <;> positivity

/-- Splitting an integral power over numerator and denominator. -/
theorem split_zpow (base : ℚ) (k : Int) :
    (if 0 ≤ k then base ^ k.toNat else 1) / (if 0 ≤ k then 1 else base ^ (-k).toNat) =
      base ^ k := by
  split
  next up =>
    obtain ⟨j, rfl⟩ := Int.eq_ofNat_of_zero_le up
    simp
  next down =>
    obtain ⟨j, hj⟩ := Int.eq_ofNat_of_zero_le (a := -k) (by omega)
    obtain rfl : k = -j := by omega
    simp

theorem grid_ratio (exponent power : Int) :
    (gridStep exponent power : ℚ) / gridUnit exponent power = 10 ^ power / 2 ^ exponent := by
  have tens := split_zpow 10 power
  have twos := split_zpow 2 exponent
  unfold gridStep gridUnit
  push_cast
  rw [mul_div_mul_comm, tens, ← inv_div, twos, ← div_eq_mul_inv]

theorem contains_of_pick {i : Interval} {exponent power : Int} {k : Nat}
    (picked : i.pick (gridStep exponent power) (gridUnit exponent power) = some k) :
    i.Contains ((⟨k, power⟩ : Decimal).value / 2 ^ exponent) := by
  apply Interval.contains_of_holds (gridUnit_pos exponent power) _ (Interval.holds_of_pick picked)
  rw [mul_div_assoc, grid_ratio, value, mul_div_assoc]

/-- If a fine enough grid comes within the tries, the search ends inside the interval. -/
theorem search_contains {i : Interval} (exponent : Int) (ordered : i.low ≤ i.value)
    (proper : i.value + 2 ≤ i.high) (fuel : Nat) {power : Int}
    (fine : (10 : ℚ) ^ (power - fuel) < 2 * 2 ^ exponent) :
    i.Contains ((search i exponent power (fuel + 1)).value / 2 ^ exponent) := by
  induction fuel generalizing power with
  | zero =>
      rw [search_succ]
      cases picked : i.pick (gridStep exponent power) (gridUnit exponent power) with
      | some k => exact contains_of_pick picked
      | none =>
          exfalso
          have step : gridStep exponent power < 2 * gridUnit exponent power := by
            have unitPositive : (0 : ℚ) < gridUnit exponent power := by
              exact_mod_cast gridUnit_pos exponent power
            have ratio : (gridStep exponent power : ℚ) / gridUnit exponent power < 2 := by
              rw [grid_ratio, div_lt_iff₀ (by positivity)]
              simpa using fine
            rw [div_lt_iff₀ unitPositive] at ratio
            exact_mod_cast ratio
          have wide := Nat.mul_le_mul_right (gridUnit exponent power) proper
          rw [Nat.add_mul] at wide
          exact Interval.pick_ne_none (gridStep_pos exponent power) ordered (by omega) picked
  | succ fuel ih =>
      rw [search_succ]
      cases picked : i.pick (gridStep exponent power) (gridUnit exponent power) with
      | some k => exact contains_of_pick picked
      | none =>
          apply ih
          rw [show power - 1 - (fuel : Int) = power - (fuel + 1 : Nat) by push_cast; ring]
          exact fine

/-! ### Trailing zeros -/

/-- Dropping trailing zeros keeps the number. -/
theorem trimZeros_value (fuel : Nat) (d : Decimal) : (trimZeros fuel d).value = d.value := by
  induction fuel generalizing d with
  | zero => rfl
  | succ fuel ih =>
      unfold trimZeros
      split
      next zero =>
        rw [ih]
        obtain ⟨c, hc⟩ : ∃ c, d.coefficient = 10 * c := ⟨d.coefficient / 10, by omega⟩
        simp only [value, hc]
        rw [Nat.mul_div_cancel_left _ (by norm_num), zpow_add_one₀ (by norm_num)]
        push_cast
        ring
      next => rfl

theorem ratio_eq (mantissa : Nat) (exponent : Int) :
    ((ratio mantissa exponent).1 : ℚ) / (ratio mantissa exponent).2 = mantissa * 2 ^ exponent := by
  unfold ratio
  split
  next up =>
    obtain ⟨k, rfl⟩ := Int.eq_ofNat_of_zero_le up
    simp
  next down =>
    obtain ⟨k, hk⟩ := Int.eq_ofNat_of_zero_le (a := -exponent) (by omega)
    obtain rfl : exponent = -k := by omega
    simp [div_eq_mul_inv]

/-- Both parts of the quotient of a double are positive and have at most 1100 bits. -/
theorem ratio_bits {mantissa : Nat} {exponent : Int}
    (canonical : (Value.finite false mantissa exponent).Canonical) (positive : 0 < mantissa) :
    (0 < (ratio mantissa exponent).1 ∧ (ratio mantissa exponent).1.log2 ≤ 1100) ∧
      (0 < (ratio mantissa exponent).2 ∧ (ratio mantissa exponent).2.log2 ≤ 1100) := by
  obtain ⟨width, least, greatest, -⟩ := canonical
  simp only [minExponent] at least
  unfold ratio
  split
  next up =>
    obtain ⟨k, rfl⟩ := Int.eq_ofNat_of_zero_le up
    have numPositive : 0 < mantissa * 2 ^ k := by positivity
    have numBits : mantissa * 2 ^ k < 2 ^ (53 + k) := by
      rw [pow_add]
      exact Nat.mul_lt_mul_of_pos_right width (by positivity)
    have numBits := (Nat.log2_lt numPositive.ne').mpr numBits
    simp only [Int.toNat_natCast]
    exact ⟨⟨numPositive, by omega⟩, Nat.one_pos, Nat.zero_le _⟩
  next down =>
    have numBits := (Nat.log2_lt positive.ne').mpr width
    simp only [Nat.log2_two_pow]
    exact ⟨⟨positive, by omega⟩, by positivity, by omega⟩

/-- The fewest digits of a double lie in its interval. -/
theorem shortest_contains {mantissa : Nat} {exponent : Int}
    (canonical : (Value.finite false mantissa exponent).Canonical) (positive : 0 < mantissa) :
    (interval mantissa exponent).Contains
      (4 * ((shortest mantissa exponent).value / 2 ^ exponent)) := by
  obtain ⟨⟨numPositive, numBits⟩, denPositive, denBits⟩ := ratio_bits canonical positive
  have leading := leadingExponent_le numPositive denPositive numBits denBits
  rw [ratio_eq] at leading
  have width : (mantissa : ℚ) < 2 ^ 53 := by exact_mod_cast canonical.1
  have scale : (0 : ℚ) < 2 ^ exponent := by positivity
  have quarter : (2 : ℚ) ^ (exponent - 2) = 2 ^ exponent / 4 := by
    rw [zpow_sub₀ two_ne_zero]
    norm_num
  unfold shortest
  rw [if_neg positive.ne']
  dsimp only
  rw [trimZeros_value]
  generalize leadingExponent _ _ = power at *
  have fine : (10 : ℚ) ^ (power - (19 : Nat)) < 2 * 2 ^ (exponent - 2) := by
    rw [zpow_sub₀ (by norm_num), quarter, div_lt_iff₀ (by norm_num)]
    norm_num
    nlinarith
  have found := search_contains (i := interval mantissa exponent) (exponent - 2)
    (Nat.sub_le _ _) (le_refl _) 19 fine
  rw [quarter] at found
  convert found using 1
  field_simp

end Decimal

end PrimeSearch
