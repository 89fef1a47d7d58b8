/-
Module: PrimeSearch.Proofs.Number.Floor
Purpose: What the floor of a double stands for, and doubles that stand for whole numbers.
Main exports: Binary64.abs_exact_le, isFinite_nearest, add_half, floor_spec, truncate?_of_exact
-/
import Mathlib.Data.Rat.Floor
import PrimeSearch.Proofs.Number.Arithmetic

namespace PrimeSearch

namespace Binary64

/-!
The floor of a finite double is a double again, so nothing is rounded when it is taken.  The only step
that rounds on the way to the nearest whole number is the sum with a half before it.
-/

section
variable {x : Float}

/-! ### Finite doubles -/

/-- The greatest number that a finite double stands for. -/
def greatest : Nat := (2 ^ 53 - 1) * 2 ^ 971

/-- No number stands for more than the greatest one. -/
theorem abs_exact_le (x : Float) : |exact x| ≤ greatest := by
  by_cases none : exact x = 0
  · rw [none, abs_zero]
    exact Nat.cast_nonneg _
  obtain ⟨negative, mantissa, exponent, value, positive⟩ := exists_decode_of_exact_ne_zero none
  have canonical := canonical_decode x
  rw [value] at canonical
  obtain ⟨width, -, top, -⟩ := canonical
  have fits : (mantissa : ℚ) ≤ 2 ^ 53 - 1 := by
    have : (mantissa : ℚ) + 1 ≤ 2 ^ 53 := by exact_mod_cast width
    linarith
  have power : (2 : ℚ) ^ exponent ≤ 2 ^ (971 : Int) := zpow_le_zpow_right₀ (by norm_num) top
  rw [(exact_of_decode value positive).1]
  calc (mantissa : ℚ) * 2 ^ exponent ≤ (2 ^ 53 - 1) * 2 ^ (971 : Int) :=
        mul_le_mul fits power (by positivity) (by norm_num)
    _ = greatest := by
        rw [greatest, Nat.cast_mul, Nat.cast_pow, Nat.cast_ofNat, ← zpow_natCast]
        norm_num

theorem isFinite_of_magnitude (number : decode x ≠ .nan)
    (below : (decode x).magnitude < infinityBits) : x.isFinite = true := by
  rw [isFinite_iff]
  cases value : decode x with
  | nan => exact absurd value number
  | infinite negative =>
      rw [value] at below
      exact absurd below (Nat.lt_irrefl _)
  | finite negative mantissa exponent => exact ⟨_, _, _, rfl⟩

/-- What exceeds the greatest number by one at most is not rounded to infinity. -/
theorem isFinite_nearest {q : ℚ} (atMost : |q| ≤ greatest + 1) : (nearest q).isFinite = true := by
  obtain ⟨number, size, -⟩ := nearest_spec q
  refine isFinite_of_magnitude number ?_
  have top : magnitudeOfRatio (greatest + 1) 1 < infinityBits := by decide +kernel
  rw [size]
  refine lt_of_le_of_lt (magnitudeOfRatio_mono q.den_pos Nat.one_pos ?_) top
  rw [natAbs_num_div_den]
  push_cast
  rwa [div_one]

theorem exact_half : (0.5 : Float).isFinite = true ∧ exact 0.5 = 1 / 2 := by
  have value : decode 0.5 = .finite false (2 ^ 52) (-53) := by decide
  refine ⟨(isFinite_iff _).mpr ⟨_, _, _, value⟩, ?_⟩
  rw [exact, value, Value.exact]
  norm_num

/-- With a half added, a finite double is the double nearest to the sum, which is finite. -/
theorem add_half (finite : x.isFinite = true) :
    x + 0.5 = nearest (exact x + 1 / 2) ∧ (x + 0.5).isFinite = true := by
  obtain ⟨finite', half⟩ := exact_half
  have sum : x + 0.5 = nearest (exact x + 1 / 2) := by
    rw [add_eq_nearest finite finite' (.inr (by rw [half]; norm_num)), half]
  refine ⟨sum, ?_⟩
  rw [sum]
  apply isFinite_nearest
  have size := abs_add_le (exact x) (1 / 2)
  have most := abs_exact_le x
  rw [abs_of_pos (one_half_pos : (0 : ℚ) < 1 / 2)] at size
  linarith

/-! ### Whole parts -/

/-- A finite double with a fraction is a quotient by a power of two. -/
theorem exact_of_decode_neg {negative : Bool} {mantissa k : Nat}
    (value : decode x = .finite negative mantissa (-k)) :
    exact x = ((if negative then -(mantissa : Int) else mantissa : Int) : ℚ) / (2 ^ k : Nat) := by
  rw [exact, value, Value.exact, zpow_neg, zpow_natCast]
  cases negative <;> simp [div_eq_mul_inv]

theorem exact_of_decode_nat {negative : Bool} {mantissa k : Nat}
    (value : decode x = .finite negative mantissa k) :
    exact x = ((if negative then -((mantissa * 2 ^ k : Nat) : Int) else (mantissa * 2 ^ k : Nat) :
      Int) : ℚ) := by
  rw [exact, value, Value.exact, zpow_natCast]
  cases negative <;> simp

/-- A quotient that leaves a rest goes down to the next whole number: away from zero below it. -/
theorem ediv_signed {m d : Nat} (positive : 0 < d) (rest : m % d ≠ 0) (negative : Bool) :
    ofRatio negative (m / d + if negative then 1 else 0) 1 =
      ofInt ((if negative then -(m : Int) else m) / d) := by
  cases negative with
  | false =>
      rw [ofInt, if_neg Bool.false_ne_true, if_neg Bool.false_ne_true, ← Int.natCast_ediv,
        decide_eq_false (Int.natCast_nonneg _).not_gt, Int.natAbs_natCast, Nat.add_zero]
  | true =>
      have divides : ¬ (d : Int) ∣ m := by
        rw [Int.natCast_dvd_natCast, Nat.dvd_iff_mod_eq_zero]
        exact rest
      have quotient : -(m : Int) / d = -((m / d + 1 : Nat) : Int) := by
        rw [Int.neg_ediv, if_neg divides, Int.sign_natCast_of_ne_zero positive.ne']
        push_cast
        omega
      have below : -((m / d + 1 : Nat) : Int) < 0 :=
        Int.neg_neg_of_pos (Int.natCast_pos.mpr (Nat.succ_pos _))
      rw [ofInt, if_pos rfl, if_pos rfl, quotient, decide_eq_true below, Int.natAbs_neg,
        Int.natAbs_natCast]

/-- The floor of a finite double stands for the floor of what the double stands for. -/
theorem floor_spec (finite : x.isFinite = true) :
    (floor x).isFinite = true ∧ exact (floor x) = ⌊exact x⌋ := by
  obtain ⟨negative, mantissa, exponent, value⟩ := (isFinite_iff x).mp finite
  have width : mantissa < 2 ^ 53 := by
    have canonical := canonical_decode x
    rw [value] at canonical
    exact canonical.1
  rw [floor, value]
  dsimp only
  by_cases up : 0 ≤ exponent
  · obtain ⟨k, rfl⟩ := Int.eq_ofNat_of_zero_le up
    rw [if_pos up, exact_of_decode_nat value, Int.floor_intCast]
    exact ⟨finite, rfl⟩
  obtain ⟨k, amount⟩ := Int.eq_ofNat_of_zero_le (a := -exponent) (by omega)
  obtain rfl : exponent = -k := by omega
  have number := exact_of_decode_neg value
  have whole : ⌊exact x⌋ = (if negative then -(mantissa : Int) else mantissa) / (2 ^ k : Nat) := by
    rw [number, Rat.floor_intCast_div_natCast]
  rw [if_neg up, neg_neg, Int.toNat_natCast]
  split
  next divides =>
    obtain ⟨n, rfl⟩ := Nat.dvd_of_mod_eq_zero divides
    have signed : (if negative then -((2 ^ k * n : Nat) : Int) else (2 ^ k * n : Nat)) =
        (2 ^ k : Nat) * if negative then -(n : Int) else n := by
      cases negative <;> simp
    have unit : ((2 ^ k : Nat) : Int) ≠ 0 := by positivity
    rw [signed] at number whole
    rw [Int.mul_ediv_cancel_left _ unit] at whole
    refine ⟨finite, ?_⟩
    rw [whole, number, Int.cast_mul, Int.cast_natCast,
      mul_div_cancel_left₀ _ (by positivity : ((2 ^ k : Nat) : ℚ) ≠ 0)]
  next rest =>
    rw [ediv_signed (Nat.two_pow_pos k) rest, ← whole]
    have small : ⌊exact x⌋.natAbs ≤ 2 ^ 53 := by
      rw [whole]
      refine (Int.natAbs_ediv_le_natAbs _ _).trans (le_trans (le_of_eq ?_) width.le)
      cases negative <;> simp
    obtain ⟨finite', exactly, -⟩ := ofInt_spec small
    exact ⟨finite', exactly⟩

/-- A finite double that stands for a whole number is truncated to it. -/
theorem truncate?_of_exact {z : Int} (finite : x.isFinite = true) (whole : exact x = z) :
    truncate? x = some z := by
  obtain ⟨negative, mantissa, exponent, value⟩ := (isFinite_iff x).mp finite
  rw [truncate?, value]
  dsimp only
  by_cases up : 0 ≤ exponent
  · obtain ⟨k, rfl⟩ := Int.eq_ofNat_of_zero_le up
    rw [exact_of_decode_nat value, Int.cast_inj] at whole
    rw [if_pos up, Int.toNat_natCast, whole]
  obtain ⟨k, amount⟩ := Int.eq_ofNat_of_zero_le (a := -exponent) (by omega)
  obtain rfl : exponent = -k := by omega
  rw [exact_of_decode_neg value, div_eq_iff (by positivity)] at whole
  have whole : (if negative then -(mantissa : Int) else mantissa) = z * (2 ^ k : Nat) := by
    exact_mod_cast whole
  have size : mantissa = z.natAbs * 2 ^ k := by
    rw [← Int.natAbs_natCast (2 ^ k), ← Int.natAbs_mul, ← whole]
    cases negative <;> simp
  have unit : (0 : Int) < (2 ^ k : Nat) := by positivity
  rw [if_neg up, neg_neg, Int.toNat_natCast, size, Nat.mul_div_cancel _ (Nat.two_pow_pos k)]
  congr 1
  cases negative with
  | false =>
      have above : 0 ≤ z := by
        rw [← mul_nonneg_iff_of_pos_right unit, ← whole]
        exact Int.natCast_nonneg mantissa
      exact Int.natAbs_of_nonneg above
  | true =>
      have below : 0 ≤ -z := by
        rw [← mul_nonneg_iff_of_pos_right unit, neg_mul, ← whole, if_pos rfl, neg_neg]
        exact Int.natCast_nonneg mantissa
      rw [if_pos rfl, Int.ofNat_natAbs_of_nonpos (by omega), neg_neg]

end

end Binary64

end PrimeSearch
