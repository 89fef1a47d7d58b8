/-
Module: PrimeSearch.Proofs.Number.Doubling
Purpose: A double of moderate size can be doubled.
Main exports: decode_mul_two, decode_of_lt, decode_ofRatio_one, decode_ofInt,
  decode_mul_two_of_le
-/
import PrimeSearch.Proofs.Number.Difference
import PrimeSearch.Proofs.Number.Rounding

namespace PrimeSearch

open Float.Model

namespace Binary64

/-!
Doubling a double rounds the product of two mantissas.  How it is rounded does not matter here: the
exponent of the result is at most a little greater than those of the factors, so the result is finite
when they are moderate.
-/

/-- Not below zero in the logical model, with an exponent that leaves room below infinity. -/
def Moderate (u : UnpackedFloat) : Prop :=
  u = .zero .positive ∨
    ∃ mantissa exponent positive, u = .finite .positive mantissa exponent positive ∧ exponent ≤ 970

theorem roundedMantissa_le (m : UnpackedFloat.ExtendedMantissa) :
    m.roundedMantissa ≤ m.mantissa + 1 := by
  unfold UnpackedFloat.ExtendedMantissa.roundedMantissa
  rcases m.accuracy with _ | _ | _ | _
  · exact Nat.le_succ _
  · exact Nat.le_succ _
  · exact Nat.add_le_add_left (Nat.le_of_lt_succ (Nat.mod_lt _ Nat.two_pos)) _
  · exact Nat.le_refl _

/-- A mantissa of at most 106 bits is shifted by at most 54 bits, or up to the least exponent. -/
theorem shifted_le {mantissa : Nat} {exponent bound : Int} (width : mantissa ≤ 2 ^ 106)
    (small : exponent ≤ bound) (above : -1000 ≤ bound) :
    exponent + ((Format.binary64.targetExponent (totalExponent mantissa exponent) - exponent).toNat :
      Int) ≤ bound + 54 := by
  have target : Format.binary64.targetExponent (totalExponent mantissa exponent) =
      max ((mantissa.log2 : Int) + 1 + exponent - 53) (-1074) := rfl
  have digits : mantissa.log2 ≤ 106 := by
    rcases Nat.eq_zero_or_pos mantissa with rfl | positive
    · exact Nat.zero_le _
    · exact Nat.le_of_lt_succ ((Nat.log2_lt positive.ne').mpr (by omega))
  omega

/-- Rounding a product of two mantissas takes the exponent up a little only. -/
theorem roundWithAccuracy_moderate {mantissa : Nat} {exponent : Int} (width : mantissa < 2 ^ 106)
    (small : exponent ≤ 800) :
    Moderate (UnpackedFloat.roundWithAccuracy Format.binary64 .positive mantissa exponent
      .exact) := by
  unfold UnpackedFloat.roundWithAccuracy UnpackedFloat.shiftToTargetExponent
    UnpackedFloat.shiftToExponent
  dsimp only
  have raised := shifted_le (Nat.le_of_lt width) small (by decide)
  generalize (Format.binary64.targetExponent (totalExponent mantissa exponent) - exponent).toNat =
    shift at raised ⊢
  have rounded := roundedMantissa_le
    (UnpackedFloat.ExtendedMantissa.ofMantissaAndAccuracy mantissa .exact >>> shift)
  rw [mantissa_shiftRight, mantissa_ofMantissaAndAccuracy] at rounded
  generalize UnpackedFloat.ExtendedMantissa.roundedMantissa _ = m at rounded ⊢
  have narrow : m ≤ 2 ^ 106 := by
    have := Nat.div_le_self mantissa (2 ^ shift)
    omega
  have raised := shifted_le narrow raised (by decide)
  generalize UnpackedFloat.ExtendedMantissa.mantissa
    (UnpackedFloat.ExtendedMantissa.ofMantissaAndAccuracy m .exact >>> (_ : Nat)) = n
  rcases Nat.eq_zero_or_pos n with rfl | positive
  · exact .inl rfl
  · refine .inr ⟨_, _, positive, dif_neg positive.ne', ?_⟩
    omega

/-- Bit patterns below that of infinity stand for finite values that are not below zero. -/
theorem valueOfBits_of_lt {b : Nat} (small : b < infinityBits) :
    ∃ mantissa exponent, valueOfBits b = .finite false mantissa exponent := by
  simp only [infinityBits, fractionBits] at small
  have sign : decide (2 ^ 63 ≤ b) = false := decide_eq_false (by omega)
  unfold valueOfBits
  rw [if_neg (by omega), sign]
  split
  · exact ⟨_, _, rfl⟩
  · exact ⟨_, _, rfl⟩

/-- What is moderate is packed into something finite that is not below zero. -/
theorem decode_pack_moderate {u : UnpackedFloat} (moderate : Moderate u) :
    ∃ mantissa exponent, decode (Float.ofModel (Float.Model.pack u)) =
      .finite false mantissa exponent := by
  suffices bits : (UnpackedFloat.pack Format.binary64 u).toNat < infinityBits from
    valueOfBits_of_lt bits
  rcases moderate with rfl | ⟨mantissa, exponent, positive, rfl, small⟩
  · decide
  · have bias : (exponent + (Format.binary64.exponentBias : Nat) + (52 : Nat)).toNat =
        (exponent + 1075).toNat := by
      simp only [Format.exponentBias]
      omega
    delta UnpackedFloat.pack
    dsimp only
    rw [bias, if_neg (by omega)]
    simp only [infinityBits, fractionBits]
    split
    · rw [toNat_packComponents]
      simp only [BitVec.toNat_ofNat, UnpackedFloat.Sign.toBitVec]
      omega
    · rw [toNat_packComponents]
      simp only [BitVec.toNat_ofNat, UnpackedFloat.Sign.toBitVec]
      omega

/-- Twice a finite double that is not below zero is one again, if its exponent leaves room. -/
theorem decode_mul_two {x : Float} {mantissa : Nat} {exponent : Int}
    (value : decode x = .finite false mantissa exponent) (small : exponent ≤ 800) :
    ∃ mantissa exponent, decode (2.0 * x) = .finite false mantissa exponent := by
  have two : decode 2.0 = .finite false (2 ^ 52) (-51) := by decide
  have width : mantissa < 2 ^ 53 := by
    have canonical := canonical_decode x
    rw [value] at canonical
    exact canonical.1
  suffices moderate : Moderate (UnpackedFloat.mul Format.binary64 (decode 2.0).unpacked
      (decode x).unpacked) by
    change ∃ mantissa exponent, decode (Float.ofModel (Float.Model.pack
      (UnpackedFloat.mul Format.binary64 (2.0 : Float).toModel.unpack x.toModel.unpack))) = _
    rw [unpack_toModel, unpack_toModel]
    exact decode_pack_moderate moderate
  rw [two, value, Value.unpacked_of_pos _ _ (by decide)]
  rcases Nat.eq_zero_or_pos mantissa with rfl | positive
  · exact .inl rfl
  · rw [Value.unpacked_of_pos _ _ positive]
    apply roundWithAccuracy_moderate
    · omega
    · omega

/-- What is above a double that is not below zero is infinite, or finite and not below zero. -/
theorem decode_of_lt {x y : Float} (less : x < y) (atLeast : 0 ≤ key x) :
    decode y = .infinite false ∨
      ∃ mantissa exponent, decode y = .finite false mantissa exponent := by
  obtain ⟨-, number, order⟩ := (lt_iff x y).mp less
  have positive : 0 < (decode y).key := Int.lt_of_le_of_lt atLeast order
  cases value : decode y with
  | nan => exact absurd value number
  | infinite negative =>
      cases negative with
      | false => exact .inl rfl
      | true =>
          rw [value] at positive
          exact absurd positive (by decide)
  | finite negative mantissa exponent =>
      cases negative with
      | false => exact .inr ⟨mantissa, exponent, rfl⟩
      | true =>
          rw [value] at positive
          simp only [Value.key, Value.negative, if_true] at positive
          omega

/-- A whole number below `2 ^ 53`, not zero, is a double as it stands. -/
theorem decode_ofRatio_one (negative : Bool) {n : Nat} (positive : 0 < n) (short : n < 2 ^ 53) :
    decode (ofRatio negative n 1) =
      .finite negative (n * 2 ^ (52 - n.log2)) ((n.log2 : Int) - 52) := by
  obtain ⟨digits, full, width⟩ := shifted_up positive short
  have scaled : (n : ℚ) / (1 : Nat) / 2 ^ ((n.log2 : Int) - 52) =
      (n * 2 ^ (52 - n.log2) : Nat) := by
    obtain ⟨k, hk⟩ : ∃ k, 52 - n.log2 = k := ⟨_, rfl⟩
    rw [hk, show (n.log2 : Int) - 52 = -(k : Int) by omega, zpow_neg]
    push_cast
    rw [zpow_natCast]
    field_simp
  apply decode_ofRatio_of_contains
  · exact ⟨width, by simp only [minExponent]; omega, by omega, .inl full⟩
  · positivity
  · exact Nat.one_pos
  · rw [scaled]
    exact contains_value _ (by positivity)

theorem decode_ofInt {n : Nat} (positive : 0 < n) (short : n < 2 ^ 53) :
    decode (ofInt n) = .finite false (n * 2 ^ (52 - n.log2)) ((n.log2 : Int) - 52) := by
  have sign : decide ((n : Int) < 0) = false := decide_eq_false (by omega)
  rw [ofInt, sign, Int.natAbs_natCast]
  exact decode_ofRatio_one false positive short

/-- A double of moderate size can be doubled. -/
theorem decode_mul_two_of_le {x : Float} {mantissa n : Nat} {exponent : Int}
    (value : decode x = .finite false mantissa exponent) (short : n < 2 ^ 53)
    (atMost : x ≤ ofInt n) :
    ∃ mantissa exponent, decode (2.0 * x) = .finite false mantissa exponent := by
  apply decode_mul_two value
  obtain ⟨-, -, order⟩ := (le_iff _ _).mp atMost
  rcases Nat.eq_zero_or_pos n with rfl | positive
  · have zero : key (ofInt (0 : Nat)) = 0 := by decide
    rw [zero, key, value] at order
    simp only [Value.key, Value.negative, Value.magnitude, minExponent, fractionBits,
      Bool.false_eq_true, if_false] at order
    omega
  · obtain ⟨digits, full, width⟩ := shifted_up positive short
    rw [key, key, value, decode_ofInt positive short] at order
    -- The exponent is the greater part of a key, so it is bounded by that of the whole number.
    simp only [Value.key, Value.negative, Value.magnitude, minExponent, fractionBits,
      Bool.false_eq_true, if_false] at order
    omega

end Binary64

end PrimeSearch
