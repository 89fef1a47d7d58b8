/-
Module: PrimeSearch.Proofs.Number.Difference
Purpose: The difference of a greater and a smaller double is positive.
Main exports: Positive, round_positive, sub_unpacked, zero_lt_sub
-/
import PrimeSearch.Proofs.Number.Order

namespace PrimeSearch

open Float.Model

namespace Binary64

/-!
Subtraction never loses the order: the exact difference of two doubles is a multiple of the
least positive double, so rounding cannot take a positive difference down to zero.  It can only
take it up to infinity, which is positive as well.
-/

/-- Positive in the logical model, with a mantissa and an exponent that do not become those of
zero when they are packed. -/
def Positive (u : UnpackedFloat) : Prop :=
  u = .infinity .positive ∨
    ∃ mantissa exponent positive, u = .finite .positive mantissa exponent positive ∧
      mantissa < 2 ^ 53 ∧ minExponent ≤ exponent

/-! ### Rounding keeps what is positive -/

theorem mantissa_shiftRight (m : UnpackedFloat.ExtendedMantissa) (k : Nat) :
    (m >>> k).mantissa = m.mantissa / 2 ^ k := by
  induction k with
  | zero => exact (Nat.div_one m.mantissa).symm
  | succ k ih =>
      change (m >>> k).mantissa / 2 = m.mantissa / 2 ^ (k + 1)
      rw [ih, Nat.div_div_eq_div_mul, Nat.pow_succ]

theorem mantissa_ofMantissaAndAccuracy (mantissa : Nat) (accuracy : UnpackedFloat.Accuracy) :
    (UnpackedFloat.ExtendedMantissa.ofMantissaAndAccuracy mantissa accuracy).mantissa =
      mantissa := by
  rcases accuracy with _ | _ | _ | _ <;> rfl

theorem le_roundedMantissa (m : UnpackedFloat.ExtendedMantissa) :
    m.mantissa ≤ m.roundedMantissa := by
  unfold UnpackedFloat.ExtendedMantissa.roundedMantissa
  rcases m.accuracy with _ | _ | _ | _
  · exact Nat.le_refl _
  · exact Nat.le_refl _
  · exact Nat.le_add_right _ _
  · exact Nat.le_succ _

/-- From the least exponent up, a mantissa is shifted by as many bits as it has beyond 53. -/
theorem targetExponent_sub {exponent : Int} (mantissa : Nat) (least : minExponent ≤ exponent) :
    (Format.binary64.targetExponent (totalExponent mantissa exponent) - exponent).toNat =
      mantissa.log2 - 52 := by
  have target : Format.binary64.targetExponent (totalExponent mantissa exponent) =
      max ((mantissa.log2 : Int) + 1 + exponent - 53) (-1074) := rfl
  simp only [minExponent] at least
  omega

/-- A mantissa without the bits it has beyond 53. -/
theorem shifted_bounds {mantissa : Nat} (positive : 0 < mantissa) :
    0 < mantissa / 2 ^ (mantissa.log2 - 52) ∧ mantissa / 2 ^ (mantissa.log2 - 52) < 2 ^ 53 := by
  have low : 2 ^ mantissa.log2 ≤ mantissa := Nat.log2_self_le (Nat.ne_of_gt positive)
  have high : mantissa < 2 ^ (mantissa.log2 + 1) := Nat.lt_log2_self
  constructor
  · refine Nat.div_pos (Nat.le_trans ?_ low) (Nat.two_pow_pos _)
    exact Nat.pow_le_pow_right Nat.two_pos (Nat.sub_le _ _)
  · rw [Nat.div_lt_iff_lt_mul (Nat.two_pow_pos _), ← Nat.pow_add]
    refine Nat.lt_of_lt_of_le high (Nat.pow_le_pow_right Nat.two_pos ?_)
    omega

/-- Rounding a positive mantissa from the least exponent up gives something positive. -/
theorem roundWithAccuracy_positive {mantissa : Nat} {exponent : Int} (positive : 0 < mantissa)
    (least : minExponent ≤ exponent) :
    Positive (UnpackedFloat.roundWithAccuracy Format.binary64 .positive mantissa exponent
      .exact) := by
  unfold UnpackedFloat.roundWithAccuracy UnpackedFloat.shiftToTargetExponent
    UnpackedFloat.shiftToExponent
  dsimp only
  rw [targetExponent_sub mantissa least]
  generalize rounded : UnpackedFloat.ExtendedMantissa.roundedMantissa _ = m
  have survives : 0 < m := by
    have kept := le_roundedMantissa
      (UnpackedFloat.ExtendedMantissa.ofMantissaAndAccuracy mantissa .exact >>>
        (mantissa.log2 - 52))
    rw [rounded, mantissa_shiftRight, mantissa_ofMantissaAndAccuracy] at kept
    exact Nat.lt_of_lt_of_le (shifted_bounds positive).1 kept
  have raised : minExponent ≤ exponent + (mantissa.log2 - 52 : Nat) := by omega
  obtain ⟨atLeast, atMost⟩ := shifted_bounds survives
  rw [targetExponent_sub m raised]
  generalize shifted : (UnpackedFloat.ExtendedMantissa.ofMantissaAndAccuracy m .exact >>>
    (m.log2 - 52)).mantissa = n
  rw [mantissa_shiftRight, mantissa_ofMantissaAndAccuracy] at shifted
  rw [shifted] at atLeast atMost
  rw [dif_neg (Nat.ne_of_gt atLeast)]
  exact .inr ⟨_, _, atLeast, rfl, atMost, by omega⟩

theorem round_positive {mantissa : Nat} {exponent : Int} (positive : 0 < mantissa)
    (least : minExponent ≤ exponent) :
    Positive (UnpackedFloat.round Format.binary64 .positive mantissa exponent) := by
  have target : Format.binary64.targetExponent (totalExponent mantissa exponent) =
      max ((mantissa.log2 : Int) + 1 + exponent - 53) (-1074) := rfl
  apply roundWithAccuracy_positive
  · rw [Nat.shiftLeft_eq]
    exact Nat.mul_pos positive (Nat.two_pow_pos _)
  · simp only [minExponent] at least ⊢
    omega

/-! ### Packing keeps what is positive -/

/-- Bit patterns above zero and up to infinity belong to what is above zero. -/
theorem zero_lt_of_bits {x : Float} (above : 0 < x.toBits.toNat)
    (upTo : x.toBits.toNat ≤ infinityBits) : 0.0 < x := by
  rw [← bits_decode x] at above upTo
  have zero : decode 0.0 = .finite false 0 minExponent := by decide
  have number : decode x ≠ .nan := by
    intro noNumber
    rw [noNumber] at upTo
    exact absurd upTo (by decide)
  rw [Value.bits_eq] at above upTo
  rw [lt_iff, zero]
  refine ⟨by simp, number, ?_⟩
  rw [key, zero, key, Value.key, Value.key]
  cases sign : (decode x).negative with
  | true =>
      simp only [sign, signBit, infinityBits, fractionBits, if_true] at upTo
      omega
  | false =>
      simp only [sign, signBit, if_false, Bool.false_eq_true] at above
      simp [Value.negative, Value.magnitude, minExponent]
      exact above

theorem zero_lt_pack {u : UnpackedFloat} (positive : Positive u) :
    0.0 < Float.ofModel (Float.Model.pack u) := by
  suffices bits : 0 < (UnpackedFloat.pack Format.binary64 u).toNat ∧
      (UnpackedFloat.pack Format.binary64 u).toNat ≤ infinityBits from
    zero_lt_of_bits bits.1 bits.2
  have top : (UnpackedFloat.packedInfinity Format.binary64 .positive).toNat = infinityBits := rfl
  rcases positive with rfl | ⟨mantissa, exponent, positive, rfl, width, least⟩
  · change 0 < (UnpackedFloat.packedInfinity Format.binary64 .positive).toNat ∧
      (UnpackedFloat.packedInfinity Format.binary64 .positive).toNat ≤ infinityBits
    rw [top]
    exact ⟨by decide, Nat.le_refl _⟩
  · have bias : (exponent + (Format.binary64.exponentBias : Nat) + (52 : Nat)).toNat =
        (exponent + 1075).toNat := by
      simp only [Format.exponentBias]
      omega
    simp only [minExponent] at least
    delta UnpackedFloat.pack
    dsimp only
    rw [bias]
    split
    · rw [top]
      exact ⟨by decide, Nat.le_refl _⟩
    next within =>
      simp only [infinityBits, fractionBits]
      by_cases wide : 2 ^ 52 ≤ mantissa
      · have digits : mantissa.log2 = 52 := (Nat.log2_eq_iff (by omega)).mpr ⟨wide, width⟩
        rw [if_pos (by rw [digits]; rfl), toNat_packComponents]
        simp only [BitVec.toNat_ofNat, UnpackedFloat.Sign.toBitVec]
        omega
      · have digits : mantissa.log2 < 52 := (Nat.log2_lt (by omega)).mpr (by omega)
        have precision : Format.binary64.mantissaBits = 53 := rfl
        rw [if_neg (by omega), toNat_packComponents]
        simp only [BitVec.toNat_ofNat, UnpackedFloat.Sign.toBitVec]
        omega

/-! ### The exact difference -/

/-- The mantissas that two finite values have at the smaller of their exponents are in the order
of the magnitude bits. -/
theorem shifted_lt {s t : Bool} {m n : Nat} {e f low : Int}
    (canonical : (Value.finite s m e).Canonical) (canonical' : (Value.finite t n f).Canonical)
    (lowest : low = min e f)
    (less : (Value.finite s m e).magnitude < (Value.finite t n f).magnitude) :
    m <<< (e - low).toNat < n <<< (f - low).toNat := by
  obtain ⟨width, least, -, normal⟩ := canonical
  obtain ⟨width', least', -, normal'⟩ := canonical'
  simp only [Value.magnitude, minExponent, fractionBits] at *
  rw [Nat.shiftLeft_eq, Nat.shiftLeft_eq]
  rcases Int.lt_trichotomy e f with below | rfl | above
  · obtain ⟨k, hk⟩ : ∃ k, (f - low).toNat = k + 1 := ⟨(f - e).toNat - 1, by omega⟩
    have stays : (e - low).toNat = 0 := by omega
    rw [hk, stays, Nat.pow_zero, Nat.mul_one, Nat.pow_succ, ← Nat.mul_assoc]
    calc m < 2 ^ 53 := width
      _ ≤ n * 2 := by omega
      _ ≤ n * 2 ^ k * 2 := Nat.mul_le_mul_right 2 (Nat.le_mul_of_pos_right n (Nat.two_pow_pos k))
  · have stays : (e - low).toNat = 0 := by omega
    rw [stays]
    omega
  · omega

/-- A lesser value is subtracted from a greater one, neither of them zero. -/
theorem sub_finite {s t : Bool} {m n : Nat} {e f : Int} (positive : 0 < m) (positive' : 0 < n)
    (canonical : (Value.finite s m e).Canonical) (canonical' : (Value.finite t n f).Canonical)
    (less : (Value.finite s m e).key < (Value.finite t n f).key) :
    Positive (UnpackedFloat.sub Format.binary64 (.finite (signOf t) n f positive')
      (.finite (signOf s) m e positive)) := by
  have least := canonical.2.1
  have least' := canonical'.2.1
  have shifted : 0 < m <<< (e - min f e).toNat := by
    rw [Nat.shiftLeft_eq]
    exact Nat.mul_pos positive (Nat.two_pow_pos _)
  have shifted' : 0 < n <<< (f - min f e).toNat := by
    rw [Nat.shiftLeft_eq]
    exact Nat.mul_pos positive' (Nat.two_pow_pos _)
  have difference : 0 < (signOf t).apply (n <<< (f - min f e).toNat : Nat) -
      (signOf s).apply (m <<< (e - min f e).toNat : Nat) := by
    rw [Value.key, Value.key] at less
    cases s <;> cases t <;>
      simp only [Value.negative, if_true, if_false, Bool.false_eq_true, signOf,
        UnpackedFloat.Sign.apply] at less ⊢
    · have := shifted_lt canonical canonical' (Int.min_comm f e) (by omega)
      omega
    · omega
    · omega
    · have := shifted_lt canonical' canonical (rfl : min f e = min f e) (by omega)
      omega
  unfold UnpackedFloat.sub UnpackedFloat.normalize UnpackedFloat.decreaseExponent
  dsimp only
  rw [Int.compare_eq_gt.mpr difference]
  exact round_positive (by omega) (by omega)

/-- Nothing compares above positive infinity or below negative infinity. -/
theorem key_bounds {v : Value} (canonical : v.Canonical) (number : v ≠ .nan) :
    -(infinityBits : Int) ≤ v.key ∧ v.key ≤ infinityBits := by
  have bound : v.magnitude ≤ infinityBits := by
    rcases v with _ | s | ⟨s, m, e⟩
    · exact absurd rfl number
    · exact Nat.le_refl _
    · exact Nat.le_of_lt (Value.magnitude_lt canonical)
  unfold Value.key
  cases v.negative <;> simp only [if_true, if_false, Bool.false_eq_true] <;> omega

/-- A lesser value is subtracted from a greater one. -/
theorem sub_unpacked {v w : Value} (canonical : v.Canonical) (canonical' : w.Canonical)
    (number : v ≠ .nan) (number' : w ≠ .nan) (less : v.key < w.key) :
    Positive (UnpackedFloat.sub Format.binary64 w.unpacked v.unpacked) := by
  have bounds := key_bounds canonical number
  have bounds' := key_bounds canonical' number'
  have plus : (Value.infinite false).key = infinityBits := rfl
  have minus : (Value.infinite true).key = -(infinityBits : Int) := rfl
  rcases v with _ | (_ | _) | ⟨s, m, e⟩
  · exact absurd rfl number
  · omega
  · rcases w with _ | (_ | _) | ⟨t, n, f⟩
    · exact absurd rfl number'
    · exact .inl rfl
    · omega
    · rcases Value.zero_or_positive canonical' with ⟨shape, -⟩ | ⟨positive, shape, -⟩ <;>
        rw [shape] <;> exact .inl rfl
  · rcases w with _ | (_ | _) | ⟨t, n, f⟩
    · exact absurd rfl number'
    · rcases Value.zero_or_positive canonical with ⟨shape, -⟩ | ⟨positive, shape, -⟩ <;>
        rw [shape] <;> exact .inl rfl
    · omega
    · have width := canonical.1
      have width' := canonical'.1
      rcases Value.zero_or_positive canonical with ⟨shape, size⟩ | ⟨positive, shape, size⟩ <;>
        rcases Value.zero_or_positive canonical' with
          ⟨shape', size'⟩ | ⟨positive', shape', size'⟩ <;>
        rw [shape, shape']
      · rw [Value.key, Value.key, size, size'] at less
        simp at less
      · -- Zero is subtracted: the other value is above zero and stays as it is.
        cases t with
        | true =>
            rw [Value.key, Value.key, size] at less
            simp [Value.negative] at less
            omega
        | false => exact .inr ⟨n, f, positive', rfl, width', canonical'.2.1⟩
      · -- The other value is subtracted from zero: it is below zero and changes its sign.
        cases s with
        | true => exact .inr ⟨m, e, positive, rfl, width, canonical.2.1⟩
        | false =>
            rw [Value.key, Value.key, size'] at less
            simp [Value.negative] at less
            omega
      · exact sub_finite positive positive' canonical canonical' less

/-- The difference of a greater and a smaller double is above zero. -/
theorem zero_lt_sub {x y : Float} (less : x < y) : 0.0 < y - x := by
  obtain ⟨number, number', order⟩ := (lt_iff x y).mp less
  change 0.0 < Float.ofModel
    (Float.Model.pack (UnpackedFloat.sub Format.binary64 y.toModel.unpack x.toModel.unpack))
  rw [unpack_toModel, unpack_toModel]
  exact zero_lt_pack
    (sub_unpacked (canonical_decode x) (canonical_decode y) number number' order)

end Binary64

end PrimeSearch
