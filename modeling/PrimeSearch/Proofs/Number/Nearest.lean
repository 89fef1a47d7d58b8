/-
Module: PrimeSearch.Proofs.Number.Nearest
Purpose: The number that a double stands for, and the double nearest to a number.
Main exports: Binary64.exact, Binary64.nearest, magnitudeOfRatio_mono, nearest_le_nearest,
  nearest_exact, le_iff_exact, beq_iff_exact, ofInt_spec
-/
import PrimeSearch.Proofs.Number.Doubling

namespace PrimeSearch

namespace Binary64

/-!
Rounding a quotient only looks at which rational number the quotient is, and it keeps the order of
these numbers.  So it is a function on rational numbers: the double nearest to a number.  What a
double stands for is rounded to the double itself.
-/

/-- The number that a value stands for; zero where there is none. -/
def Value.exact : Value → ℚ
  | .finite negative mantissa exponent =>
      (if negative then -1 else 1) * ((mantissa : ℚ) * 2 ^ exponent)
  | _ => 0

/-- The number that a double stands for; zero where there is none. -/
def exact (x : Float) : ℚ := (decode x).exact

/-- The double nearest to a number, ties to the even mantissa. -/
def nearest (q : ℚ) : Float := ofRatio (decide (q < 0)) q.num.natAbs q.den

/-! ### Rounding a quotient to a whole number -/

/-- A quotient is rounded by a half at most. -/
theorem roundHalfEven_near (num : Nat) {den : Nat} (positive : 0 < den) :
    (roundHalfEven num den : ℚ) - 1 / 2 ≤ num / den ∧
      (num : ℚ) / den ≤ roundHalfEven num den + 1 / 2 := by
  have division : den * (num / den) + num % den = num := Nat.div_add_mod num den
  have rest : num % den < den := Nat.mod_lt num positive
  have denominator : (0 : ℚ) < den := by exact_mod_cast positive
  suffices near : 2 * (roundHalfEven num den * den) ≤ 2 * num + den ∧
      2 * num ≤ 2 * (roundHalfEven num den * den) + den by
    obtain ⟨low, high⟩ := near
    have low : 2 * ((roundHalfEven num den : ℚ) * den) ≤ 2 * num + den := by exact_mod_cast low
    have high : 2 * (num : ℚ) ≤ 2 * (roundHalfEven num den * den) + den := by exact_mod_cast high
    rw [le_div_iff₀ denominator, div_le_iff₀ denominator]
    constructor <;> linarith
  unfold roundHalfEven
  dsimp only
  generalize num / den = quotient at *
  have parity : quotient % 2 = 0 ∨ quotient % 2 = 1 := by omega
  rw [Nat.mul_comm den] at division
  split
  · omega
  · split
    · rcases parity with even | odd
      · rw [even, Nat.add_zero]
        omega
      · rw [odd, Nat.add_one_mul quotient]
        omega
    · rw [Nat.add_one_mul quotient]
      omega

theorem roundHalfEven_mul (num den : Nat) {k : Nat} (positive : 0 < k) :
    roundHalfEven (num * k) (den * k) = roundHalfEven num den := by
  have less : 2 * (num % den * k) < den * k ↔ 2 * (num % den) < den := by
    rw [← Nat.mul_assoc]
    exact Nat.mul_lt_mul_right positive
  have same : 2 * (num % den * k) = den * k ↔ 2 * (num % den) = den := by
    rw [← Nat.mul_assoc]
    exact Nat.mul_left_inj positive.ne'
  simp only [roundHalfEven, Nat.mul_div_mul_right _ _ positive, Nat.mul_mod_mul_right, less, same]

/-- Equal quotients are rounded alike. -/
theorem roundHalfEven_congr {num den num' den' : Nat} (positive : 0 < den) (positive' : 0 < den')
    (same : (num : ℚ) / den = num' / den') : roundHalfEven num den = roundHalfEven num' den' := by
  have denominator : (den : ℚ) ≠ 0 := by exact_mod_cast positive.ne'
  have denominator' : (den' : ℚ) ≠ 0 := by exact_mod_cast positive'.ne'
  have crossed : num * den' = num' * den := by
    rw [div_eq_div_iff denominator denominator'] at same
    exact_mod_cast same
  rw [← roundHalfEven_mul num den positive', crossed, Nat.mul_comm den,
    roundHalfEven_mul num' den' positive]

/-- A smaller quotient is not rounded to a greater number. -/
theorem roundHalfEven_mono {num den num' den' : Nat} (positive : 0 < den) (positive' : 0 < den')
    (atMost : (num : ℚ) / den ≤ num' / den') : roundHalfEven num den ≤ roundHalfEven num' den' := by
  by_contra above
  obtain ⟨low, -⟩ := roundHalfEven_near num positive
  obtain ⟨-, high⟩ := roundHalfEven_near num' positive'
  have step : (roundHalfEven num' den' : ℚ) + 1 ≤ roundHalfEven num den := by
    exact_mod_cast Nat.lt_of_not_le above
  -- Both quotients would be the one half way between the two numbers.
  have same := roundHalfEven_congr positive positive' (le_antisymm atMost (by linarith))
  exact above same.le

/-! ### Rounding a quotient to a double -/

/-- A positive quotient is rounded at the exponent at which it has 53 bits, or the least one. -/
theorem magnitudeOfRatio_spec {num den : Nat} (numerator : 0 < num) (denominator : 0 < den) :
    ∃ (scale : Int) (n d : Nat), 0 < d ∧ (n : ℚ) / d = num / den / 2 ^ max minExponent scale ∧
      (2 : ℚ) ^ 52 ≤ num / den / 2 ^ scale ∧ (num : ℚ) / den / 2 ^ scale < 2 ^ 53 ∧
      magnitudeOfRatio num den = min infinityBits
        ((max minExponent scale - minExponent).toNat * 2 ^ fractionBits + roundHalfEven n d) := by
  obtain ⟨scale, target, low, high⟩ := targetExponent_spec numerator denominator
  refine ⟨scale, (scaleByPower num den (targetExponent num den)).1,
    (scaleByPower num den (targetExponent num den)).2,
    scaleByPower_pos num (targetExponent num den) denominator, ?_, low, high, ?_⟩
  · rw [scaleByPower_ratio, target]
  · rw [magnitudeOfRatio, if_neg numerator.ne', target]

/-- A smaller quotient does not have greater magnitude bits. -/
theorem magnitudeOfRatio_mono {num den num' den' : Nat} (positive : 0 < den) (positive' : 0 < den')
    (atMost : (num : ℚ) / den ≤ num' / den') :
    magnitudeOfRatio num den ≤ magnitudeOfRatio num' den' := by
  rcases Nat.eq_zero_or_pos num with rfl | numerator
  · exact Nat.zero_le _
  have denominator : (0 : ℚ) < den := by exact_mod_cast positive
  have denominator' : (0 : ℚ) < den' := by exact_mod_cast positive'
  have numerator' : 0 < num' := by
    have above : (0 : ℚ) < num / den := div_pos (by exact_mod_cast numerator) denominator
    have above : (0 : ℚ) < num' := (div_pos_iff_of_pos_right denominator').mp (above.trans_le atMost)
    exact_mod_cast above
  obtain ⟨scale, n, d, some, value, low, high, size⟩ := magnitudeOfRatio_spec numerator positive
  obtain ⟨scale', n', d', some', value', low', high', size'⟩ :=
    magnitudeOfRatio_spec numerator' positive'
  have scales : scale ≤ scale' :=
    exponent_unique low (lt_of_le_of_lt (div_le_div_of_nonneg_right atMost (by positivity)) high')
  rw [size, size']
  apply min_le_min_left
  rcases eq_or_lt_of_le (max_le_max_left minExponent scales) with same | below
  · rw [same] at value ⊢
    apply Nat.add_le_add_left
    apply roundHalfEven_mono some some'
    rw [value, value']
    exact div_le_div_of_nonneg_right atMost (by positivity)
  · -- At a lower exponent the mantissa reaches the least one of the next exponent at most.
    have normal : max minExponent scale' = scale' := by omega
    have least : 2 ^ 52 ≤ roundHalfEven n' d' := by
      rw [show 2 ^ 52 = roundHalfEven (2 ^ 52) 1 by rfl]
      apply roundHalfEven_mono Nat.one_pos some'
      rw [value', normal]
      push_cast
      linarith
    have greatest : roundHalfEven n d ≤ 2 ^ 53 := by
      rw [show 2 ^ 53 = roundHalfEven (2 ^ 53) 1 by rfl]
      apply roundHalfEven_mono some Nat.one_pos
      rw [value]
      have raised : (2 : ℚ) ^ scale ≤ 2 ^ max minExponent scale :=
        zpow_le_zpow_right₀ (by norm_num) (le_max_right _ _)
      have lowered : (num : ℚ) / den / 2 ^ max minExponent scale ≤ num / den / 2 ^ scale :=
        div_le_div_of_nonneg_left (by positivity) (by positivity) raised
      push_cast
      linarith
    simp only [minExponent, fractionBits] at *
    omega

/-- Equal quotients have the same magnitude bits. -/
theorem magnitudeOfRatio_congr {num den num' den' : Nat} (positive : 0 < den) (positive' : 0 < den')
    (same : (num : ℚ) / den = num' / den') :
    magnitudeOfRatio num den = magnitudeOfRatio num' den' :=
  le_antisymm (magnitudeOfRatio_mono positive positive' same.le)
    (magnitudeOfRatio_mono positive' positive same.ge)

theorem magnitudeOfRatio_le (num den : Nat) : magnitudeOfRatio num den ≤ infinityBits := by
  unfold magnitudeOfRatio
  split
  · exact Nat.zero_le _
  · exact Nat.min_le_left _ _

/-! ### Magnitude bits of a double -/

theorem add_signBit_lt (negative : Bool) {m : Nat} (small : m ≤ infinityBits) :
    m + signBit negative < 2 ^ 64 := by
  have top : infinityBits < 2 ^ 63 := by decide
  cases negative <;> simp only [signBit, if_true, if_false, Bool.false_eq_true] <;> omega

theorem decode_ofMagnitude_eq (negative : Bool) {m : Nat} (small : m ≤ infinityBits) :
    decode (ofMagnitude negative m) = valueOfBits (m + signBit negative) := by
  change decode (Float.ofBits (UInt64.ofNat (m + signBit negative))) = _
  rw [decode_ofBits, UInt64.toNat_ofNat_of_lt' (add_signBit_lt negative small)]

/-- Magnitude bits up to those of infinity are put together with a sign as they stand. -/
theorem ofMagnitude_spec (negative : Bool) {m : Nat} (small : m ≤ infinityBits) :
    decode (ofMagnitude negative m) ≠ .nan ∧ (decode (ofMagnitude negative m)).magnitude = m ∧
      (decode (ofMagnitude negative m)).negative = negative := by
  have top : infinityBits < 2 ^ 63 := by decide
  have fits := add_signBit_lt negative small
  have value := decode_ofMagnitude_eq negative small
  have number : decode (ofMagnitude negative m) ≠ .nan := by
    rw [value, valueOfBits]
    simp only [infinityBits, fractionBits] at small
    split
    next full =>
      split
      · intro same
        cases same
      next marked =>
        exfalso
        cases negative <;> simp only [signBit, if_true, if_false, Bool.false_eq_true] at * <;> omega
    · intro same
      split at same <;> cases same
  have bits := bits_valueOfBits fits (value ▸ number)
  rw [← value, Value.bits_eq] at bits
  have bound : (decode (ofMagnitude negative m)).magnitude ≤ infinityBits := by
    have canonical := canonical_decode (ofMagnitude negative m)
    cases shape : decode (ofMagnitude negative m) with
    | nan => exact absurd shape number
    | infinite sign => exact le_refl _
    | finite sign mantissa exponent => exact (Value.magnitude_lt (shape ▸ canonical)).le
  have positive : signBit false = 0 := rfl
  have signed : signBit true = 2 ^ 63 := rfl
  rcases sign : (decode (ofMagnitude negative m)).negative with _ | _ <;> rcases negative with _ | _ <;>
    simp only [sign, positive, signed] at bits
  · exact ⟨number, by omega, rfl⟩
  · omega
  · omega
  · exact ⟨number, by omega, rfl⟩

/-! ### The double nearest to a number -/

/-- Magnitude bits of the double nearest to a number. -/
def magnitudeOf (q : ℚ) : Nat := magnitudeOfRatio q.num.natAbs q.den

theorem natAbs_num_div_den (q : ℚ) : (q.num.natAbs : ℚ) / q.den = |q| := by
  conv_rhs => rw [← Rat.num_div_den q]
  rw [abs_div, Nat.abs_cast, Nat.cast_natAbs, Int.cast_abs]

section
variable {q r : ℚ} {x : Float}

theorem magnitudeOfRatio_eq_magnitudeOf {num den : Nat} (positive : 0 < den)
    (ratio : (num : ℚ) / den = |q|) : magnitudeOfRatio num den = magnitudeOf q :=
  magnitudeOfRatio_congr positive q.den_pos (by rw [natAbs_num_div_den, ratio])

theorem magnitudeOf_mono (atMost : |q| ≤ |r|) : magnitudeOf q ≤ magnitudeOf r :=
  magnitudeOfRatio_mono q.den_pos r.den_pos (by rwa [natAbs_num_div_den, natAbs_num_div_den])

theorem nearest_spec (q : ℚ) :
    decode (nearest q) ≠ .nan ∧ (decode (nearest q)).magnitude = magnitudeOf q ∧
      (decode (nearest q)).negative = decide (q < 0) :=
  ofMagnitude_spec _ (magnitudeOfRatio_le _ _)

theorem key_nearest (q : ℚ) :
    key (nearest q) = if q < 0 then -(magnitudeOf q : Int) else magnitudeOf q := by
  obtain ⟨-, size, sign⟩ := nearest_spec q
  rw [key, Value.key, size, sign]
  simp only [decide_eq_true_eq]

/-- Rounding keeps the order of numbers. -/
theorem nearest_le_nearest (atMost : q ≤ r) : nearest q ≤ nearest r := by
  rw [le_iff]
  refine ⟨(nearest_spec q).1, (nearest_spec r).1, ?_⟩
  rw [key_nearest, key_nearest]
  by_cases below : q < 0 <;> by_cases below' : r < 0
  · have sizes := magnitudeOf_mono (q := r) (r := q) (by
      rw [abs_of_neg below, abs_of_neg below']
      linarith)
    simp only [below, below', if_true]
    omega
  · simp only [below, below', if_true, if_false]
    omega
  · linarith
  · have sizes := magnitudeOf_mono (q := q) (r := r) (by
      rwa [abs_of_nonneg (not_lt.mp below), abs_of_nonneg (not_lt.mp below')])
    simp only [below, below', if_false]
    omega

/-- A quotient is rounded to the double nearest to the number that it is. -/
theorem ofRatio_eq_nearest {negative : Bool} {num den : Nat} (positive : 0 < den)
    (ratio : (num : ℚ) / den = |q|) (sign : negative = decide (q < 0)) :
    ofRatio negative num den = nearest q := by
  rw [ofRatio, magnitudeOfRatio_eq_magnitudeOf positive ratio, sign]
  rfl

/-- The sign and the size of what a double stands for, if it is not zero. -/
theorem exact_of_decode {negative : Bool} {mantissa : Nat} {exponent : Int}
    (value : decode x = .finite negative mantissa exponent) (positive : 0 < mantissa) :
    |exact x| = mantissa * 2 ^ exponent ∧ decide (exact x < 0) = negative := by
  have size : (0 : ℚ) < (mantissa : ℚ) * 2 ^ exponent := by positivity
  rw [exact, value, Value.exact]
  cases negative <;> simp [size, size.le, abs_of_pos size]

/-- What a double stands for, if it is not zero, is rounded to the double. -/
theorem nearest_exact {negative : Bool} {mantissa : Nat} {exponent : Int}
    (value : decode x = .finite negative mantissa exponent) (positive : 0 < mantissa) :
    nearest (exact x) = x := by
  have canonical := canonical_decode x
  rw [value] at canonical
  obtain ⟨magnitude, sign⟩ := exact_of_decode value positive
  apply decode_inj
  rw [value, nearest, sign]
  refine decode_ofRatio_of_contains negative canonical positive (exact x).den_pos ?_
  rw [natAbs_num_div_den, magnitude, mul_div_assoc, div_self (by positivity), mul_one]
  exact contains_value exponent positive

end

/-! ### The order of finite doubles -/

section
variable {x y : Float}

/-- Only what is finite and not zero stands for a number that is not zero. -/
theorem exists_decode_of_exact_ne_zero (some : exact x ≠ 0) :
    ∃ negative mantissa exponent, decode x = .finite negative mantissa exponent ∧ 0 < mantissa := by
  rw [exact] at some
  cases value : decode x with
  | nan =>
      rw [value] at some
      exact absurd rfl some
  | infinite negative =>
      rw [value] at some
      exact absurd rfl some
  | finite negative mantissa exponent =>
      refine ⟨negative, mantissa, exponent, rfl, Nat.pos_of_ne_zero ?_⟩
      rintro rfl
      rw [value, Value.exact] at some
      simp at some

theorem decode_ne_nan (finite : x.isFinite = true) : decode x ≠ .nan := by
  obtain ⟨negative, mantissa, exponent, value⟩ := (isFinite_iff x).mp finite
  rw [value]
  intro same
  cases same

/-- The zeros are the finite doubles with the key zero. -/
theorem key_eq_zero_iff (finite : x.isFinite = true) : key x = 0 ↔ exact x = 0 := by
  obtain ⟨negative, mantissa, exponent, value⟩ := (isFinite_iff x).mp finite
  rcases Nat.eq_zero_or_pos mantissa with rfl | positive
  · have canonical := canonical_decode x
    rw [value] at canonical
    obtain ⟨-, least, -, normal⟩ := canonical
    obtain rfl : exponent = minExponent := by omega
    rw [key, exact, value, Value.exact]
    cases negative <;> simp [Value.key, Value.negative, Value.magnitude]
  · refine iff_of_false ?_ ?_
    · rw [key, value, Value.key, Value.magnitude]
      split <;> omega
    · obtain ⟨size, -⟩ := exact_of_decode value positive
      rw [← abs_eq_zero, size]
      positivity

/-- A finite double compares as the double nearest to what it stands for does. -/
theorem key_nearest_exact (finite : x.isFinite = true) : key (nearest (exact x)) = key x := by
  by_cases none : exact x = 0
  · rw [none, (key_eq_zero_iff finite).mpr none]
    decide
  · obtain ⟨negative, mantissa, exponent, value, positive⟩ := exists_decode_of_exact_ne_zero none
    rw [nearest_exact value positive]

theorem key_le_iff (finite : x.isFinite = true) (finite' : y.isFinite = true) :
    key x ≤ key y ↔ exact x ≤ exact y := by
  have forth {x y : Float} (finite : x.isFinite = true) (finite' : y.isFinite = true)
      (atMost : exact x ≤ exact y) : key x ≤ key y := by
    obtain ⟨-, -, order⟩ := (le_iff _ _).mp (nearest_le_nearest atMost)
    rwa [key_nearest_exact finite, key_nearest_exact finite'] at order
  refine ⟨fun order => ?_, forth finite finite'⟩
  by_contra above
  have same : key x = key y := le_antisymm order (forth finite' finite (not_le.mp above).le)
  by_cases none : key y = 0
  · rw [none] at same
    rw [(key_eq_zero_iff finite).mp same, (key_eq_zero_iff finite').mp none] at above
    exact above le_rfl
  · have equal := Value.eq_of_key (canonical_decode x) (canonical_decode y) same none
    rw [exact, exact, equal] at above
    exact above le_rfl

/-- Finite doubles are in the order of what they stand for. -/
theorem le_iff_exact (finite : x.isFinite = true) (finite' : y.isFinite = true) :
    x ≤ y ↔ exact x ≤ exact y := by
  rw [le_iff, key_le_iff finite finite']
  simp [decode_ne_nan finite, decode_ne_nan finite']

theorem lt_iff_exact (finite : x.isFinite = true) (finite' : y.isFinite = true) :
    x < y ↔ exact x < exact y := by
  rw [lt_iff, ← not_le, key_le_iff finite' finite, not_le]
  simp [decode_ne_nan finite, decode_ne_nan finite']

/-- Finite doubles are equal as numbers if they stand for the same one. -/
theorem beq_iff_exact (finite : x.isFinite = true) (finite' : y.isFinite = true) :
    (x == y) = true ↔ exact x = exact y := by
  rw [beq_iff, le_antisymm_iff, key_le_iff finite finite', key_le_iff finite' finite,
    le_antisymm_iff]
  simp [decode_ne_nan finite, decode_ne_nan finite']

end

/-! ### Zero and the size -/

theorem decode_zero : decode 0.0 = .finite false 0 minExponent := by decide

theorem exact_zero : exact 0.0 = 0 := by
  rw [exact, decode_zero, Value.exact]
  simp

theorem exact_abs (x : Float) : exact x.abs = |exact x| := by
  rw [exact, exact, decode_abs]
  cases decode x with
  | nan | infinite negative => simp [Value.abs, Value.exact]
  | finite negative mantissa exponent =>
      have size : (0 : ℚ) ≤ (mantissa : ℚ) * 2 ^ exponent := by positivity
      cases negative <;> simp [Value.abs, Value.exact, abs_of_nonneg size]

theorem isFinite_abs {x : Float} (finite : x.isFinite = true) : x.abs.isFinite = true := by
  obtain ⟨negative, mantissa, exponent, value⟩ := (isFinite_iff x).mp finite
  rw [isFinite_iff, decode_abs, value]
  exact ⟨_, _, _, rfl⟩

/-! ### Whole numbers -/

theorem ofInt_eq_nearest (n : Int) : ofInt n = nearest n := by
  apply ofRatio_eq_nearest Nat.one_pos
  · rw [Nat.cast_one, div_one, Nat.cast_natAbs, Int.cast_abs]
  · simp

/-- A double that stands for a whole number, not zero, is the double of that number. -/
theorem eq_ofInt {x : Float} {z : Int} (whole : exact x = z) (some : z ≠ 0) : x = ofInt z := by
  have nonzero : exact x ≠ 0 := by
    rw [whole]
    exact_mod_cast some
  obtain ⟨negative, mantissa, exponent, value, positive⟩ := exists_decode_of_exact_ne_zero nonzero
  rw [ofInt_eq_nearest, ← whole, nearest_exact value positive]

/-- A whole number of at most `2 ^ 53` is a double that stands for it and has no fraction. -/
theorem ofInt_spec {n : Int} (small : n.natAbs ≤ 2 ^ 53) :
    (ofInt n).isFinite = true ∧ exact (ofInt n) = n ∧ isInteger (ofInt n) = true := by
  rcases Nat.eq_zero_or_pos n.natAbs with none | positive
  · obtain rfl : n = 0 := by omega
    have value : decode (ofInt 0) = .finite false 0 minExponent := by decide
    refine ⟨(isFinite_iff _).mpr ⟨_, _, _, value⟩, ?_, ?_⟩
    · rw [exact, value, Value.exact]
      simp
    · rw [isInteger, value]
      simp
  rcases Nat.lt_or_eq_of_le small with short | top
  · have value : decode (ofInt n) = _ := decode_ofRatio_one (decide (n < 0)) positive short
    obtain ⟨digits, -⟩ := shifted_up positive short
    obtain ⟨shift, amount⟩ : ∃ shift, 52 - n.natAbs.log2 = shift := ⟨_, rfl⟩
    rw [amount, show (n.natAbs.log2 : Int) - 52 = -shift by omega] at value
    refine ⟨(isFinite_iff _).mpr ⟨_, _, _, value⟩, ?_, ?_⟩
    · have cleared : ((n.natAbs * 2 ^ shift : Nat) : ℚ) * 2 ^ (-shift : Int) = n.natAbs := by
        rw [zpow_neg, zpow_natCast]
        push_cast
        field_simp
      rw [exact, value, Value.exact, cleared, Nat.cast_natAbs]
      rcases lt_or_ge n 0 with below | above
      · simp [below, abs_of_neg below]
      · simp [above.not_gt, abs_of_nonneg above]
    · rw [isInteger, value]
      simp
  · obtain rfl | rfl : n = 2 ^ 53 ∨ n = -2 ^ 53 := by omega
    · refine ⟨by decide, ?_, by decide⟩
      rw [exact, show decode (ofInt (2 ^ 53)) = .finite false (2 ^ 52) 1 by decide,
        Value.exact]
      norm_num
    · refine ⟨by decide, ?_, by decide⟩
      rw [exact, show decode (ofInt (-2 ^ 53)) = .finite true (2 ^ 52) 1 by decide,
        Value.exact]
      norm_num

end Binary64

end PrimeSearch
