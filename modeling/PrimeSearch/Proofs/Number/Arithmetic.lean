/-
Module: PrimeSearch.Proofs.Number.Arithmetic
Purpose: The sum and the quotient of two doubles are the doubles nearest to the exact ones.
Main exports: Between, pack_roundWithAccuracy, add_eq_nearest, div_eq_nearest, ofInt_add_ofInt
-/
import PrimeSearch.Proofs.Number.Nearest

namespace PrimeSearch

open Float.Model

namespace Binary64

/-!
The logical model keeps two digits beyond a mantissa, the first one that is cut off and whether any
further one is not zero.  They tell on which side of the half the number lies that the mantissa
approximates, and that is all that rounding needs.  So whatever is shifted to the right place first,
the result is the quotient as `ofRatio` rounds it.
-/

/-! ### The two further digits -/

section
variable {m : UnpackedFloat.ExtendedMantissa} {x : ℚ}

/-- The number lies above the mantissa by what the two further digits say. -/
def Between (m : UnpackedFloat.ExtendedMantissa) (x : ℚ) : Prop :=
  match m.roundBit, m.stickyBit with
  | false, false => x = m.mantissa
  | false, true => (m.mantissa : ℚ) < x ∧ x < m.mantissa + 1 / 2
  | true, false => x = m.mantissa + 1 / 2
  | true, true => (m.mantissa : ℚ) + 1 / 2 < x ∧ x < m.mantissa + 1

theorem Between.bounds (between : Between m x) : (m.mantissa : ℚ) ≤ x ∧ x < m.mantissa + 1 := by
  obtain ⟨mantissa, _ | _, _ | _⟩ := m <;> simp only [Between] at between ⊢ <;>
    constructor <;> linarith

/-- Half of the number lies above half of the mantissa as the digits say after a shift. -/
theorem Between.shiftRightOne (between : Between m x) : Between m.shiftRightOne (x / 2) := by
  obtain ⟨mantissa, round, sticky⟩ := m
  have division : (mantissa : ℚ) = 2 * (mantissa / 2 : Nat) + (mantissa % 2 : Nat) := by
    exact_mod_cast (Nat.div_add_mod mantissa 2).symm
  rcases Nat.mod_two_eq_zero_or_one mantissa with even | odd
  · rw [even] at division
    push_cast at division
    rcases round with _ | _ <;> rcases sticky with _ | _ <;>
      simp only [Between, UnpackedFloat.ExtendedMantissa.shiftRightOne, even, bne_self_eq_false,
        Bool.or_false, Bool.or_true, division] at between ⊢ <;>
      first | linarith | constructor <;> linarith
  · rw [odd] at division
    push_cast at division
    have set : (mantissa % 2 != 0) = true := by rw [odd]; rfl
    rcases round with _ | _ <;> rcases sticky with _ | _ <;>
      simp only [Between, UnpackedFloat.ExtendedMantissa.shiftRightOne, set, Bool.or_false,
        Bool.or_true, division] at between ⊢ <;>
      first | linarith | constructor <;> linarith

theorem Between.shiftRight (between : Between m x) (k : Nat) : Between (m >>> k) (x / 2 ^ k) := by
  induction k with
  | zero =>
      rw [pow_zero, div_one]
      exact between
  | succ k ih =>
      rw [pow_succ, ← div_div]
      exact ih.shiftRightOne

/-- Rounding goes a half at most, and less where it ends at an odd number. -/
theorem Between.rounded (between : Between m x) :
    ((m.roundedMantissa : ℚ) - 1 / 2 ≤ x ∧ x ≤ m.roundedMantissa + 1 / 2) ∧
      (m.roundedMantissa % 2 = 1 →
        (m.roundedMantissa : ℚ) - 1 / 2 < x ∧ x < m.roundedMantissa + 1 / 2) := by
  obtain ⟨mantissa, round, sticky⟩ := m
  rcases round with _ | _ <;> rcases sticky with _ | _ <;> simp only [Between] at between
  · change ((mantissa : ℚ) - 1 / 2 ≤ x ∧ x ≤ mantissa + 1 / 2) ∧
      (mantissa % 2 = 1 → (mantissa : ℚ) - 1 / 2 < x ∧ x < mantissa + 1 / 2)
    rw [between]
    refine ⟨⟨?_, ?_⟩, fun _ => ⟨?_, ?_⟩⟩ <;> linarith
  · change ((mantissa : ℚ) - 1 / 2 ≤ x ∧ x ≤ mantissa + 1 / 2) ∧
      (mantissa % 2 = 1 → (mantissa : ℚ) - 1 / 2 < x ∧ x < mantissa + 1 / 2)
    obtain ⟨above, below⟩ := between
    refine ⟨⟨?_, ?_⟩, fun _ => ⟨?_, ?_⟩⟩ <;> linarith
  · -- Half way between two numbers the even one is taken.
    change (((mantissa + mantissa % 2 : Nat) : ℚ) - 1 / 2 ≤ x ∧
        x ≤ (mantissa + mantissa % 2 : Nat) + 1 / 2) ∧
      ((mantissa + mantissa % 2) % 2 = 1 → _)
    refine ⟨?_, fun odd => absurd odd (by omega)⟩
    rcases Nat.mod_two_eq_zero_or_one mantissa with even | odd
    · rw [even, between]
      push_cast
      constructor <;> linarith
    · rw [odd, between]
      push_cast
      constructor <;> linarith
  · change (((mantissa + 1 : Nat) : ℚ) - 1 / 2 ≤ x ∧ x ≤ (mantissa + 1 : Nat) + 1 / 2) ∧
      ((mantissa + 1) % 2 = 1 →
        ((mantissa + 1 : Nat) : ℚ) - 1 / 2 < x ∧ x < (mantissa + 1 : Nat) + 1 / 2)
    obtain ⟨above, below⟩ := between
    push_cast
    refine ⟨⟨?_, ?_⟩, fun _ => ⟨?_, ?_⟩⟩ <;> linarith

end

/-! ### Packing what was rounded -/

/-- Packing puts the fields together, or gives infinity if the exponent is too great. -/
theorem toNat_pack_finite {s : Bool} {mantissa : Nat} {exponent : Int} (positive : 0 < mantissa)
    (width : mantissa < 2 ^ 53) (least : minExponent ≤ exponent)
    (normal : 2 ^ 52 ≤ mantissa ∨ exponent = minExponent) :
    (UnpackedFloat.pack Format.binary64 (.finite (signOf s) mantissa exponent positive)).toNat =
      min infinityBits ((exponent - minExponent).toNat * 2 ^ fractionBits + mantissa) +
        signBit s := by
  by_cases small : exponent ≤ 971
  · have canonical : (Value.finite s mantissa exponent).Canonical := ⟨width, least, small, normal⟩
    have packed := toNat_pack canonical
    rw [Value.unpacked_of_pos _ _ positive, Value.bits_finite] at packed
    rw [packed]
    simp only [minExponent, fractionBits, infinityBits] at least ⊢
    omega
  · have bias : (exponent + (Format.binary64.exponentBias : Nat) + (52 : Nat)).toNat =
        (exponent + 1075).toNat := by
      simp only [Format.exponentBias]
      omega
    delta UnpackedFloat.pack
    dsimp only
    rw [bias, if_pos (by omega)]
    have top : (UnpackedFloat.packedInfinity Format.binary64 (signOf s)).toNat =
        infinityBits + signBit s := by cases s <;> rfl
    rw [top]
    simp only [minExponent, fractionBits, infinityBits] at least normal ⊢
    omega

/-- What is packed is the double with a given sign and given magnitude bits. -/
theorem pack_eq_ofMagnitude {u : UnpackedFloat} {s : Bool} {m : Nat} (small : m ≤ infinityBits)
    (packed : (UnpackedFloat.pack Format.binary64 u).toNat = m + signBit s) :
    Float.ofModel (Float.Model.pack u) = ofMagnitude s m := by
  apply decode_inj
  have left : decode (Float.ofModel (Float.Model.pack u)) =
      valueOfBits (UnpackedFloat.pack Format.binary64 u).toNat := rfl
  rw [left, decode_ofMagnitude_eq s small, packed]

/-! ### Rounding in the logical model -/

theorem targetExponent_eq (mantissa : Nat) (exponent : Int) :
    Format.binary64.targetExponent (totalExponent mantissa exponent) =
      max minExponent ((mantissa.log2 : Int) + exponent - 52) := by
  have target : Format.binary64.targetExponent (totalExponent mantissa exponent) =
      max ((mantissa.log2 : Int) + 1 + exponent - 53) (-1074) := rfl
  rw [target, minExponent]
  omega

/-- The number that a mantissa approximates has as many digits as the mantissa, so the exponent that
suits the one suits the other. -/
theorem targetExponent_eq_of_between {m : UnpackedFloat.ExtendedMantissa} {x : ℚ} {num den : Nat}
    {exponent : Int} (between : Between m x) (numerator : 0 < num) (denominator : 0 < den)
    (value : (num : ℚ) / den = x * 2 ^ exponent)
    (room : exponent ≤ Format.binary64.targetExponent (totalExponent m.mantissa exponent)) :
    targetExponent num den =
      Format.binary64.targetExponent (totalExponent m.mantissa exponent) := by
  obtain ⟨scale, target, low, high⟩ := targetExponent_spec numerator denominator
  obtain ⟨above, below⟩ := between.bounds
  rw [targetExponent_eq] at room ⊢
  rw [target]
  rcases Nat.eq_zero_or_pos m.mantissa with none | some
  · -- Less than one unit is left at the least exponent.
    rw [none, Nat.log2_zero] at room ⊢
    rw [none, Nat.cast_zero, zero_add] at below
    have small : exponent ≤ minExponent := by omega
    have short : scale ≤ exponent := by
      refine exponent_unique low ?_
      rw [value, mul_div_assoc, div_self (by positivity), mul_one]
      linarith
    omega
  · obtain ⟨low', -⟩ := log2_bounds some
    have shifted (a : Int) : (num : ℚ) / den / 2 ^ (a + exponent - 52) = x / 2 ^ a * 2 ^ 52 := by
      rw [value, zpow_sub₀ two_ne_zero, zpow_add₀ two_ne_zero]
      field_simp
    have succ : ((m.mantissa : ℚ) + 1) ≤ 2 ^ ((m.mantissa.log2 : Int) + 1) := by
      rw [← Nat.cast_succ, ← Nat.cast_succ, zpow_natCast]
      exact_mod_cast Nat.succ_le_of_lt (Nat.lt_log2_self (n := m.mantissa))
    congr 1
    apply le_antisymm
    · refine exponent_unique low ?_
      rw [shifted, ← lt_div_iff₀ (by positivity), div_lt_iff₀ (by positivity)]
      refine lt_of_lt_of_le (below.trans_le succ) (le_of_eq ?_)
      rw [zpow_add_one₀ two_ne_zero]
      norm_num
      ring
    · refine exponent_unique ?_ high
      rw [shifted]
      refine le_mul_of_one_le_left (by positivity) ?_
      rw [le_div_iff₀ (by positivity), one_mul]
      exact low'.trans above

/-- A mantissa that was rounded up to the next power of two has one bit too many, and the exponent
takes it: the magnitude bits stay the same. -/
theorem carried {r : Nat} {e : Int} (positive : 0 < r) (widest : r ≤ 2 ^ 53)
    (least : minExponent ≤ e) (normal : 2 ^ 52 ≤ r ∨ e = minExponent) :
    (2 ^ 52 ≤ r / 2 ^ (r.log2 - 52) ∨ e + (r.log2 - 52 : Nat) = minExponent) ∧
      (e + (r.log2 - 52 : Nat) - minExponent).toNat * 2 ^ fractionBits +
          r / 2 ^ (r.log2 - 52) =
        (e - minExponent).toNat * 2 ^ fractionBits + r := by
  rcases Nat.lt_or_eq_of_le widest with short | rfl
  · have digits : r.log2 - 52 = 0 := by
      have := (Nat.log2_lt positive.ne').mpr short
      omega
    rw [digits, Nat.pow_zero, Nat.div_one, Nat.cast_zero, Int.add_zero]
    exact ⟨normal, rfl⟩
  · rw [Nat.log2_two_pow]
    refine ⟨.inl (by decide), ?_⟩
    simp only [fractionBits]
    omega

/-- What is rounded at the exponent that suits it has 53 bits, unless the exponent is the least one;
at most it is rounded up to the next power of two. -/
theorem rounded_bounds {q : ℚ} {r : Nat} {e scale : Int} (low : (2 : ℚ) ^ 52 ≤ q / 2 ^ scale)
    (high : q / 2 ^ scale < 2 ^ 53) (target : e = max minExponent scale)
    (lower : (r : ℚ) - 1 / 2 ≤ q / 2 ^ e) (upper : q / 2 ^ e ≤ r + 1 / 2) :
    r ≤ 2 ^ 53 ∧ (2 ^ 52 ≤ r ∨ e = minExponent) := by
  constructor
  · have size : 0 ≤ q := by
      have positive : (0 : ℚ) < 2 ^ scale := by positivity
      rw [le_div_iff₀ positive] at low
      exact le_trans (by positivity) low
    have lowered : q / 2 ^ e ≤ q / 2 ^ scale :=
      div_le_div_of_nonneg_left size (by positivity) (zpow_le_zpow_right₀ (by norm_num) (by omega))
    have below : (r : ℚ) < 2 ^ 53 + 1 := by linarith
    have below : r < 2 ^ 53 + 1 := by exact_mod_cast below
    omega
  · by_cases lowest : e = minExponent
    · exact .inr lowest
    · rw [show scale = e by omega] at low
      have above : (2 : ℚ) ^ 52 < r + 1 := by linarith
      have above : 2 ^ 52 < r + 1 := by exact_mod_cast above
      exact .inl (by omega)

/-- What the logical model rounds with the two further digits in hand, and packs, is the quotient
rounded to the nearest double. -/
theorem pack_roundWithAccuracy {s : Bool} {mantissa num den : Nat} {exponent : Int}
    {accuracy : UnpackedFloat.Accuracy} {x : ℚ}
    (between : Between (.ofMantissaAndAccuracy mantissa accuracy) x) (numerator : 0 < num)
    (denominator : 0 < den) (value : (num : ℚ) / den = x * 2 ^ exponent)
    (room : exponent ≤ Format.binary64.targetExponent (totalExponent mantissa exponent)) :
    Float.ofModel (Float.Model.pack (UnpackedFloat.roundWithAccuracy Format.binary64 (signOf s)
      mantissa exponent accuracy)) = ofRatio s num den := by
  have target := targetExponent_eq_of_between between numerator denominator value
    (by rwa [mantissa_ofMantissaAndAccuracy])
  rw [mantissa_ofMantissaAndAccuracy] at target
  obtain ⟨scale, spec, low, high⟩ := targetExponent_spec numerator denominator
  unfold UnpackedFloat.roundWithAccuracy UnpackedFloat.shiftToTargetExponent
    UnpackedFloat.shiftToExponent
  dsimp only
  generalize Format.binary64.targetExponent (totalExponent mantissa exponent) = e at room target ⊢
  obtain ⟨shift, amount⟩ : ∃ shift, (e - exponent).toNat = shift := ⟨_, rfl⟩
  have raised : exponent + (shift : Int) = e := by omega
  rw [amount, raised]
  have scaled : (num : ℚ) / den / 2 ^ e = x / 2 ^ shift := by
    rw [value, ← raised, zpow_add₀ two_ne_zero, zpow_natCast]
    field_simp
  obtain ⟨⟨lower, upper⟩, ties⟩ := (between.shiftRight shift).rounded
  rw [← scaled] at lower upper ties
  generalize UnpackedFloat.ExtendedMantissa.roundedMantissa _ = r at lower upper ties ⊢
  have magnitude := magnitudeOfRatio_eq numerator denominator target lower upper ties
  have least : minExponent ≤ e := by omega
  obtain ⟨widest, normal⟩ := rounded_bounds low high (by omega) lower upper
  rw [targetExponent_sub r least, ofRatio, magnitude]
  generalize shifted : (UnpackedFloat.ExtendedMantissa.ofMantissaAndAccuracy r .exact >>>
    (r.log2 - 52)).mantissa = n
  rw [mantissa_shiftRight, mantissa_ofMantissaAndAccuracy] at shifted
  apply pack_eq_ofMagnitude (Nat.min_le_left _ _)
  rcases Nat.eq_zero_or_pos r with rfl | positive
  · obtain rfl : n = 0 := by rw [← shifted, Nat.zero_div]
    obtain rfl : e = minExponent := by omega
    cases s <;> rfl
  · obtain ⟨some, width⟩ := shifted_bounds positive
    rw [shifted] at some width
    obtain ⟨normal, magnitude⟩ := carried positive widest least normal
    rw [shifted] at normal magnitude
    rw [dif_neg some.ne', toNat_pack_finite some width (by omega) normal, magnitude]

/-! ### Normalizing -/

theorem log2_shiftLeft {n : Nat} (positive : 0 < n) (k : Nat) : (n <<< k).log2 = n.log2 + k := by
  induction k with
  | zero => rfl
  | succ k ih =>
      have some : n <<< k ≠ 0 := by
        rw [Nat.shiftLeft_eq]
        exact (Nat.mul_pos positive (Nat.two_pow_pos k)).ne'
      rw [Nat.shiftLeft_succ, Nat.log2_two_mul some, ih, Nat.add_assoc]

section
variable {q : ℚ} {x y : Float}

theorem natAbs_num_pos (some : q ≠ 0) : 0 < q.num.natAbs :=
  Int.natAbs_pos.mpr (Rat.num_ne_zero.mpr some)

theorem pack_round {s : Bool} {mantissa : Nat} {exponent : Int} (positive : 0 < mantissa)
    (value : |q| = mantissa * 2 ^ exponent) (sign : s = decide (q < 0)) :
    Float.ofModel (Float.Model.pack
      (UnpackedFloat.round Format.binary64 (signOf s) mantissa exponent)) = nearest q := by
  have some : q ≠ 0 := by
    rintro rfl
    rw [abs_zero] at value
    exact (by positivity : (mantissa : ℚ) * 2 ^ exponent ≠ 0) value.symm
  unfold UnpackedFloat.round UnpackedFloat.decreaseExponent
  dsimp only
  rw [nearest, ← sign]
  have target := targetExponent_eq mantissa exponent
  generalize Format.binary64.targetExponent (totalExponent mantissa exponent) = e at target ⊢
  obtain ⟨shift, amount⟩ : ∃ shift, (exponent - e).toNat = shift := ⟨_, rfl⟩
  rw [amount]
  refine pack_roundWithAccuracy (x := (mantissa <<< shift : Nat)) rfl (natAbs_num_pos some) q.den_pos
    ?_ ?_
  · rw [natAbs_num_div_den, value, Nat.shiftLeft_eq, zpow_sub₀ two_ne_zero, zpow_natCast]
    push_cast
    field_simp
  · rw [targetExponent_eq, log2_shiftLeft positive]
    push_cast
    omega

/-- A signed mantissa is rounded to the nearest double. -/
theorem pack_normalize {n exponent : Int} (value : q = n * 2 ^ exponent) :
    Float.ofModel (Float.Model.pack
      (UnpackedFloat.normalize Format.binary64 n exponent .positive)) = nearest q := by
  have power : (0 : ℚ) < 2 ^ exponent := by positivity
  have size (positive : 0 < n.natAbs) : |q| = n.natAbs * 2 ^ exponent := by
    rw [value, abs_mul, abs_of_pos power, Nat.cast_natAbs, Int.cast_abs]
  unfold UnpackedFloat.normalize
  rcases lt_trichotomy n 0 with below | rfl | above
  · have negative : (n : ℚ) < 0 := by exact_mod_cast below
    rw [Int.compare_eq_lt.mpr below, show (-n).toNat = n.natAbs by omega]
    refine pack_round (s := true) (by omega) (size (by omega)) ?_
    rw [value]
    exact (decide_eq_true (mul_neg_of_neg_of_pos negative power)).symm
  · rw [value, Int.cast_zero, zero_mul]
    change Float.ofModel (Float.Model.pack (.zero .positive)) = nearest 0
    decide
  · have positive : (0 : ℚ) < n := by exact_mod_cast above
    rw [Int.compare_eq_gt.mpr above, show n.toNat = n.natAbs by omega]
    refine pack_round (s := false) (by omega) (size (by omega)) ?_
    rw [value]
    exact (decide_eq_false (mul_pos positive power).le.not_gt).symm

/-! ### Sums and quotients -/

/-- What a finite value stands for, with a mantissa for an exponent further down. -/
theorem exact_eq_shifted (s : Bool) (mantissa : Nat) {exponent low : Int} (lower : low ≤ exponent) :
    (Value.finite s mantissa exponent).exact =
      ((signOf s).apply (mantissa <<< (exponent - low).toNat : Nat) : Int) * 2 ^ low := by
  obtain ⟨shift, amount⟩ : ∃ shift, (exponent - low).toNat = shift := ⟨_, rfl⟩
  have power : (2 : ℚ) ^ exponent = 2 ^ shift * 2 ^ low := by
    rw [← zpow_natCast, ← zpow_add₀ two_ne_zero]
    congr 1
    omega
  rw [amount, Value.exact, power, Nat.shiftLeft_eq]
  cases s <;> simp only [signOf, UnpackedFloat.Sign.apply, if_true, if_false, Bool.false_eq_true] <;>
    push_cast <;> ring

theorem pack_unpacked (x : Float) : Float.ofModel (Float.Model.pack (decode x).unpacked) = x :=
  decode_inj (decode_pack (canonical_decode x))

/-- The sum of two doubles, not both zero, is the double nearest to the sum of what they stand
for. -/
theorem add_eq_nearest (finite : x.isFinite = true) (finite' : y.isFinite = true)
    (some : exact x ≠ 0 ∨ exact y ≠ 0) : x + y = nearest (exact x + exact y) := by
  obtain ⟨s, m, e, value⟩ := (isFinite_iff x).mp finite
  obtain ⟨t, n, f, value'⟩ := (isFinite_iff y).mp finite'
  have sum : x + y = Float.ofModel (Float.Model.pack
      (UnpackedFloat.add Format.binary64 (decode x).unpacked (decode y).unpacked)) := by
    rw [← unpack_toModel, ← unpack_toModel]
    rfl
  have nothing {z : Float} {u : Bool} {g : Int} (value : decode z = .finite u 0 g) : exact z = 0 := by
    rw [exact, value, Value.exact]
    simp
  have unpacked := pack_unpacked x
  have unpacked' := pack_unpacked y
  rw [sum]
  rcases Nat.eq_zero_or_pos m with rfl | positive <;> rcases Nat.eq_zero_or_pos n with rfl | positive'
  · rw [nothing value, nothing value'] at some
    simp at some
  · rw [nothing value, zero_add, nearest_exact value' positive', value,
      Value.unpacked_zero, value', Value.unpacked_of_pos _ _ positive'] at *
    exact unpacked'
  · rw [nothing value', add_zero, nearest_exact value positive, value',
      Value.unpacked_zero, value, Value.unpacked_of_pos _ _ positive] at *
    exact unpacked
  · rw [value, value', Value.unpacked_of_pos _ _ positive, Value.unpacked_of_pos _ _ positive']
    apply pack_normalize
    rw [exact, exact, value, value', exact_eq_shifted s m (Int.min_le_left e f),
      exact_eq_shifted t n (Int.min_le_right e f), Int.cast_add, add_mul]

/-- What is left over by a division tells where the quotient lies above its integral part. -/
theorem between_div (a : Nat) {n : Nat} (positive : 0 < n) :
    Between (.ofMantissaAndAccuracy (a / n) (UnpackedFloat.accuracyOfFraction (a % n) n))
      ((a : ℚ) / n) := by
  have denominator : (0 : ℚ) < n := by exact_mod_cast positive
  have division : (a : ℚ) = n * (a / n : Nat) + (a % n : Nat) := by
    exact_mod_cast (Nat.div_add_mod a n).symm
  have rest : a % n < n := Nat.mod_lt a positive
  generalize a / n = quotient at division ⊢
  generalize a % n = remainder at division rest ⊢
  rw [division, add_div, mul_div_cancel_left₀ _ denominator.ne']
  have whole : (remainder : ℚ) / n < 1 := by
    rw [div_lt_one denominator]
    exact_mod_cast rest
  unfold UnpackedFloat.accuracyOfFraction
  split
  next none =>
    rw [none, Nat.cast_zero, zero_div]
    exact add_zero _
  next some =>
    have above : (0 : ℚ) < remainder / n :=
      div_pos (by exact_mod_cast Nat.pos_of_ne_zero some) denominator
    rcases lt_trichotomy (2 * remainder) n with less | half | greater
    · have less' : 2 * (remainder : ℚ) < n := by exact_mod_cast less
      have half : (remainder : ℚ) / n < 1 / 2 := by
        rw [div_lt_iff₀ denominator]
        linarith
      rw [Nat.compare_eq_lt.mpr less]
      change (quotient : ℚ) < quotient + remainder / n ∧
        (quotient : ℚ) + remainder / n < quotient + 1 / 2
      constructor <;> linarith
    · have half' : 2 * (remainder : ℚ) = n := by exact_mod_cast half
      rw [Nat.compare_eq_eq.mpr half, ← half']
      change (quotient : ℚ) + remainder / (2 * remainder) = quotient + 1 / 2
      have some' : (remainder : ℚ) ≠ 0 := by exact_mod_cast some
      field_simp
    · have greater' : (n : ℚ) < 2 * remainder := by exact_mod_cast greater
      have half : 1 / 2 < (remainder : ℚ) / n := by
        rw [lt_div_iff₀ denominator]
        linarith
      rw [Nat.compare_eq_gt.mpr greater]
      change (quotient : ℚ) + 1 / 2 < quotient + remainder / n ∧
        (quotient : ℚ) + remainder / n < quotient + 1
      constructor <;> linarith

theorem log2_le_log2_div (a : Nat) {n : Nat} (positive : 0 < n) :
    a.log2 ≤ (a / n).log2 + n.log2 + 1 := by
  rcases Nat.eq_zero_or_pos a with rfl | some
  · rw [Nat.log2_zero]
    exact Nat.zero_le _
  apply Nat.le_of_lt_succ
  rw [Nat.log2_lt some.ne']
  calc a < (a / n + 1) * n := by
        rw [Nat.add_one_mul]
        exact Nat.lt_div_mul_add positive
    _ ≤ 2 ^ ((a / n).log2 + 1) * n := Nat.mul_le_mul_right n Nat.lt_log2_self
    _ ≤ 2 ^ ((a / n).log2 + 1) * 2 ^ (n.log2 + 1) := Nat.mul_le_mul_left _ Nat.lt_log2_self.le
    _ = 2 ^ ((a / n).log2 + n.log2 + 1 + 1) := by rw [← pow_add]; congr 1; omega

theorem div_eq_pack (x y : Float) : x / y = Float.ofModel (Float.Model.pack
    (UnpackedFloat.div Format.binary64 (decode x).unpacked (decode y).unpacked)) := by
  rw [← unpack_toModel, ← unpack_toModel]
  rfl

/-- The sign of a quotient is the quotient of the signs. -/
theorem signOf_div {a b : ℚ} (some : a ≠ 0) (some' : b ≠ 0) :
    signOf (decide (a < 0)) / signOf (decide (b < 0)) = signOf (decide (a / b < 0)) := by
  rcases lt_or_gt_of_ne some with below | above <;> rcases lt_or_gt_of_ne some' with below' | above'
  · rw [decide_eq_true below, decide_eq_true below',
      decide_eq_false (div_pos_of_neg_of_neg below below').le.not_gt]
    rfl
  · rw [decide_eq_true below, decide_eq_false above'.le.not_gt,
      decide_eq_true (div_neg_of_neg_of_pos below above')]
    rfl
  · rw [decide_eq_false above.le.not_gt, decide_eq_true below',
      decide_eq_true (div_neg_of_pos_of_neg above below')]
    rfl
  · rw [decide_eq_false above.le.not_gt, decide_eq_false above'.le.not_gt,
      decide_eq_false (div_pos above above').le.not_gt]
    rfl

/-- The quotient of two doubles, neither of them zero, is the double nearest to the quotient of what
they stand for. -/
theorem div_eq_nearest (some : exact x ≠ 0) (some' : exact y ≠ 0) :
    x / y = nearest (exact x / exact y) := by
  obtain ⟨s, m, e, value, positive⟩ := exists_decode_of_exact_ne_zero some
  obtain ⟨t, n, f, value', positive'⟩ := exists_decode_of_exact_ne_zero some'
  obtain ⟨size, sign⟩ := exact_of_decode value positive
  obtain ⟨size', sign'⟩ := exact_of_decode value' positive'
  rw [div_eq_pack, value, value', Value.unpacked_of_pos _ _ positive,
    Value.unpacked_of_pos _ _ positive']
  unfold UnpackedFloat.div UnpackedFloat.divCore
  dsimp only
  have target : Format.binary64.targetExponent (totalExponent m e - totalExponent n f) =
      max ((m.log2 : Int) + e - n.log2 - f - 53) minExponent := by
    change max ((m.log2 : Int) + 1 + e - (n.log2 + 1 + f) - 53) (-1074) = _
    rw [minExponent]
    omega
  rw [← sign, ← sign', signOf_div some some', nearest, target]
  obtain ⟨g, lowest⟩ : ∃ g, min (e - f) (max ((m.log2 : Int) + e - n.log2 - f - 53) minExponent) = g :=
    ⟨_, rfl⟩
  obtain ⟨shift, amount⟩ : ∃ shift, (e - f - g).toNat = shift := ⟨_, rfl⟩
  rw [lowest, amount]
  refine pack_roundWithAccuracy (between_div _ positive') (natAbs_num_pos (div_ne_zero some some'))
    (exact x / exact y).den_pos ?_ ?_
  · have power : (2 : ℚ) ^ e = 2 ^ shift * 2 ^ g * 2 ^ f := by
      rw [← zpow_natCast, ← zpow_add₀ two_ne_zero, ← zpow_add₀ two_ne_zero]
      congr 1
      omega
    rw [natAbs_num_div_den, abs_div, size, size', power, Nat.shiftLeft_eq]
    push_cast
    field_simp
  · have digits := log2_le_log2_div (m <<< shift) positive'
    rw [log2_shiftLeft positive] at digits
    rw [targetExponent_eq]
    omega

end

/-- A sum of whole numbers, both of at most `2 ^ 53` and not both zero, is rounded once. -/
theorem ofInt_add_ofInt {a b : Int} (small : a.natAbs ≤ 2 ^ 53) (small' : b.natAbs ≤ 2 ^ 53)
    (some : a ≠ 0 ∨ b ≠ 0) : ofInt a + ofInt b = ofInt (a + b) := by
  obtain ⟨finite, exactly, -⟩ := ofInt_spec small
  obtain ⟨finite', exactly', -⟩ := ofInt_spec small'
  rw [add_eq_nearest finite finite', exactly, exactly', ofInt_eq_nearest]
  · push_cast
    rfl
  · rw [exactly, exactly']
    exact_mod_cast some

end Binary64

end PrimeSearch
