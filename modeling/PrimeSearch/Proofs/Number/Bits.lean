/-
Module: PrimeSearch.Proofs.Number.Bits
Purpose: A double and what it stands for determine each other, and the operations on doubles
  that only look at the sign or the order are operations on what they stand for.
Main exports: Value.Canonical, Value.bits, canonical_decode, bits_decode, decode_inj,
  decode_of_bits, decode_ofMagnitude, decode_neg, decode_abs, isFinite_iff
-/
import Mathlib.Algebra.Group.Nat.Defs
import PrimeSearch.Number.Binary64

namespace PrimeSearch

open Float.Model

namespace Binary64

/-!
`decode` reads the fields of the bit pattern with the arithmetic of natural numbers.  The
logical model of doubles reads the same fields from a bit vector, works on the result and
packs it again.  Here the two readings are shown to be the same (`unpack_eq_decode`), and
packing is shown to be the inverse of decoding (`toBits_pack`, `decode_of_bits`).
-/

/-! ### Fields of a bit pattern -/

theorem toNat_unpackExponent (b : BitVec 64) :
    (@UnpackedFloat.unpackExponent Format.binary64 b).toNat =
      b.toNat / 2 ^ 52 % 2 ^ 11 := by
  simp [UnpackedFloat.unpackExponent, Nat.shiftRight_eq_div_pow]

theorem toNat_unpackMantissa (b : BitVec 64) :
    (@UnpackedFloat.unpackMantissa Format.binary64 b).toNat = b.toNat % 2 ^ 52 := by
  simp [UnpackedFloat.unpackMantissa]

theorem toNat_unpackSign (b : BitVec 64) :
    (@UnpackedFloat.unpackSign Format.binary64 b).toNat = b.toNat / 2 ^ 63 := by
  have small := b.isLt
  change (b.toNat >>> 63) % 2 ^ 1 = b.toNat / 2 ^ 63
  rw [Nat.shiftRight_eq_div_pow]
  omega

theorem toNat_packComponents (sign : UnpackedFloat.Sign) (exponent : BitVec 11)
    (mantissa : BitVec 52) :
    (UnpackedFloat.packComponents Format.binary64 sign exponent mantissa).toNat =
      sign.toBitVec.toNat * 2 ^ 63 + exponent.toNat * 2 ^ 52 + mantissa.toNat := by
  have exponentSmall := exponent.isLt
  have mantissaSmall := mantissa.isLt
  simp only [UnpackedFloat.packComponents, BitVec.toNat_append]
  rw [← Nat.shiftLeft_add_eq_or_of_lt exponentSmall, ← Nat.shiftLeft_add_eq_or_of_lt mantissaSmall]
  simp only [Nat.shiftLeft_eq]
  omega

/-! ### Values that doubles stand for -/

/-- The sign as the logical model writes it. -/
def signOf (negative : Bool) : UnpackedFloat.Sign := if negative then .negative else .positive

/-- Bit pattern of the quiet not-a-number. -/
def nanBits : Nat := infinityBits + 2 ^ 51

/-- The sign bit. -/
def signBit (negative : Bool) : Nat := if negative then 2 ^ 63 else 0

namespace Value

/-- Some double stands for the value: the mantissa has at most 53 bits, exactly 53 above the
least exponent, and the exponent is within bounds. -/
def Canonical : Value → Prop
  | .finite _ mantissa exponent =>
      mantissa < 2 ^ 53 ∧ minExponent ≤ exponent ∧ exponent ≤ 971 ∧
        (2 ^ 52 ≤ mantissa ∨ exponent = minExponent)
  | _ => True

/-- Bit pattern of the double that stands for a value.  The implicit bit of a normal mantissa
carries into the exponent. -/
def bits : Value → Nat
  | .nan => nanBits
  | .infinite negative => infinityBits + signBit negative
  | .finite negative mantissa exponent =>
      (exponent - minExponent).toNat * 2 ^ fractionBits + mantissa + signBit negative

/-- The value as the logical model writes it. -/
def unpacked : Value → UnpackedFloat
  | .nan => .notANumber
  | .infinite negative => .infinity (signOf negative)
  | .finite negative mantissa exponent =>
      if positive : 0 < mantissa then .finite (signOf negative) mantissa exponent positive
      else .zero (signOf negative)

/-- The value with the opposite sign. -/
def neg : Value → Value
  | .nan => .nan
  | .infinite negative => .infinite !negative
  | .finite negative mantissa exponent => .finite (!negative) mantissa exponent

/-- The value without its sign. -/
def abs : Value → Value
  | .nan => .nan
  | .infinite _ => .infinite false
  | .finite _ mantissa exponent => .finite false mantissa exponent

theorem bits_finite (negative : Bool) (mantissa : Nat) (exponent : Int) :
    (Value.finite negative mantissa exponent).bits =
      (exponent - minExponent).toNat * 2 ^ fractionBits + mantissa + signBit negative :=
  rfl

theorem unpacked_of_pos (negative : Bool) {mantissa : Nat} (exponent : Int)
    (positive : 0 < mantissa) :
    (Value.finite negative mantissa exponent).unpacked =
      .finite (signOf negative) mantissa exponent positive :=
  dif_pos positive

theorem unpacked_zero (negative : Bool) (exponent : Int) :
    (Value.finite negative 0 exponent).unpacked = .zero (signOf negative) :=
  rfl

theorem Canonical.neg {v : Value} (canonical : v.Canonical) : v.neg.Canonical := by
  cases v <;> exact canonical

theorem Canonical.abs {v : Value} (canonical : v.Canonical) : v.abs.Canonical := by
  cases v <;> exact canonical

theorem unpacked_neg (v : Value) : v.neg.unpacked = v.unpacked.neg := by
  rcases v with _ | negative | ⟨negative, mantissa, exponent⟩
  · rfl
  · cases negative <;> rfl
  · rcases Nat.eq_zero_or_pos mantissa with rfl | positive
    · cases negative <;> rfl
    · rw [Value.neg, unpacked_of_pos _ _ positive, unpacked_of_pos _ _ positive]
      cases negative <;> rfl

theorem unpacked_abs (v : Value) : v.abs.unpacked = v.unpacked.abs := by
  rcases v with _ | negative | ⟨negative, mantissa, exponent⟩
  · rfl
  · rfl
  · rcases Nat.eq_zero_or_pos mantissa with rfl | positive
    · rfl
    · rw [Value.abs, unpacked_of_pos _ _ positive, unpacked_of_pos _ _ positive]
      rfl

end Value

/-! ### Decoding and packing -/

/-- What a bit pattern stands for. -/
def valueOfBits (b : Nat) : Value :=
  if b / 2 ^ 52 % 2 ^ 11 = 2 ^ 11 - 1 then
    if b % 2 ^ 52 = 0 then .infinite (decide (2 ^ 63 ≤ b)) else .nan
  else if b / 2 ^ 52 % 2 ^ 11 = 0 then .finite (decide (2 ^ 63 ≤ b)) (b % 2 ^ 52) minExponent
  else
    .finite (decide (2 ^ 63 ≤ b)) (b % 2 ^ 52 + 2 ^ 52)
      (Int.ofNat (b / 2 ^ 52 % 2 ^ 11) - 1075)

theorem decode_eq (x : Float) : decode x = valueOfBits x.toBits.toNat := rfl

theorem canonical_valueOfBits (b : Nat) : (valueOfBits b).Canonical := by
  unfold valueOfBits
  split
  · split <;> trivial
  · split
    · refine ⟨?_, ?_, ?_, ?_⟩ <;> simp [minExponent]
      omega
    · refine ⟨?_, ?_, ?_, ?_⟩ <;> simp [minExponent] <;> omega

theorem canonical_decode (x : Float) : (decode x).Canonical :=
  canonical_valueOfBits _

/-- A bit pattern is recovered from what it stands for, unless that is no number. -/
theorem bits_valueOfBits {b : Nat} (small : b < 2 ^ 64) (number : valueOfBits b ≠ .nan) :
    (valueOfBits b).bits = b := by
  unfold valueOfBits at number ⊢
  split
  next top =>
    split
    next blank =>
      simp only [Value.bits, signBit, infinityBits, fractionBits, decide_eq_true_eq]
      split <;> omega
    next marked => exact absurd (by rw [if_pos top, if_neg marked]) number
  next notTop =>
    split
    next low =>
      simp only [Value.bits, signBit, fractionBits, decide_eq_true_eq, minExponent]
      split <;> omega
    next notLow =>
      simp only [Value.bits, signBit, fractionBits, decide_eq_true_eq, minExponent,
        Int.ofNat_eq_natCast]
      split <;> omega

/-- The bit pattern of a value stands for the value. -/
theorem valueOfBits_bits {v : Value} (canonical : v.Canonical) : valueOfBits v.bits = v := by
  rcases v with _ | negative | ⟨negative, mantissa, exponent⟩
  · rfl
  · cases negative <;> rfl
  · obtain ⟨width, least, greatest, normal⟩ := canonical
    obtain ⟨biased, rfl⟩ : ∃ biased : Nat, exponent = biased - 1074 :=
      ⟨(exponent + 1074).toNat, by simp only [minExponent] at least; omega⟩
    have sign : decide (2 ^ 63 ≤ biased * 2 ^ 52 + mantissa + signBit negative) = negative := by
      cases negative with
      | false =>
          simp [signBit]
          omega
      | true => simp [signBit]
    have shape : (Value.finite negative mantissa (biased - 1074)).bits =
        biased * 2 ^ 52 + mantissa + signBit negative := by
      simp [Value.bits, minExponent, fractionBits]
    have signBits : signBit negative = 0 ∨ signBit negative = 2 ^ 63 := by
      cases negative <;> simp [signBit]
    rw [shape, valueOfBits, sign]
    generalize signBit negative = top at signBits
    simp only [minExponent] at least greatest normal ⊢
    rw [if_neg (by omega)]
    split
    next low =>
      congr 1 <;> omega
    next notLow =>
      congr 1
      · omega
      · simp only [Int.ofNat_eq_natCast]
        omega

/-- A double that is no number has one bit pattern only. -/
theorem toNat_toBits_of_nan {x : Float} (exponent : x.toBits.toNat / 2 ^ 52 % 2 ^ 11 = 2 ^ 11 - 1)
    (mantissa : x.toBits.toNat % 2 ^ 52 ≠ 0) : x.toBits.toNat = nanBits := by
  obtain ⟨⟨pattern, valid⟩⟩ := x
  have quiet : pattern.toBitVec = UnpackedFloat.packedNaN Format.binary64 := by
    apply valid.eq_packedNaN
    · apply BitVec.eq_of_toNat_eq
      rw [toNat_unpackExponent]
      exact exponent
    · intro blank
      apply mantissa
      have fields := toNat_unpackMantissa pattern.toBitVec
      rw [blank] at fields
      exact fields.symm
  change pattern.toBitVec.toNat = nanBits
  rw [quiet]
  rfl

theorem bits_decode (x : Float) : (decode x).bits = x.toBits.toNat := by
  by_cases number : decode x = .nan
  · rw [number]
    rw [decode_eq, valueOfBits] at number
    split at number
    next top =>
      split at number
      · cases number
      next marked => exact (toNat_toBits_of_nan top marked).symm
    next => split at number <;> cases number
  · exact bits_valueOfBits x.toBits.toNat_lt number

/-- A double is determined by what it stands for. -/
theorem decode_inj {x y : Float} (same : decode x = decode y) : x = y := by
  have pattern : x.toBits.toNat = y.toBits.toNat := by
    rw [← bits_decode x, ← bits_decode y, same]
  obtain ⟨⟨xBits, xValid⟩⟩ := x
  obtain ⟨⟨yBits, yValid⟩⟩ := y
  obtain rfl : xBits = yBits := UInt64.toNat_inj.mp pattern
  rfl

/-- A double with the bit pattern of a value stands for the value. -/
theorem decode_of_bits {x : Float} {v : Value} (canonical : v.Canonical)
    (pattern : x.toBits.toNat = v.bits) : decode x = v := by
  rw [decode_eq, pattern, valueOfBits_bits canonical]

theorem ofBitVec_unpackSign (b : BitVec 64) :
    UnpackedFloat.Sign.ofBitVec (@UnpackedFloat.unpackSign Format.binary64 b) =
      signOf (decide (2 ^ 63 ≤ b.toNat)) := by
  have small := b.isLt
  have field := toNat_unpackSign b
  rw [UnpackedFloat.Sign.ofBitVec, signOf]
  by_cases negative : 2 ^ 63 ≤ b.toNat
  · have set : @UnpackedFloat.unpackSign Format.binary64 b ≠ 0#1 := by
      intro clear
      rw [clear] at field
      simp at field
      omega
    rw [if_neg set, decide_eq_true negative, if_pos rfl]
  · have clear : @UnpackedFloat.unpackSign Format.binary64 b = 0#1 := by
      apply BitVec.eq_of_toNat_eq
      rw [field]
      simp
      omega
    rw [if_pos clear, decide_eq_false negative, if_neg Bool.false_ne_true]

/-- The logical model reads a bit pattern as decoding does. -/
theorem unpack_eq_unpacked (b : BitVec 64) :
    UnpackedFloat.unpack Format.binary64 b = (valueOfBits b.toNat).unpacked := by
  have exponentField := toNat_unpackExponent b
  have mantissaField := toNat_unpackMantissa b
  have top : @UnpackedFloat.unpackExponent Format.binary64 b = -1#11 ↔
      b.toNat / 2 ^ 52 % 2 ^ 11 = 2 ^ 11 - 1 := by
    rw [← exponentField, ← BitVec.toNat_inj]
    rfl
  have low : @UnpackedFloat.unpackExponent Format.binary64 b = 0#11 ↔
      b.toNat / 2 ^ 52 % 2 ^ 11 = 0 := by
    rw [← exponentField, ← BitVec.toNat_inj]
    rfl
  have blank : @UnpackedFloat.unpackMantissa Format.binary64 b = 0#52 ↔
      b.toNat % 2 ^ 52 = 0 := by
    rw [← mantissaField, ← BitVec.toNat_inj]
    rfl
  delta UnpackedFloat.unpack
  dsimp only
  rw [ofBitVec_unpackSign, valueOfBits]
  by_cases isTop : b.toNat / 2 ^ 52 % 2 ^ 11 = 2 ^ 11 - 1
  · rw [if_pos (top.mpr isTop), if_pos isTop]
    by_cases isBlank : b.toNat % 2 ^ 52 = 0
    · rw [if_pos (blank.mpr isBlank), if_pos isBlank]
      rfl
    · rw [if_neg (mt blank.mp isBlank), if_neg isBlank]
      rfl
  rw [if_neg (mt top.mp isTop), if_neg isTop]
  by_cases isLow : b.toNat / 2 ^ 52 % 2 ^ 11 = 0
  · rw [if_pos (low.mpr isLow), if_pos isLow]
    by_cases isBlank : b.toNat % 2 ^ 52 = 0
    · rw [dif_pos (blank.mpr isBlank), isBlank, Value.unpacked_zero]
    · rw [dif_neg (mt blank.mp isBlank), Value.unpacked_of_pos _ _ (Nat.pos_of_ne_zero isBlank),
        UnpackedFloat.finite.injEq]
      refine ⟨rfl, mantissaField, ?_⟩
      rw [exponentField, minExponent]
      simp only [Format.exponentBias]
      omega
  · rw [if_neg (mt low.mp isLow), if_neg isLow, Value.unpacked_of_pos _ _ (by omega),
      UnpackedFloat.finite.injEq]
    refine ⟨rfl, ?_, ?_⟩
    · rw [BitVec.toNat_append, ← Nat.shiftLeft_add_eq_or_of_lt (BitVec.isLt _), mantissaField]
      simp only [BitVec.toNat_ofNat, Nat.shiftLeft_eq]
      omega
    · rw [exponentField]
      simp only [Format.exponentBias, Int.ofNat_eq_natCast]
      omega

/-- The logical model packs a value into the bit pattern of the value. -/
theorem toNat_pack {v : Value} (canonical : v.Canonical) :
    (UnpackedFloat.pack Format.binary64 v.unpacked).toNat = v.bits := by
  rcases v with _ | negative | ⟨negative, mantissa, exponent⟩
  · rfl
  · cases negative <;> rfl
  · obtain ⟨width, least, greatest, normal⟩ := canonical
    have sign : (signOf negative).toBitVec.toNat * 2 ^ 63 = signBit negative := by
      cases negative <;> rfl
    simp only [minExponent] at least normal
    rcases Nat.eq_zero_or_pos mantissa with rfl | positive
    · obtain rfl : exponent = -1074 := by omega
      change (UnpackedFloat.packComponents Format.binary64 (signOf negative) 0#11 0#52).toNat = _
      rw [toNat_packComponents, sign]
      simp [Value.bits, minExponent]
    · have bias : (exponent + (Format.binary64.exponentBias : Nat) + (52 : Nat)).toNat =
          (exponent + 1075).toNat := by
        simp only [Format.exponentBias]
        omega
      rw [Value.unpacked_of_pos _ _ positive]
      delta UnpackedFloat.pack
      dsimp only
      rw [bias, if_neg (by omega)]
      simp only [Value.bits, minExponent, fractionBits]
      by_cases wide : 2 ^ 52 ≤ mantissa
      · have digits : mantissa.log2 = 52 := (Nat.log2_eq_iff (by omega)).mpr ⟨wide, width⟩
        rw [if_pos (by rw [digits]; rfl), toNat_packComponents, sign]
        simp only [BitVec.toNat_ofNat]
        omega
      · obtain rfl : exponent = -1074 := by omega
        have digits : mantissa.log2 < 52 := (Nat.log2_lt (by omega)).mpr (by omega)
        have precision : Format.binary64.mantissaBits = 53 := rfl
        rw [if_neg (by omega), toNat_packComponents, sign]
        simp only [BitVec.toNat_ofNat]
        omega

/-! ### Operations on the sign -/

theorem unpack_toModel (x : Float) : x.toModel.unpack = (decode x).unpacked :=
  unpack_eq_unpacked x.toModel.toBits.toBitVec

/-- What is packed stands for the value it was packed from. -/
theorem decode_pack {v : Value} (canonical : v.Canonical) :
    decode (Float.ofModel (Float.Model.pack v.unpacked)) = v :=
  decode_of_bits canonical (toNat_pack canonical)

theorem decode_neg (x : Float) : decode (-x) = (decode x).neg := by
  change decode (Float.ofModel (Float.Model.pack x.toModel.unpack.neg)) = _
  rw [unpack_toModel, ← Value.unpacked_neg]
  exact decode_pack (canonical_decode x).neg

theorem decode_abs (x : Float) : decode x.abs = (decode x).abs := by
  change decode (Float.ofModel (Float.Model.pack x.toModel.unpack.abs)) = _
  rw [unpack_toModel, ← Value.unpacked_abs]
  exact decode_pack (canonical_decode x).abs

theorem decode_ofBits (b : UInt64) : decode (Float.ofBits b) = valueOfBits b.toNat := by
  change decode
    (Float.ofModel (Float.Model.pack (UnpackedFloat.unpack Format.binary64 b.toBitVec))) = _
  rw [unpack_eq_unpacked]
  exact decode_pack (canonical_valueOfBits _)

/-- A sign and the magnitude bits of a value put together give the value. -/
theorem decode_ofMagnitude {v : Value} (canonical : v.Canonical) {negative : Bool}
    {magnitude : Nat} (pattern : v.bits = magnitude + signBit negative)
    (small : magnitude < 2 ^ 63) : decode (ofMagnitude negative magnitude) = v := by
  have fits : magnitude + signBit negative < 2 ^ 64 := by
    cases negative <;> simp only [signBit, if_true, if_false, Bool.false_eq_true] <;> omega
  change decode (Float.ofBits (UInt64.ofNat (magnitude + signBit negative))) = v
  rw [decode_ofBits, UInt64.toNat_ofNat_of_lt' fits, ← pattern, valueOfBits_bits canonical]

theorem isFinite_iff (x : Float) :
    x.isFinite = true ↔
      ∃ negative mantissa exponent, decode x = .finite negative mantissa exponent := by
  change x.toModel.unpack.isFinite = true ↔ _
  rw [unpack_toModel]
  rcases decode x with _ | negative | ⟨negative, mantissa, exponent⟩
  · constructor
    · exact nofun
    · rintro ⟨_, _, _, same⟩
      cases same
  · constructor
    · exact nofun
    · rintro ⟨_, _, _, same⟩
      cases same
  · rcases Nat.eq_zero_or_pos mantissa with rfl | positive
    · exact ⟨fun _ => ⟨negative, 0, exponent, rfl⟩, fun _ => rfl⟩
    · rw [Value.unpacked_of_pos _ _ positive]
      exact ⟨fun _ => ⟨negative, mantissa, exponent, rfl⟩, fun _ => rfl⟩

theorem isNaN_iff (x : Float) : x.isNaN = true ↔ decode x = .nan := by
  change x.toModel.unpack.isNaN = true ↔ _
  rw [unpack_toModel]
  rcases decode x with _ | negative | ⟨negative, mantissa, exponent⟩
  · exact ⟨fun _ => rfl, fun _ => rfl⟩
  · exact ⟨nofun, nofun⟩
  · rcases Nat.eq_zero_or_pos mantissa with rfl | positive
    · exact ⟨nofun, nofun⟩
    · rw [Value.unpacked_of_pos _ _ positive]
      exact ⟨nofun, nofun⟩

end Binary64

end PrimeSearch
