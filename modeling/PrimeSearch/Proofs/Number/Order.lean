/-
Module: PrimeSearch.Proofs.Number.Order
Purpose: The order of doubles is the order of integers.
Main exports: Value.key, lt_iff, le_iff, beq_iff, eq_of_beq, Binary64.le_trans,
  Binary64.lt_of_le_of_lt, Binary64.le_of_not_lt
-/
import PrimeSearch.Proofs.Number.Bits

namespace PrimeSearch

open Float.Model

namespace Binary64

/-!
The magnitude bits of doubles are in the order of the magnitudes, because the exponent stands
above the mantissa.  So a double is compared by its magnitude bits with the sign put before
them.  The two zeros have the same key, and what is no number has none.
-/

namespace Value

/-- Magnitude bits of a value. -/
def magnitude : Value → Nat
  | .nan => nanBits
  | .infinite _ => infinityBits
  | .finite _ mantissa exponent => (exponent - minExponent).toNat * 2 ^ fractionBits + mantissa

/-- Whether a value has the minus sign. -/
def negative : Value → Bool
  | .nan => false
  | .infinite negative => negative
  | .finite negative _ _ => negative

/-- The integer by which a value is compared. -/
def key (v : Value) : Int := if v.negative then -(v.magnitude : Int) else v.magnitude

theorem bits_eq (v : Value) : v.bits = v.magnitude + signBit v.negative := by
  cases v <;> rfl

/-- Values of the same sign and magnitude are the same. -/
theorem eq_of_magnitude {v w : Value} (canonical : v.Canonical) (canonical' : w.Canonical)
    (sign : v.negative = w.negative) (magnitude : v.magnitude = w.magnitude) : v = w := by
  rw [← valueOfBits_bits canonical, ← valueOfBits_bits canonical', bits_eq, bits_eq, sign,
    magnitude]

/-- Only zeros share a key. -/
theorem eq_of_key {v w : Value} (canonical : v.Canonical) (canonical' : w.Canonical)
    (same : v.key = w.key) (nonzero : w.key ≠ 0) : v = w := by
  unfold key at same nonzero
  have agree : v.negative = w.negative ∧ v.magnitude = w.magnitude := by
    cases hv : v.negative <;> cases hw : w.negative <;>
      simp only [hv, hw, if_true, if_false, Bool.false_eq_true] at same nonzero
    -- Opposite signs would make both numbers zero.
    · exact ⟨rfl, by omega⟩
    · omega
    · omega
    · exact ⟨rfl, by omega⟩
  exact eq_of_magnitude canonical canonical' agree.1 agree.2

theorem magnitude_lt {negative : Bool} {mantissa : Nat} {exponent : Int}
    (canonical : (Value.finite negative mantissa exponent).Canonical) :
    (Value.finite negative mantissa exponent).magnitude < infinityBits := by
  obtain ⟨width, least, greatest, -⟩ := canonical
  simp only [magnitude, minExponent, fractionBits, infinityBits] at least ⊢
  omega

/-- Exponents before mantissas: the magnitude bits compare as the two one after the other. -/
theorem compare_magnitude {s t : Bool} {m n : Nat} {e f : Int}
    (canonical : (Value.finite s m e).Canonical) (canonical' : (Value.finite t n f).Canonical) :
    (compare e f).then (compare m n) =
      compare ((Value.finite s m e).magnitude : Int) (Value.finite t n f).magnitude := by
  obtain ⟨width, least, -, normal⟩ := canonical
  obtain ⟨width', least', -, normal'⟩ := canonical'
  simp only [magnitude, minExponent, fractionBits] at *
  rcases Int.lt_trichotomy e f with below | rfl | above
  · rw [Int.compare_eq_lt.mpr below, Int.compare_eq_lt.mpr (by omega)]
    rfl
  · rw [Int.compare_eq_eq.mpr rfl, Ordering.eq_then]
    rcases Nat.lt_trichotomy m n with below | rfl | above
    · rw [Nat.compare_eq_lt.mpr below, Int.compare_eq_lt.mpr (by omega)]
    · rw [Nat.compare_eq_eq.mpr rfl, Int.compare_eq_eq.mpr rfl]
    · rw [Nat.compare_eq_gt.mpr above, Int.compare_eq_gt.mpr (by omega)]
  · rw [Int.compare_eq_gt.mpr above, Int.compare_eq_gt.mpr (by omega)]
    rfl

theorem compare_neg_neg (a b : Int) : compare (-a) (-b) = (compare a b).swap := by
  rcases Int.lt_trichotomy a b with below | rfl | above
  · rw [Int.compare_eq_lt.mpr below, Int.compare_eq_gt.mpr (by omega)]
    rfl
  · rw [Int.compare_eq_eq.mpr rfl, Int.compare_eq_eq.mpr rfl]
    rfl
  · rw [Int.compare_eq_gt.mpr above, Int.compare_eq_lt.mpr (by omega)]
    rfl

/-- A finite value is a zero or has a positive mantissa, and its magnitude bits tell which. -/
theorem zero_or_positive {s : Bool} {m : Nat} {e : Int}
    (canonical : (Value.finite s m e).Canonical) :
    ((Value.finite s m e).unpacked = .zero (signOf s) ∧ (Value.finite s m e).magnitude = 0) ∨
      ∃ positive, (Value.finite s m e).unpacked = .finite (signOf s) m e positive ∧
        0 < (Value.finite s m e).magnitude := by
  rcases Nat.eq_zero_or_pos m with rfl | positive
  · refine .inl ⟨unpacked_zero s e, ?_⟩
    obtain ⟨-, -, -, normal⟩ := canonical
    simp only [magnitude, minExponent, fractionBits] at *
    omega
  · refine .inr ⟨positive, unpacked_of_pos s e positive, ?_⟩
    simp only [magnitude]
    omega

/-- The comparison of the logical model compares keys. -/
theorem compare_unpacked {v w : Value} (canonical : v.Canonical) (canonical' : w.Canonical)
    (number : v ≠ .nan) (number' : w ≠ .nan) :
    v.unpacked.compare w.unpacked = some (compare v.key w.key) := by
  have lt {a b : Int} (h : a < b) : some Ordering.lt = some (compare a b) := by
    rw [Int.compare_eq_lt.mpr h]
  have gt {a b : Int} (h : b < a) : some Ordering.gt = some (compare a b) := by
    rw [Int.compare_eq_gt.mpr h]
  have eq {a b : Int} (h : a = b) : some Ordering.eq = some (compare a b) := by
    rw [Int.compare_eq_eq.mpr h]
  have top (s : Bool) : (Value.infinite s).magnitude = infinityBits := rfl
  rcases v with _ | s | ⟨s, m, e⟩
  · exact absurd rfl number
  · rcases w with _ | t | ⟨t, n, f⟩
    · exact absurd rfl number'
    · cases s <;> cases t <;> rfl
    · have bound := magnitude_lt canonical'
      rcases zero_or_positive canonical' with ⟨shape, size⟩ | ⟨positive, shape, size⟩ <;>
        rw [shape] <;> cases s <;> cases t <;>
        first | refine lt ?_ | refine gt ?_
      all_goals
        simp only [key, negative, top, if_true, if_false, Bool.false_eq_true]
        omega
  · rcases w with _ | t | ⟨t, n, f⟩
    · exact absurd rfl number'
    · have bound := magnitude_lt canonical
      rcases zero_or_positive canonical with ⟨shape, size⟩ | ⟨positive, shape, size⟩ <;>
        rw [shape] <;> cases s <;> cases t <;>
        first | refine lt ?_ | refine gt ?_
      all_goals
        simp only [key, negative, top, if_true, if_false, Bool.false_eq_true]
        omega
    · have order := compare_magnitude canonical canonical'
      rcases zero_or_positive canonical with ⟨shape, size⟩ | ⟨positive, shape, size⟩ <;>
        rcases zero_or_positive canonical' with ⟨shape', size'⟩ | ⟨positive', shape', size'⟩ <;>
        rw [shape, shape'] <;> cases s <;> cases t
      case inr.inr.true.true =>
        change some ((compare e f).then (compare m n)).swap = _
        rw [order, ← compare_neg_neg]
        simp only [key, negative, if_true]
      case inr.inr.false.false =>
        change some ((compare e f).then (compare m n)) = _
        rw [order]
        simp only [key, negative, if_false, Bool.false_eq_true]
      all_goals
        first | refine lt ?_ | refine gt ?_ | refine eq ?_
        simp only [key, negative, if_true, if_false, Bool.false_eq_true]
        omega

end Value

/-! ### Comparisons -/

/-- The integer by which a double is compared. -/
def key (x : Float) : Int := (decode x).key

theorem compare_toModel {x y : Float} (number : decode x ≠ .nan) (number' : decode y ≠ .nan) :
    x.toModel.unpack.compare y.toModel.unpack = some (compare (key x) (key y)) := by
  rw [unpack_toModel, unpack_toModel]
  exact Value.compare_unpacked (canonical_decode x) (canonical_decode y) number number'

theorem compare_toModel_nan {x y : Float} (noNumber : decode x = .nan ∨ decode y = .nan) :
    x.toModel.unpack.compare y.toModel.unpack = none := by
  rw [unpack_toModel, unpack_toModel]
  rcases noNumber with left | right
  · rw [left]
    rfl
  · rw [right]
    cases (decode x).unpacked <;> rfl

theorem lt_iff (x y : Float) : x < y ↔ decode x ≠ .nan ∧ decode y ≠ .nan ∧ key x < key y := by
  change decide ((x.toModel.unpack.compare y.toModel.unpack == some .lt) = true) = true ↔ _
  rw [decide_eq_true_iff]
  by_cases noNumber : decode x = .nan ∨ decode y = .nan
  · rw [compare_toModel_nan noNumber]
    rcases noNumber with left | right
    · simp [left]
    · simp [right]
  · obtain ⟨number, number'⟩ := not_or.mp noNumber
    rw [compare_toModel number number']
    simp [number, number', Int.compare_eq_lt]

theorem le_iff (x y : Float) : x ≤ y ↔ decode x ≠ .nan ∧ decode y ≠ .nan ∧ key x ≤ key y := by
  change decide ((x.toModel.unpack.compare y.toModel.unpack).any (·.isLE) = true) = true ↔ _
  rw [decide_eq_true_iff]
  by_cases noNumber : decode x = .nan ∨ decode y = .nan
  · rw [compare_toModel_nan noNumber]
    rcases noNumber with left | right
    · simp [left]
    · simp [right]
  · obtain ⟨number, number'⟩ := not_or.mp noNumber
    rw [compare_toModel number number']
    simp [number, number', Int.isLE_compare]

theorem beq_iff (x y : Float) :
    (x == y) = true ↔ decode x ≠ .nan ∧ decode y ≠ .nan ∧ key x = key y := by
  change (x.toModel.unpack.compare y.toModel.unpack == some .eq) = true ↔ _
  by_cases noNumber : decode x = .nan ∨ decode y = .nan
  · rw [compare_toModel_nan noNumber]
    rcases noNumber with left | right
    · simp [left]
    · simp [right]
  · obtain ⟨number, number'⟩ := not_or.mp noNumber
    rw [compare_toModel number number']
    simp [number, number']

/-- Doubles that are equal as numbers are the same, unless they are zeros. -/
theorem eq_of_beq {x y : Float} (equal : (x == y) = true) (nonzero : key y ≠ 0) : x = y := by
  obtain ⟨-, -, same⟩ := (beq_iff x y).mp equal
  exact decode_inj (Value.eq_of_key (canonical_decode x) (canonical_decode y) same nonzero)

protected theorem le_refl {x : Float} (number : decode x ≠ .nan) : x ≤ x :=
  (le_iff x x).mpr ⟨number, number, Int.le_refl _⟩

protected theorem le_of_lt {x y : Float} (less : x < y) : x ≤ y := by
  obtain ⟨number, number', order⟩ := (lt_iff x y).mp less
  exact (le_iff x y).mpr ⟨number, number', Int.le_of_lt order⟩

protected theorem le_trans {x y z : Float} (first : x ≤ y) (second : y ≤ z) : x ≤ z := by
  obtain ⟨number, -, order⟩ := (le_iff x y).mp first
  obtain ⟨-, number', order'⟩ := (le_iff y z).mp second
  exact (le_iff x z).mpr ⟨number, number', Int.le_trans order order'⟩

protected theorem lt_of_le_of_lt {x y z : Float} (first : x ≤ y) (second : y < z) : x < z := by
  obtain ⟨number, -, order⟩ := (le_iff x y).mp first
  obtain ⟨-, number', order'⟩ := (lt_iff y z).mp second
  exact (lt_iff x z).mpr ⟨number, number', Int.lt_of_le_of_lt order order'⟩

/-- Of two numbers, one that is not the lesser is at least the other. -/
protected theorem le_of_not_lt {x y : Float} (number : decode x ≠ .nan)
    (number' : decode y ≠ .nan) (notLess : ¬x < y) : y ≤ x := by
  rw [lt_iff] at notLess
  exact (le_iff y x).mpr ⟨number', number,
    Int.not_lt.mp fun order => notLess ⟨number, number', order⟩⟩

end Binary64

end PrimeSearch
