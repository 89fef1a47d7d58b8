/-
Module: PrimeSearch.Proofs.Plane.Direction
Purpose: The order of exact vectors by their angle and length, and the sense in which it turns.
Main exports: Point.wedge, Point.angle, exactDirectionLe, exactDirectionLe_iff, Point.Rises,
  Point.Rises.cross_pos_iff
-/
import Mathlib.Analysis.SpecialFunctions.Complex.Arg
import PrimeSearch.Plane.Hull

namespace PrimeSearch

/-!
The angle of a vector is a real number, but two angles are compared without it.  The plane is cut into
four sectors, in the order in which a half line meets them that turns from just above the negative half
of the first axis round to it.  Within a sector two angles differ by less than half a turn, so the sign
of their sine decides, and that is the sign of the area that the vectors span.
-/

namespace Point

/-- Twice the signed area of the triangle that two vectors span. -/
def wedge (p q : Point ℚ) : ℚ := p.x * q.y - p.y * q.x

/-- Square of the length of a vector. -/
def squaredLength (p : Point ℚ) : ℚ := p.x * p.x + p.y * p.y

/-- The sector of a vector: below the first axis, along it, above it, against it. -/
def sector (p : Point ℚ) : Nat :=
  if p.y < 0 then 0
  else if 0 < p.y then 2
  else if p.x < 0 then 3
  else 1

/-- A vector as a complex number. -/
noncomputable def toComplex (p : Point ℚ) : ℂ := ⟨p.x, p.y⟩

/-- Angle of a vector against the first axis, more than `-π` and at most `π`. -/
noncomputable def angle (p : Point ℚ) : ℝ := p.toComplex.arg

end Point

/-- Order of exact vectors: by angle, then by length. -/
def exactDirectionLe (p q : Point ℚ) : Bool :=
  if p.sector = q.sector then
    decide (0 < p.wedge q) ||
      (decide (p.wedge q = 0) && decide (p.squaredLength ≤ q.squaredLength))
  else decide (p.sector < q.sector)

namespace Point

variable {p q : Point ℚ}

/-! ### Sectors -/

/-- The angles of the four sectors. -/
theorem sector_cases (p : Point ℚ) :
    (p.sector = 0 ∧ p ≠ ⟨0, 0⟩ ∧ -Real.pi < p.angle ∧ p.angle < 0) ∨
    (p.sector = 1 ∧ p.y = 0 ∧ p.angle = 0) ∨
    (p.sector = 2 ∧ p ≠ ⟨0, 0⟩ ∧ 0 < p.angle ∧ p.angle < Real.pi) ∨
    (p.sector = 3 ∧ p.y = 0 ∧ p.angle = Real.pi) := by
  have nonzero (off : p.y ≠ 0) : p ≠ ⟨0, 0⟩ := fun same => off (congrArg Point.y same)
  rcases lt_trichotomy p.y 0 with below | level | above
  · have negative : p.angle < 0 := Complex.arg_neg_iff.mpr (Rat.cast_lt_zero.mpr below)
    exact .inl ⟨if_pos below, nonzero below.ne, Complex.neg_pi_lt_arg _, negative⟩
  · have flat : p.toComplex.im = 0 := Rat.cast_eq_zero.mpr level
    rcases lt_or_ge p.x 0 with left | right
    · refine .inr (.inr (.inr ⟨by simp [sector, level, left], level, ?_⟩))
      exact Complex.arg_eq_pi_iff.mpr ⟨Rat.cast_lt_zero.mpr left, flat⟩
    · refine .inr (.inl ⟨by simp [sector, level, not_lt.mpr right], level, ?_⟩)
      exact Complex.arg_eq_zero_iff.mpr ⟨Rat.cast_nonneg.mpr right, flat⟩
  · have high : (0 : ℝ) < p.toComplex.im := Rat.cast_pos.mpr above
    have positive : p.angle ≠ 0 := fun zero => high.ne' (Complex.arg_eq_zero_iff.mp zero).2
    have some : 0 ≤ p.angle := Complex.arg_nonneg_iff.mpr high.le
    have less : p.angle < Real.pi := Complex.arg_lt_pi_iff.mpr (.inr high.ne')
    refine .inr (.inr (.inl ⟨by simp [sector, above, above.le], nonzero above.ne', ?_, less⟩))
    exact lt_of_le_of_ne some positive.symm

/-- A sector that is met before has the smaller angles. -/
theorem angle_lt_of_sector_lt (sectors : p.sector < q.sector) : p.angle < q.angle := by
  have := Real.pi_pos
  rcases sector_cases p with first | first | first | first <;>
    rcases sector_cases q with second | second | second | second <;>
      first | (exfalso; omega) | linarith [first.2.2, second.2.2]

/-! ### The sense of a turn -/

/-- The area that two vectors span is the product of their lengths and the sine between them. -/
theorem wedge_eq_sin (p q : Point ℚ) :
    ((p.wedge q : ℚ) : ℝ) =
      ‖p.toComplex‖ * ‖q.toComplex‖ * Real.sin (q.angle - p.angle) := by
  have sineP : ‖p.toComplex‖ * Real.sin p.angle = p.y := Complex.norm_mul_sin_arg _
  have sineQ : ‖q.toComplex‖ * Real.sin q.angle = q.y := Complex.norm_mul_sin_arg _
  have cosineP : ‖p.toComplex‖ * Real.cos p.angle = p.x := Complex.norm_mul_cos_arg _
  have cosineQ : ‖q.toComplex‖ * Real.cos q.angle = q.x := Complex.norm_mul_cos_arg _
  rw [wedge, Real.sin_sub]
  push_cast
  rw [← sineP, ← sineQ, ← cosineP, ← cosineQ]
  ring

/-- Less than half a turn apart, two vectors turn left if the second has the larger angle, and span
nothing if the angles are equal. -/
theorem wedge_sign (solidP : p ≠ ⟨0, 0⟩) (solidQ : q ≠ ⟨0, 0⟩) (ahead : q.angle - p.angle < Real.pi)
    (behind : p.angle - q.angle < Real.pi) :
    (0 < p.wedge q ↔ p.angle < q.angle) ∧ (p.wedge q = 0 ↔ p.angle = q.angle) := by
  have length {r : Point ℚ} (solid : r ≠ ⟨0, 0⟩) : 0 < ‖r.toComplex‖ := by
    apply norm_pos_iff.mpr
    intro zero
    apply solid
    have x : r.x = 0 := Rat.cast_eq_zero.mp (congrArg Complex.re zero)
    have y : r.y = 0 := Rat.cast_eq_zero.mp (congrArg Complex.im zero)
    cases r
    simp_all
  have area := wedge_eq_sin p q
  have lengths : 0 < ‖p.toComplex‖ * ‖q.toComplex‖ := mul_pos (length solidP) (length solidQ)
  rcases lt_trichotomy p.angle q.angle with less | same | greater
  · have sine : 0 < Real.sin (q.angle - p.angle) :=
      Real.sin_pos_of_pos_of_lt_pi (sub_pos.mpr less) ahead
    have left : (0 : ℝ) < p.wedge q := area ▸ mul_pos lengths sine
    have left : 0 < p.wedge q := Rat.cast_pos.mp left
    exact ⟨iff_of_true left less, iff_of_false left.ne' less.ne⟩
  · rw [same, sub_self, Real.sin_zero, mul_zero] at area
    have none : p.wedge q = 0 := Rat.cast_eq_zero.mp area
    exact ⟨iff_of_false none.not_gt same.not_lt, iff_of_true none same⟩
  · have sine : Real.sin (q.angle - p.angle) < 0 :=
      Real.sin_neg_of_neg_of_neg_pi_lt (sub_neg.mpr greater) (by linarith)
    have right : ((p.wedge q : ℚ) : ℝ) < 0 := area ▸ mul_neg_of_pos_of_neg lengths sine
    have right : p.wedge q < 0 := Rat.cast_lt_zero.mp right
    exact ⟨iff_of_false right.not_gt greater.not_gt, iff_of_false right.ne greater.ne'⟩

/-- Within a sector the area that two vectors span decides about their angles. -/
theorem wedge_sign_of_sector_eq (sectors : p.sector = q.sector) :
    (0 < p.wedge q ↔ p.angle < q.angle) ∧ (p.wedge q = 0 ↔ p.angle = q.angle) := by
  have along (flatP : p.y = 0) (flatQ : q.y = 0) (same : p.angle = q.angle) :
      (0 < p.wedge q ↔ p.angle < q.angle) ∧ (p.wedge q = 0 ↔ p.angle = q.angle) := by
    have none : p.wedge q = 0 := by rw [wedge, flatP, flatQ, mul_zero, zero_mul, sub_zero]
    exact ⟨iff_of_false none.not_gt same.not_lt, iff_of_true none same⟩
  rcases sector_cases p with first | first | first | first <;>
    rcases sector_cases q with second | second | second | second <;>
      try (exfalso; omega)
  · exact wedge_sign first.2.1 second.2.1 (by linarith) (by linarith)
  · exact along first.2.1 second.2.1 (first.2.2.trans second.2.2.symm)
  · exact wedge_sign first.2.1 second.2.1 (by linarith) (by linarith)
  · exact along first.2.1 second.2.1 (first.2.2.trans second.2.2.symm)

end Point

/-! ### The order of vectors -/

/-- The order compares exact angles, and the lengths of vectors of equal angle. -/
theorem exactDirectionLe_iff {p q : Point ℚ} :
    exactDirectionLe p q = true ↔
      p.angle < q.angle ∨ p.angle = q.angle ∧ p.squaredLength ≤ q.squaredLength := by
  unfold exactDirectionLe
  split
  next same =>
    obtain ⟨left, none⟩ := Point.wedge_sign_of_sector_eq same
    simp only [Bool.or_eq_true, Bool.and_eq_true, decide_eq_true_eq, left, none]
  next other =>
    rw [decide_eq_true_eq]
    rcases Nat.lt_or_gt_of_ne other with before | after
    · exact iff_of_true before (.inl (Point.angle_lt_of_sector_lt before))
    · have greater := Point.angle_lt_of_sector_lt after
      refine iff_of_false after.not_gt ?_
      rintro (less | ⟨same, -⟩)
      · exact lt_asymm less greater
      · exact greater.ne' same

theorem exactDirectionLe_trans (p q r : Point ℚ) (first : exactDirectionLe p q = true)
    (second : exactDirectionLe q r = true) : exactDirectionLe p r = true := by
  rw [exactDirectionLe_iff] at *
  rcases first with less | ⟨same, shorter⟩
  · rcases second with less' | ⟨same', -⟩
    · exact .inl (less.trans less')
    · exact .inl (same' ▸ less)
  · rcases second with less' | ⟨same', shorter'⟩
    · exact .inl (same ▸ less')
    · exact .inr ⟨same.trans same', shorter.trans shorter'⟩

theorem exactDirectionLe_total (p q : Point ℚ) :
    (exactDirectionLe p q || exactDirectionLe q p) = true := by
  rw [Bool.or_eq_true, exactDirectionLe_iff, exactDirectionLe_iff]
  rcases lt_trichotomy p.angle q.angle with less | same | greater
  · exact .inl (.inl less)
  · rcases le_total p.squaredLength q.squaredLength with shorter | longer
    · exact .inl (.inr ⟨same, shorter⟩)
    · exact .inr (.inr ⟨same.symm, longer⟩)
  · exact .inr (.inl greater)

namespace Point

/-! ### Points above another one -/

/-- The second point comes after the first, row by row. -/
def Rises (o p : Point ℚ) : Prop := o.y < p.y ∨ o.y = p.y ∧ o.x < p.x

variable {o p q r : Point ℚ}

theorem Rises.ne (rises : o.Rises p) : p ≠ o := by
  rintro rfl
  rcases rises with above | ⟨-, right⟩
  · exact lt_irrefl _ above
  · exact lt_irrefl _ right

/-- Angle under which a point is seen from another one. -/
noncomputable def bearing (o p : Point ℚ) : ℝ := (o.offset p).angle

/-- What comes after a point is seen from it under an angle of at least zero and less than `π`. -/
theorem Rises.bearing_bounds (rises : o.Rises p) :
    o.offset p ≠ ⟨0, 0⟩ ∧ 0 ≤ o.bearing p ∧ o.bearing p < Real.pi := by
  have solid : o.offset p ≠ ⟨0, 0⟩ := by
    intro zero
    apply rises.ne
    have x : p.x - o.x = 0 := congrArg Point.x zero
    have y : p.y - o.y = 0 := congrArg Point.y zero
    cases o
    cases p
    simp_all [sub_eq_zero]
  have upper : (o.offset p).sector = 1 ∨ (o.offset p).sector = 2 := by
    rcases rises with above | ⟨level, right⟩
    · simp [sector, offset, above, above.le]
    · simp [sector, offset, level, right.le]
  have := Real.pi_pos
  unfold bearing
  rcases sector_cases (o.offset p) with bounds | bounds | bounds | bounds
  · omega
  · exact ⟨solid, bounds.2.2.ge, by linarith [bounds.2.2]⟩
  · exact ⟨solid, bounds.2.2.1.le, bounds.2.2.2⟩
  · omega

/-- Seen from below, a turn goes left to the larger angle. -/
theorem Rises.cross_pos_iff (first : o.Rises p) (second : o.Rises q) :
    0 < cross o p q ↔ o.bearing p < o.bearing q := by
  obtain ⟨solidP, lowP, highP⟩ := first.bearing_bounds
  obtain ⟨solidQ, lowQ, highQ⟩ := second.bearing_bounds
  unfold bearing at *
  exact (wedge_sign solidP solidQ (by linarith) (by linarith)).1

theorem Rises.cross_eq_zero_iff (first : o.Rises p) (second : o.Rises q) :
    cross o p q = 0 ↔ o.bearing p = o.bearing q := by
  obtain ⟨solidP, lowP, highP⟩ := first.bearing_bounds
  obtain ⟨solidQ, lowQ, highQ⟩ := second.bearing_bounds
  unfold bearing at *
  exact (wedge_sign solidP solidQ (by linarith) (by linarith)).2

theorem Rises.cross_nonneg_iff (first : o.Rises p) (second : o.Rises q) :
    0 ≤ cross o p q ↔ o.bearing p ≤ o.bearing q := by
  rw [le_iff_lt_or_eq, le_iff_lt_or_eq, first.cross_pos_iff second, eq_comm,
    first.cross_eq_zero_iff second]

end Point

end PrimeSearch
