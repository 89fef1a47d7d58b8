/-
Module: PrimeSearch.Proofs.Plane.Scan
Purpose: What a walk round sorted points keeps: corners that turn left one after the other, and every
  point met so far in each half plane that holds them.
Main exports: Point.Between, Enclosed, Fan, Fan.push, Fan.retreat, Swept, Swept.step, Swept.walk
-/
import Mathlib.Data.List.Triplewise
import Mathlib.Tactic.FieldSimp
import Mathlib.Tactic.LinearCombination
import PrimeSearch.Proofs.Plane.Direction

namespace PrimeSearch

open Point

/-!
The walk starts at a pivot that all other points rise from and meets them in the order of their
directions.  Its path is a fan: seen from the pivot the corners follow each other to the left, and any
three of them turn left, not only neighbours.  A new point is put behind the corners that are kept, and
then it turns left with any two of them.  A corner that is dropped lies in the triangle of the pivot,
the corner before it and the new point, so no half plane that holds the path loses it.
-/

namespace Point

variable {o a b c p q t : Point ℚ}

/-! ### Signed areas -/

theorem cross_rotate (a b c : Point ℚ) : cross b c a = cross a b c := by
  simp only [cross]
  ring

theorem cross_swap (a b c : Point ℚ) : cross a c b = -cross a b c := by
  simp only [cross]
  ring

@[simp] theorem cross_self_right (a b : Point ℚ) : cross a b b = 0 := by
  simp only [cross]
  ring

@[simp] theorem cross_self_around (a b : Point ℚ) : cross a b a = 0 := by
  simp only [cross]
  ring

/-- Areas at a corner `b`: those of its neighbours and of the pivot add up. -/
theorem cross_mul_middle (o a b c p : Point ℚ) :
    cross o b c * cross a b p = cross o b p * cross a b c + cross b c p * cross o a b := by
  simp only [cross]
  ring

/-- Areas at the last corner `t`. -/
theorem cross_mul_last (o a b t p : Point ℚ) :
    cross o b t * cross a t p = cross a b t * cross o t p + cross o a t * cross b t p := by
  simp only [cross]
  ring

/-- Area over a side as a mean of the areas at the three corners of a triangle. -/
theorem cross_mul_triangle (o b p t x y : Point ℚ) :
    cross o b p * cross x y t =
      cross b p t * cross x y o + cross o t p * cross x y b + cross o b t * cross x y p := by
  simp only [cross]
  ring

/-! ### Segments -/

/-- A point of the segment from `a` to `b`. -/
def Between (a b q : Point ℚ) : Prop :=
  ∃ s : ℚ, 0 ≤ s ∧ s ≤ 1 ∧ q = ⟨a.x + s * (b.x - a.x), a.y + s * (b.y - a.y)⟩

/-- Along a segment the area over a side is a mean of those at the ends. -/
theorem Between.cross_eq (between : Between a b q) (x y : Point ℚ) :
    ∃ s, 0 ≤ s ∧ s ≤ 1 ∧ cross x y q = (1 - s) * cross x y a + s * cross x y b := by
  obtain ⟨s, nonneg, most, rfl⟩ := between
  refine ⟨s, nonneg, most, ?_⟩
  simp only [cross]
  ring

/-! ### The order in which points are met -/

/-- Seen from `o`, the first point is met before the second: under a smaller angle, or under the same
one and no further away. -/
def Precedes (o p q : Point ℚ) : Prop := exactDirectionLe (o.offset p) (o.offset q) = true

theorem Precedes.bearing_le (precedes : Precedes o p q) : o.bearing p ≤ o.bearing q := by
  rcases exactDirectionLe_iff.mp precedes with less | ⟨same, -⟩
  · exact less.le
  · exact same.le

theorem Precedes.cross_nonneg (precedes : Precedes o p q) (first : o.Rises p) (second : o.Rises q) :
    0 ≤ cross o p q :=
  (first.cross_nonneg_iff second).mpr precedes.bearing_le

/-- Points in the same direction are multiples of each other. -/
theorem Rises.exists_multiple (first : o.Rises p) (second : o.Rises q) (flat : cross o p q = 0) :
    ∃ s : ℚ, 0 < s ∧ p.x - o.x = s * (q.x - o.x) ∧ p.y - o.y = s * (q.y - o.y) := by
  have area : (p.x - o.x) * (q.y - o.y) - (p.y - o.y) * (q.x - o.x) = 0 := flat
  rcases second with above | ⟨level, right⟩
  · have height : 0 < q.y - o.y := sub_pos.mpr above
    refine ⟨(p.y - o.y) / (q.y - o.y), ?_, ?_, ?_⟩
    · rcases first with above' | ⟨level', right'⟩
      · exact div_pos (sub_pos.mpr above') height
      · -- A point at the height of the pivot is in no direction of a higher one.
        have : 0 < (p.x - o.x) * (q.y - o.y) := mul_pos (sub_pos.mpr right') height
        rw [← level', sub_self] at area
        linarith
    · field_simp
      linear_combination area
    · field_simp
  · have width : 0 < q.x - o.x := sub_pos.mpr right
    have levelP : p.y = o.y := by
      rw [← level, sub_self, mul_zero, zero_sub, neg_eq_zero] at area
      exact sub_eq_zero.mp ((mul_eq_zero.mp area).resolve_right width.ne')
    refine ⟨(p.x - o.x) / (q.x - o.x), ?_, ?_, ?_⟩
    · rcases first with above' | ⟨-, right'⟩
      · exact absurd levelP above'.ne'
      · exact div_pos (sub_pos.mpr right') width
    · field_simp
    · rw [levelP, ← level, sub_self, mul_zero]

/-- Of two points in the same direction the one that is met first is nearer. -/
theorem Precedes.between (precedes : Precedes o p q) (first : o.Rises p) (second : o.Rises q)
    (flat : cross o p q = 0) : Between o q p := by
  obtain ⟨s, positive, x, y⟩ := first.exists_multiple second flat
  have same : o.bearing p = o.bearing q := (first.cross_eq_zero_iff second).mp flat
  have shorter : (o.offset p).squaredLength ≤ (o.offset q).squaredLength := by
    rcases exactDirectionLe_iff.mp precedes with less | ⟨-, shorter⟩
    · exact absurd same less.ne
    · exact shorter
  have lengths : s * s * (o.offset q).squaredLength ≤ 1 * (o.offset q).squaredLength := by
    have scaled : (o.offset p).squaredLength = s * s * (o.offset q).squaredLength := by
      simp only [squaredLength, offset, x, y]
      ring
    rwa [one_mul, ← scaled]
  have long : 0 < (o.offset q).squaredLength := by
    simp only [squaredLength, offset]
    rcases second with above | ⟨-, right⟩
    · have := mul_pos (sub_pos.mpr above) (sub_pos.mpr above)
      have := mul_self_nonneg (q.x - o.x)
      linarith
    · have := mul_pos (sub_pos.mpr right) (sub_pos.mpr right)
      have := mul_self_nonneg (q.y - o.y)
      linarith
  have most : s ≤ 1 := by
    have square : s * s ≤ 1 := le_of_mul_le_mul_right lengths long
    by_contra greater
    nlinarith
  refine ⟨s, positive.le, most, ?_⟩
  rw [← x, ← y]
  simp

end Point

/-! ### Half planes -/

/-- A point of every half plane that holds the corners. -/
def Enclosed (corners : List (Point ℚ)) (q : Point ℚ) : Prop :=
  ∀ x y, (∀ c ∈ corners, 0 ≤ cross x y c) → 0 ≤ cross x y q

section
variable {corners others : List (Point ℚ)} {o b p q t : Point ℚ}

theorem Enclosed.of_mem (member : q ∈ corners) : Enclosed corners q :=
  fun _ _ holds => holds q member

theorem Enclosed.trans (enclosed : Enclosed corners q) (all : ∀ c ∈ corners, Enclosed others c) :
    Enclosed others q :=
  fun x y holds => enclosed x y fun c member => all c member x y holds

theorem Point.Between.enclosed (between : Between o p q) : Enclosed [o, p] q := by
  intro x y holds
  obtain ⟨s, nonneg, most, area⟩ := between.cross_eq x y
  rw [area]
  have first := holds o (by simp)
  have second := holds p (by simp)
  exact add_nonneg (mul_nonneg (sub_nonneg.mpr most) first) (mul_nonneg nonneg second)

/-- A point of a triangle that goes left round. -/
theorem enclosed_triangle (proper : 0 < cross o b p) (first : 0 ≤ cross o b t)
    (second : 0 ≤ cross b p t) (third : 0 ≤ cross o t p) : Enclosed [o, b, p] t := by
  intro x y holds
  have atO := mul_nonneg second (holds o (by simp))
  have atB := mul_nonneg third (holds b (by simp))
  have atP := mul_nonneg first (holds p (by simp))
  have mean := cross_mul_triangle o b p t x y
  exact nonneg_of_mul_nonneg_right (by linarith) proper

end

/-! ### Fans -/

/-- Corners of a path from a pivot, the last one first.  All rise from the pivot, any two turn left
round it, and so do any three of them one after the other. -/
structure Fan (o : Point ℚ) (corners : List (Point ℚ)) : Prop where
  rises : ∀ c ∈ corners, o.Rises c
  spread : corners.Pairwise fun b a => 0 < cross o a b
  turns : corners.Triplewise fun c b a => 0 < cross a b c

section
variable {o p t : Point ℚ} {corners rest seen later : List (Point ℚ)}

theorem Fan.nil (o : Point ℚ) : Fan o [] :=
  ⟨List.forall_mem_nil _, .nil, .nil⟩

theorem Fan.tail (fan : Fan o (t :: rest)) : Fan o rest :=
  ⟨fun c member => fan.rises c (List.mem_cons_of_mem t member), fan.spread.of_cons,
    (List.triplewise_cons.mp fan.turns).2⟩

/-- The corner before the last one, which is the pivot if there is none. -/
def cornerBefore (o : Point ℚ) (rest : List (Point ℚ)) : Point ℚ := rest.headD o

/-- A left turn at the last corner goes left round the pivot as well: a point further out in the
direction of the last corner would turn right. -/
theorem Fan.cross_pos_of_turn (fan : Fan o (t :: rest)) (rises : o.Rises p) (precedes : Precedes o t p)
    (turn : 0 < cross (cornerBefore o rest) t p) : 0 < cross o t p := by
  have risesT : o.Rises t := fan.rises t List.mem_cons_self
  have left := precedes.cross_nonneg risesT rises
  apply lt_of_le_of_ne left
  intro flat
  cases rest with
  | nil => exact turn.ne flat
  | cons b more =>
      have turn : 0 < cross b t p := turn
      have wide : 0 < cross o b t := List.rel_of_pairwise_cons fan.spread List.mem_cons_self
      obtain ⟨s, nonneg, most, same, out⟩ : ∃ s : ℚ, 0 ≤ s ∧ s ≤ 1 ∧
          cross o b t = s * cross o b p ∧ cross b t p = -((1 - s) * cross o b p) := by
        obtain ⟨s, nonneg, most, rfl⟩ := precedes.between risesT rises flat.symm
        refine ⟨s, nonneg, most, ?_, ?_⟩ <;> simp only [cross] <;> ring
      have area : 0 < cross o b p := pos_of_mul_pos_right (same ▸ wide) nonneg
      have := mul_nonneg (sub_nonneg.mpr most) area.le
      linarith

/-- A point that is met after the corners and turns left at the last one turns left with any two. -/
theorem Fan.push (fan : Fan o corners) (rises : o.Rises p) (after : ∀ c ∈ corners, Precedes o c p)
    (turn : ∀ t rest, corners = t :: rest → 0 < cross (cornerBefore o rest) t p) :
    Fan o (p :: corners) := by
  cases corners with
  | nil => exact ⟨List.forall_mem_singleton.mpr rises, List.pairwise_singleton _ _, by simp⟩
  | cons t rest =>
      have turn := turn t rest rfl
      have risesT : o.Rises t := fan.rises t List.mem_cons_self
      have first : 0 < cross o t p := fan.cross_pos_of_turn rises (after t List.mem_cons_self) turn
      obtain ⟨spreadT, spread⟩ := List.pairwise_cons.mp fan.spread
      obtain ⟨turnsT, -⟩ := List.triplewise_cons.mp fan.turns
      -- Round the pivot: the point is beyond the last corner, which is beyond all others.
      have round : ∀ a ∈ t :: rest, 0 < cross o a p := by
        refine List.forall_mem_cons.mpr ⟨first, fun a member => ?_⟩
        have risesA := fan.rises a (List.mem_cons_of_mem t member)
        have nearer := (risesA.cross_pos_iff risesT).mp (spreadT a member)
        exact (risesA.cross_pos_iff rises).mpr (nearer.trans ((risesT.cross_pos_iff rises).mp first))
      -- At the last corner: the corner before it turns left, so all others do.
      have last : ∀ a ∈ rest, 0 < cross a t p := by
        cases rest with
        | nil => exact List.forall_mem_nil _
        | cons b more =>
            have turnB : 0 < cross b t p := turn
            refine List.forall_mem_cons.mpr ⟨turnB, fun a member => ?_⟩
            have triple : 0 < cross a b t := (List.pairwise_cons.mp turnsT).1 a member
            have wideA := spreadT a (List.mem_cons_of_mem b member)
            have wideB := spreadT b List.mem_cons_self
            have areas := cross_mul_last o a b t p
            have := add_pos (mul_pos triple first) (mul_pos wideA turnB)
            exact pos_of_mul_pos_right (areas ▸ this) wideB.le
      have pairs : (t :: rest).Pairwise fun b a => 0 < cross a b p := by
        refine List.pairwise_cons.mpr ⟨last, ?_⟩
        refine (spread.and turnsT).imp_of_mem fun {b a} memberB memberA both => ?_
        obtain ⟨wide, triple⟩ := both
        have areas := cross_mul_middle o a b t p
        have := add_pos (mul_pos (round b (List.mem_cons_of_mem t memberB)) triple)
          (mul_pos (last b memberB) wide)
        exact pos_of_mul_pos_right (areas ▸ this) (spreadT b memberB).le
      exact ⟨List.forall_mem_cons.mpr ⟨rises, fan.rises⟩, List.pairwise_cons.mpr ⟨round, fan.spread⟩,
        .cons pairs fan.turns⟩

/-! ### Dropping corners -/

theorem retreat_cons (p t : Point ℚ) (rest : List (Point ℚ)) :
    retreat p (t :: rest ++ [o]) =
      if cross (cornerBefore o rest) t p ≤ 0 then retreat p (rest ++ [o]) else t :: rest ++ [o] := by
  cases rest <;> rfl

/-- A corner that does not turn left lies in the triangle of the pivot, the corner before it and the
new point. -/
theorem Fan.enclosed_last (fan : Fan o (t :: rest)) (rises : o.Rises p) (precedes : Precedes o t p)
    (turn : cross (cornerBefore o rest) t p ≤ 0) : Enclosed [o, cornerBefore o rest, p] t := by
  have risesT : o.Rises t := fan.rises t List.mem_cons_self
  have left := precedes.cross_nonneg risesT rises
  cases rest with
  | nil =>
      have flat : cross o t p = 0 := le_antisymm turn left
      refine (precedes.between risesT rises flat).enclosed.trans fun c member => .of_mem ?_
      simp only [List.mem_cons, List.not_mem_nil, or_false] at member ⊢
      tauto
  | cons b more =>
      have turn : cross b t p ≤ 0 := turn
      have risesB : o.Rises b := fan.rises b (List.mem_cons_of_mem t List.mem_cons_self)
      have wide : 0 < cross o b t := List.rel_of_pairwise_cons fan.spread List.mem_cons_self
      have proper : 0 < cross o b p :=
        (risesB.cross_pos_iff rises).mpr
          (((risesB.cross_pos_iff risesT).mp wide).trans_le precedes.bearing_le)
      have inside : 0 ≤ cross b p t := by
        rw [cross_swap]
        exact neg_nonneg.mpr turn
      exact enclosed_triangle proper wide.le inside left

/-- Corners are dropped from a fan until the new point can be put behind the others.  What is dropped
stays enclosed. -/
theorem Fan.retreat (fan : Fan o corners) (rises : o.Rises p) (after : ∀ c ∈ corners, Precedes o c p) :
    ∃ kept, retreat p (corners ++ [o]) = kept ++ [o] ∧ Fan o (p :: kept) ∧ kept ⊆ corners ∧
      ∀ c ∈ corners, Enclosed (p :: kept ++ [o]) c := by
  induction corners with
  | nil => exact ⟨[], rfl, (Fan.nil o).push rises after nofun, List.Subset.refl _, List.forall_mem_nil _⟩
  | cons t rest ih =>
      rw [retreat_cons]
      split
      next dropped =>
        obtain ⟨kept, path, fanKept, part, enclosed⟩ :=
          ih fan.tail fun c member => after c (List.mem_cons_of_mem t member)
        refine ⟨kept, path, fanKept, fun c member => List.mem_cons_of_mem t (part member),
          List.forall_mem_cons.mpr ⟨?_, enclosed⟩⟩
        have pivot : Enclosed (p :: kept ++ [o]) o := .of_mem (by simp)
        refine (fan.enclosed_last rises (after t List.mem_cons_self) dropped).trans ?_
        refine List.forall_mem_cons.mpr ⟨pivot, List.forall_mem_cons.mpr
          ⟨?_, List.forall_mem_singleton.mpr (.of_mem (by simp))⟩⟩
        cases rest with
        | nil => exact pivot
        | cons b more => exact enclosed b List.mem_cons_self
      next turns =>
        refine ⟨t :: rest, rfl, fan.push rises after ?_, List.Subset.refl _, fun c member => .of_mem ?_⟩
        · rintro _ _ ⟨rfl, rfl⟩
          exact not_le.mp turns
        · exact List.mem_cons_of_mem p (List.mem_append_left [o] member)

/-! ### The walk -/

/-- A fan over points that have been met, which encloses all of them. -/
structure Swept (o : Point ℚ) (seen corners : List (Point ℚ)) : Prop where
  fan : Fan o corners
  met : corners ⊆ seen
  encloses : ∀ q ∈ seen, Enclosed (corners ++ [o]) q

theorem Swept.start (o : Point ℚ) : Swept o [] [] :=
  ⟨.nil o, List.Subset.refl _, List.forall_mem_nil _⟩

/-- One more point. -/
theorem Swept.step (swept : Swept o seen corners) (rises : o.Rises p)
    (after : ∀ q ∈ seen, Precedes o q p) :
    ∃ kept, PrimeSearch.retreat p (corners ++ [o]) = kept ++ [o] ∧ Swept o (p :: seen) (p :: kept) := by
  obtain ⟨kept, path, fan, part, enclosed⟩ :=
    swept.fan.retreat rises fun c member => after c (swept.met member)
  refine ⟨kept, path, fan, List.cons_subset_cons p (List.Subset.trans part swept.met),
    List.forall_mem_cons.mpr ⟨.of_mem List.mem_cons_self, fun q member => ?_⟩⟩
  refine (swept.encloses q member).trans (List.forall_mem_append.mpr ⟨enclosed, ?_⟩)
  exact List.forall_mem_singleton.mpr (.of_mem (by simp))

/-- All points, in the order in which they are met. -/
theorem Swept.walk (swept : Swept o seen corners) (rises : ∀ p ∈ later, o.Rises p)
    (after : ∀ q ∈ seen, ∀ p ∈ later, Precedes o q p) (sorted : later.Pairwise (Precedes o)) :
    ∃ final, walk (corners ++ [o]) later = o :: final.reverse ∧
      Swept o (later.reverse ++ seen) final := by
  induction later generalizing seen corners with
  | nil => exact ⟨corners, by simp [PrimeSearch.walk], swept⟩
  | cons p more ih =>
      obtain ⟨risesP, rises⟩ := List.forall_mem_cons.mp rises
      obtain ⟨first, sorted⟩ := List.pairwise_cons.mp sorted
      obtain ⟨kept, path, next⟩ :=
        swept.step risesP fun q member => after q member p List.mem_cons_self
      obtain ⟨final, walked, result⟩ := ih next rises
        (List.forall_mem_cons.mpr
          ⟨first, fun q member c later => after q member c (List.mem_cons_of_mem p later)⟩) sorted
      refine ⟨final, ?_, ?_⟩
      · rw [PrimeSearch.walk, path]
        exact walked
      · rwa [List.reverse_cons, List.append_assoc]

end

end PrimeSearch
