/-
Module: PrimeSearch.Proofs.Plane.Hull
Purpose: In exact arithmetic the hull of a cloud is a convex polygon round it.
Main exports: exactHull, exactHullArea, OnLine, Surrounds, Enclosed.between, exists_swept,
  exactHull_surrounds
-/
import Mathlib.Data.List.Rotate
import PrimeSearch.Proofs.Plane.Extremes
import PrimeSearch.Proofs.Plane.Scan
import PrimeSearch.Proofs.Plane.Sorting

namespace PrimeSearch

open Point

/-!
The points of a cloud rise from the lowest one and are met in the order of their directions, so the walk
ends with a fan that encloses the cloud.  Together with the pivot the corners of a fan turn left three by
three, in whatever corner one begins: no side of the polygon needs a check of its own, the two at the
pivot included.  With fewer than three corners the points lie on the segment between them.
-/

/-- Hull of an exact cloud. -/
def exactHull (points : List (Point ℚ)) : List (Point ℚ) := convexHull exactDirectionLe points

/-- Area of an exact polygon. -/
def exactArea (corners : List (Point ℚ)) : ℚ :=
  if corners.length < 3 then 0 else 1 / 2 * |doubledArea corners|

/-- Area of the hull of an exact cloud. -/
def exactHullArea (points : List (Point ℚ)) : ℚ := exactArea (exactHull points)

/-- There is a straight line that all points lie on. -/
def OnLine (points : List (Point ℚ)) : Prop :=
  ∃ a b : Point ℚ, a ≠ b ∧ ∀ q ∈ points, cross a b q = 0

/-- A polygon of at least three corners, given in order.  From whichever corner one begins, the way
round turns left at the next one, and all points lie to the left of the side to it or on it. -/
structure Surrounds (corners points : List (Point ℚ)) : Prop where
  many : 3 ≤ corners.length
  turns : ∀ k a b c rest, corners.rotate k = a :: b :: c :: rest → 0 < cross a b c
  left : ∀ k a b rest, corners.rotate k = a :: b :: rest → ∀ q ∈ points, 0 ≤ cross a b q

section
variable {a b c o p q : Point ℚ} {corners points seen : List (Point ℚ)}

/-! ### Lines and segments -/

theorem Point.eq_of_offset (x : q.x - a.x = 0) (y : q.y - a.y = 0) : q = a := by
  cases q
  cases a
  simp_all [sub_eq_zero]

/-- Different points are apart. -/
theorem Point.squaredLength_pos (apart : a ≠ b) : 0 < (a.offset b).squaredLength := by
  have sum : (a.offset b).squaredLength = (b.x - a.x) * (b.x - a.x) + (b.y - a.y) * (b.y - a.y) := rfl
  have x := mul_self_nonneg (b.x - a.x)
  have y := mul_self_nonneg (b.y - a.y)
  apply lt_of_le_of_ne (sum ▸ add_nonneg x y)
  intro zero
  have zeroX : (b.x - a.x) * (b.x - a.x) = 0 := by linarith
  have zeroY : (b.y - a.y) * (b.y - a.y) = 0 := by linarith
  exact apart (eq_of_offset (mul_self_eq_zero.mp zeroX) (mul_self_eq_zero.mp zeroY)).symm

/-- Three points of a line span nothing. -/
theorem OnLine.cross_eq_zero (line : OnLine points) (first : p ∈ points) (second : q ∈ points)
    (third : c ∈ points) : cross p q c = 0 := by
  obtain ⟨a, b, apart, on⟩ := line
  have atP := on p first
  have atQ := on q second
  have atC := on c third
  have long := (squaredLength_pos apart).ne'
  -- Seen along the line and across it, the second factor of each product is zero.
  have product : (a.offset b).squaredLength * cross p q c = 0 := by
    simp only [cross, squaredLength, offset] at *
    linear_combination
      ((b.x - a.x) * (c.x - p.x) + (b.y - a.y) * (c.y - p.y)) * (atP - atQ) +
      ((b.x - a.x) * (q.x - p.x) + (b.y - a.y) * (q.y - p.y)) * (atC - atP)
  exact (mul_eq_zero.mp product).resolve_left long

theorem Point.Between.cross_eq_zero (between : Between a b q) : cross a b q = 0 := by
  obtain ⟨s, -, -, area⟩ := between.cross_eq a b
  rw [area, cross_self_around, cross_self_right, mul_zero, mul_zero, add_zero]

/-- Half planes whose edges cross a segment at right angles hold one of its ends. -/
theorem cross_right_angle (a b q : Point ℚ) :
    cross a ⟨a.x + (b.y - a.y), a.y - (b.x - a.x)⟩ q =
      (b.x - a.x) * (q.x - a.x) + (b.y - a.y) * (q.y - a.y) := by
  simp only [cross]
  ring

/-- What is enclosed by one point is that point. -/
theorem Enclosed.eq (enclosed : Enclosed [a] q) : q = a := by
  by_contra apart
  have long := squaredLength_pos (a := q) (b := a) apart
  have holds := enclosed a ⟨a.x + (2 * a.y - q.y - a.y), a.y - (2 * a.x - q.x - a.x)⟩
    (List.forall_mem_singleton.mpr (cross_self_around a _).ge)
  simp only [cross, squaredLength, offset] at *
  linarith

/-- What is enclosed by two points lies on the segment between them. -/
theorem Enclosed.between (enclosed : Enclosed [a, b] q) (apart : a ≠ b) : Between a b q := by
  have pair {x y : Point ℚ} (first : 0 ≤ cross x y a) (second : 0 ≤ cross x y b) : 0 ≤ cross x y q :=
    enclosed x y (List.forall_mem_cons.mpr ⟨first, List.forall_mem_singleton.mpr second⟩)
  have long := squaredLength_pos apart
  have left : 0 ≤ cross a b q := pair (cross_self_around a b).ge (cross_self_right a b).ge
  have right : 0 ≤ cross b a q := pair (cross_self_right b a).ge (cross_self_around b a).ge
  have beyondA : 0 ≤ (b.x - a.x) * (q.x - a.x) + (b.y - a.y) * (q.y - a.y) := by
    rw [← cross_right_angle]
    apply pair (cross_self_around a _).ge
    rw [cross_right_angle]
    exact long.le
  have beyondB : 0 ≤ (a.x - b.x) * (q.x - b.x) + (a.y - b.y) * (q.y - b.y) := by
    rw [← cross_right_angle]
    apply pair _ (cross_self_around b _).ge
    rw [cross_right_angle]
    exact (squaredLength_pos apart.symm).le
  simp only [cross, squaredLength, offset] at *
  have flat : (b.x - a.x) * (q.y - a.y) - (b.y - a.y) * (q.x - a.x) = 0 := by linarith
  obtain ⟨s, share⟩ : ∃ s, s * ((b.x - a.x) * (b.x - a.x) + (b.y - a.y) * (b.y - a.y)) =
      (b.x - a.x) * (q.x - a.x) + (b.y - a.y) * (q.y - a.y) :=
    ⟨_, div_mul_cancel₀ _ long.ne'⟩
  refine ⟨s, nonneg_of_mul_nonneg_left (share ▸ beyondA) long, ?_, ?_⟩
  · apply le_of_mul_le_mul_right _ long
    rw [share]
    linarith
  · apply eq_of_offset
    · apply (mul_eq_zero.mp _).resolve_left long.ne'
      linear_combination (-(b.y - a.y)) * flat - (b.x - a.x) * share
    · apply (mul_eq_zero.mp _).resolve_left long.ne'
      linear_combination (b.x - a.x) * flat - (b.y - a.y) * share

/-! ### Polygons -/

/-- Three by three corners turn left, in whatever corner one begins. -/
theorem triplewise_rotate (turns : corners.Triplewise fun a b c => 0 < cross a b c) (k : Nat) :
    (corners.rotate k).Triplewise fun a b c => 0 < cross a b c := by
  induction k with
  | zero => rwa [List.rotate_zero]
  | succ k ih =>
      rw [← List.rotate_rotate]
      generalize corners.rotate k = here at *
      cases here with
      | nil => exact .nil
      | cons a rest =>
          obtain ⟨withFirst, others⟩ := List.triplewise_cons.mp ih
          rw [List.rotate_cons_succ, List.rotate_zero]
          refine List.triplewise_append.mpr ⟨others, by simp, fun b _ => List.pairwise_singleton _ a, ?_⟩
          refine List.forall_mem_singleton.mpr (withFirst.imp fun {b c} turn => ?_)
          rwa [cross_rotate]

/-- Corners that turn left three by three are a polygon round all points that they enclose. -/
theorem surrounds_of_turns (many : 3 ≤ corners.length)
    (turns : corners.Triplewise fun a b c => 0 < cross a b c)
    (encloses : ∀ q ∈ points, Enclosed corners q) : Surrounds corners points := by
  refine ⟨many, fun k a b c rest start => ?_, fun k a b rest start q member => ?_⟩
  · have here := start ▸ triplewise_rotate turns k
    exact (List.pairwise_cons.mp (List.triplewise_cons.mp here).1).1 c List.mem_cons_self
  · have here := start ▸ triplewise_rotate turns k
    have ahead := (List.pairwise_cons.mp (List.triplewise_cons.mp here).1).1
    refine encloses q member a b fun c corner => ?_
    rw [← List.mem_rotate (n := k), start] at corner
    rcases List.mem_cons.mp corner with rfl | corner
    · exact (cross_self_around c b).ge
    rcases List.mem_cons.mp corner with rfl | corner
    · exact (cross_self_right a c).ge
    exact (ahead c corner).le

theorem Fan.turns_from (fan : Fan o corners) :
    (o :: corners.reverse).Triplewise fun a b c => 0 < cross a b c :=
  .cons (List.pairwise_reverse.mpr fan.spread) (List.triplewise_reverse.mpr fan.turns)

theorem Fan.nodup (fan : Fan o corners) : (o :: corners.reverse).Nodup := by
  refine List.nodup_cons.mpr ⟨fun member => ?_, List.nodup_reverse.mpr ?_⟩
  · exact (fan.rises o (List.mem_reverse.mp member)).ne rfl
  · refine fan.spread.imp fun {b a} turn same => ?_
    rw [same, cross_self_right] at turn
    exact lt_irrefl _ turn

/-! ### The scan of a cloud -/

theorem Point.rises_iff : Rises p q ↔ p.rowKey < q.rowKey := by
  rw [Rises, rowKey, rowKey, Prod.Lex.toLex_lt_toLex]

/-- A point is left out by comparing rows both ways. -/
theorem mem_filter_row : q ∈ points.filter (fun p => !(rowLe p o && rowLe o p)) ↔ q ∈ points ∧ q ≠ o := by
  rw [List.mem_filter, Bool.not_eq_true', ← Bool.not_eq_true, Bool.and_eq_true, rowLe_iff, rowLe_iff,
    ← le_antisymm_iff, rowKey_inj]

/-- Sorted by their directions from a point, the others are met one after the other. -/
theorem pairwise_precedes (o : Point ℚ) (points : List (Point ℚ)) :
    (points.mergeSort fun p q => exactDirectionLe (o.offset p) (o.offset q)).Pairwise (Precedes o) :=
  List.pairwise_mergeSort
    (fun p q r => exactDirectionLe_trans (o.offset p) (o.offset q) (o.offset r))
    (fun p q => exactDirectionLe_total (o.offset p) (o.offset q)) points

/-- The hull of at least three points comes from a walk round all of them but the lowest one. -/
theorem exists_swept (many : 3 ≤ points.toFinset.card) :
    ∃ pivot corners seen, exactHull points = pivot :: corners.reverse ∧ pivot ∈ points ∧
      (∀ q ∈ points, q = pivot ∨ pivot.Rises q) ∧ Swept pivot seen corners ∧
      ∀ q, q ∈ seen ↔ q ∈ points ∧ q ≠ pivot := by
  rw [← length_distinctPoints] at many
  rw [exactHull, convexHull]
  split
  next first second third rest split =>
    have among (q : Point ℚ) : q ∈ first :: second :: third :: rest ↔ q ∈ points := by
      rw [← split, mem_distinctPoints]
    obtain ⟨member, least⟩ := lowest_spec first (second :: third :: rest)
    dsimp only
    generalize lowest first (second :: third :: rest) = pivot at *
    have low (q : Point ℚ) (inside : q ∈ points) : q = pivot ∨ pivot.Rises q := by
      rcases (least q ((among q).mpr inside)).eq_or_lt with same | less
      · exact .inl (rowKey_inj.mp same.symm)
      · exact .inr (rises_iff.mpr less)
    let others := (first :: second :: third :: rest).filter fun p => !(rowLe p pivot && rowLe pivot p)
    let sorted := others.mergeSort fun p q => exactDirectionLe (pivot.offset p) (pivot.offset q)
    have mem_sorted (q : Point ℚ) : q ∈ sorted ↔ q ∈ points ∧ q ≠ pivot := by
      rw [(List.mergeSort_perm others _).mem_iff, mem_filter_row, among]
    obtain ⟨corners, walked, swept⟩ := (Swept.start pivot).walk
      (fun p later => by
        obtain ⟨inside, other⟩ := (mem_sorted p).mp later
        exact (low p inside).resolve_left other)
      (fun q none => absurd none List.not_mem_nil) (pairwise_precedes pivot others)
    refine ⟨pivot, corners, _, walked, (among pivot).mp member, low, swept, fun q => ?_⟩
    rw [List.append_nil, List.mem_reverse, mem_sorted]
  next few =>
    exfalso
    match distinctPoints points, many, few with
    | first :: second :: third :: rest, _, few => exact few first second third rest rfl

/-- The walk ends with corners, and all points are enclosed by them and the pivot. -/
theorem Swept.encloses_all (swept : Swept o seen corners)
    (all : ∀ q, q ∈ seen ↔ q ∈ points ∧ q ≠ o) : ∀ q ∈ points, Enclosed (o :: corners.reverse) q := by
  intro q member
  by_cases isPivot : q = o
  · exact .of_mem (isPivot ▸ List.mem_cons_self)
  · refine (swept.encloses q ((all q).mpr ⟨member, isPivot⟩)).trans fun c corner => .of_mem ?_
    rw [List.mem_append, List.mem_singleton] at corner
    rw [List.mem_cons, List.mem_reverse]
    exact corner.symm

/-! ### Few points -/

theorem exactHull_of_few (few : points.toFinset.card < 3) : exactHull points = distinctPoints points := by
  rw [← length_distinctPoints] at few
  rw [exactHull, convexHull]
  split
  next first second third rest split =>
    rw [split] at few
    simp only [List.length_cons] at few
    omega
  next => rfl

/-- Two points are on a line. -/
theorem onLine_of_few (few : points.toFinset.card < 3) : OnLine points := by
  have among (q : Point ℚ) : q ∈ distinctPoints points ↔ q ∈ points := mem_distinctPoints
  have nodup := nodup_distinctPoints points
  rw [← length_distinctPoints] at few
  generalize distinctPoints points = distinct at among nodup few
  match distinct with
  | [] =>
      refine ⟨⟨0, 0⟩, ⟨1, 0⟩, by simp, fun q member => ?_⟩
      exact absurd ((among q).mpr member) List.not_mem_nil
  | [p] =>
      refine ⟨p, ⟨p.x + 1, p.y⟩, fun same => ?_, fun q member => ?_⟩
      · have := congrArg Point.x same
        simp at this
      · obtain rfl := List.mem_singleton.mp ((among q).mpr member)
        exact cross_self_around q _
  | [p, q] =>
      refine ⟨p, q, fun same => (List.nodup_cons.mp nodup).1 (same ▸ List.mem_cons_self), ?_⟩
      intro r member
      rcases List.mem_cons.mp ((among r).mpr member) with rfl | second
      · exact cross_self_around r q
      · obtain rfl := List.mem_singleton.mp second
        exact cross_self_right p r
  | _ :: _ :: _ :: _ =>
      simp only [List.length_cons] at few
      omega

/-! ### The hull -/

/-- Order and repetition of the points do not matter to the hull. -/
theorem exactHull_eq_of_same {others : List (Point ℚ)} (same : ∀ q, q ∈ points ↔ q ∈ others) :
    exactHull points = exactHull others := by
  rw [exactHull, exactHull, convexHull, convexHull, distinctPoints_eq_of_same same]

/-- With at least three points a corner is found beside the pivot. -/
theorem Swept.corners_ne_nil (swept : Swept o seen corners)
    (all : ∀ q, q ∈ seen ↔ q ∈ points ∧ q ≠ o) (many : 3 ≤ points.toFinset.card) : corners ≠ [] := by
  rintro rfl
  obtain ⟨q, member, other⟩ := Finset.exists_mem_ne (by omega : 1 < points.toFinset.card) o
  exact other (swept.encloses_all all q (List.mem_toFinset.mp member)).eq

/-- In exact arithmetic, with vectors ordered by their angle against the first axis and then by their
length, the hull consists of different points of the cloud.  If these are not on a line, it begins at
the lowest and then leftmost of them and is a polygon round all of them that turns left at every corner,
the first and the last included.  At least three different points of a line are on the segment between
the two points that are returned.  Neither the hull nor its area depends on the order of the points or
on how often they are given. -/
theorem exactHull_surrounds (points : List (Point ℚ)) :
    (∀ p q : Point ℚ, exactDirectionLe p q = true ↔
      p.angle < q.angle ∨ p.angle = q.angle ∧ p.squaredLength ≤ q.squaredLength) ∧
    (exactHull points).Nodup ∧ exactHull points ⊆ points ∧
    (¬OnLine points → Surrounds (exactHull points) points ∧
      ∃ pivot rest, exactHull points = pivot :: rest ∧ ∀ q ∈ points, q = pivot ∨ pivot.Rises q) ∧
    (OnLine points → 3 ≤ points.toFinset.card →
      ∃ a b, a ≠ b ∧ exactHull points = [a, b] ∧ ∀ q ∈ points, Between a b q) ∧
    ∀ others, (∀ q, q ∈ points ↔ q ∈ others) →
      exactHull points = exactHull others ∧ exactHullArea points = exactHullArea others := by
  refine ⟨fun p q => exactDirectionLe_iff, ?_⟩
  have area (others : List (Point ℚ)) (same : ∀ q, q ∈ points ↔ q ∈ others) :
      exactHull points = exactHull others ∧ exactHullArea points = exactHullArea others :=
    ⟨exactHull_eq_of_same same, congrArg exactArea (exactHull_eq_of_same same)⟩
  rcases Nat.lt_or_ge points.toFinset.card 3 with few | many
  · rw [exactHull_of_few few] at *
    exact ⟨nodup_distinctPoints points, fun q => mem_distinctPoints.mp,
      fun spread => absurd (onLine_of_few few) spread, fun _ many => absurd many (by omega), area⟩
  obtain ⟨pivot, corners, seen, hull, member, low, swept, all⟩ := exists_swept many
  have fan := swept.fan
  have encloses := swept.encloses_all all
  have part : pivot :: corners.reverse ⊆ points := by
    refine List.cons_subset.mpr ⟨member, fun c corner => ?_⟩
    exact ((all c).mp (swept.met (List.mem_reverse.mp corner))).1
  rw [hull]
  refine ⟨fan.nodup, part, ?_, ?_, hull ▸ area⟩
  · intro spread
    refine ⟨?_, pivot, corners.reverse, rfl, low⟩
    apply surrounds_of_turns _ fan.turns_from encloses
    match corners, swept.corners_ne_nil all many with
    | [last], _ =>
        have apart : pivot ≠ last := ((fan.rises last (List.mem_singleton_self last)).ne).symm
        exact absurd ⟨pivot, last, apart, fun q inside =>
          ((encloses q inside).between apart).cross_eq_zero⟩ spread
    | _ :: _ :: _, _ => simp
  · intro line _
    match corners, swept.corners_ne_nil all many with
    | [last], _ =>
        have apart : pivot ≠ last := ((fan.rises last (List.mem_singleton_self last)).ne).symm
        exact ⟨pivot, last, apart, rfl, fun q inside => (encloses q inside).between apart⟩
    | last :: before :: rest, _ =>
        have turn : 0 < cross pivot before last :=
          List.rel_of_pairwise_cons fan.spread List.mem_cons_self
        have flat := line.cross_eq_zero member (part (a := before) (by simp)) (part (a := last) (by simp))
        exact absurd flat turn.ne'

end

/-- Points on the first and the last ray from the pivot, a point inside and a repeated one; and four
points of a line. -/
theorem exactHull_surrounds_triangle :
    let cloud : List (Point ℚ) :=
      [⟨2, 0⟩, ⟨0, 0⟩, ⟨1, 0⟩, ⟨0, 2⟩, ⟨0, 1⟩, ⟨1 / 2, 1 / 2⟩, ⟨2, 0⟩]
    let line : List (Point ℚ) := [⟨2, 1⟩, ⟨0, 0⟩, ⟨-2, -1⟩, ⟨4, 2⟩]
    Surrounds (exactHull cloud) cloud ∧
      (∃ a b, a ≠ b ∧ exactHull line = [a, b] ∧ ∀ q ∈ line, Between a b q) ∧
      exactHullArea cloud = exactHullArea (cloud.reverse ++ cloud) := by
  intro cloud line
  obtain ⟨-, -, -, round, -, area⟩ := exactHull_surrounds cloud
  obtain ⟨-, -, -, -, ends, -⟩ := exactHull_surrounds line
  refine ⟨(round fun flat => ?_).1, ends ⟨⟨0, 0⟩, ⟨2, 1⟩, by decide, ?_⟩ (by decide), ?_⟩
  · have zero := flat.cross_eq_zero (p := ⟨0, 0⟩) (q := ⟨2, 0⟩) (c := ⟨0, 2⟩) (by decide) (by decide)
      (by decide)
    norm_num [cross] at zero
  · norm_num [line, cross]
  · exact (area _ (by simp)).2

example : exactHull [⟨2, 0⟩, ⟨0, 0⟩, ⟨1, 0⟩, ⟨0, 2⟩, ⟨0, 1⟩, ⟨1 / 2, 1 / 2⟩, ⟨2, 0⟩] =
    [⟨0, 0⟩, ⟨2, 0⟩, ⟨0, 2⟩] := by
  cbv

end PrimeSearch
