/-
Module: PrimeSearch.Proofs.Plane.Frame
Purpose: Exact clouds that are scaled together fill the square and forget where and how large they were.
Main exports: LaysOut, Extent.ofList_eq, Extent.laysOut, Point.stretch, normalize_fills
-/
import Mathlib.Algebra.Order.Field.Basic
import Mathlib.Algebra.Order.Field.Rat
import Mathlib.Tactic.Linarith
import Mathlib.Tactic.Ring
import PrimeSearch.Proofs.Plane.Extremes

namespace PrimeSearch

/-!
Along each axis the two clouds have one least and one greatest coordinate together, and these settle the
extent.  A growing linear map of the coordinates takes least to least and greatest to greatest, so the
new extent is the image of the old one and a coordinate lies at the same place in it.
-/

/-- A map of coordinates that lays those of clouds along one axis out from -1 to 1.  It keeps their
order.  Both ends are reached if there are two different coordinates; otherwise all are put at -1. -/
structure LaysOut (place : ℚ → ℚ) (coordinates : List ℚ) : Prop where
  increases : StrictMono place
  bounds : ∀ v ∈ coordinates, -1 ≤ place v ∧ place v ≤ 1
  reaches : (∃ v ∈ coordinates, ∃ w ∈ coordinates, v ≠ w) →
    (∃ v ∈ coordinates, place v = -1) ∧ ∃ v ∈ coordinates, place v = 1
  flat : (∀ v ∈ coordinates, ∀ w ∈ coordinates, v = w) → ∀ v ∈ coordinates, place v = -1

section
variable {first low high a b v : ℚ} {rest coordinates : List ℚ}

/-! ### Extents -/

theorem Extent.ofList_eq (lowest : IsLeast {v | v ∈ first :: rest} low)
    (highest : IsGreatest {v | v ∈ first :: rest} high) :
    Extent.ofList first rest = ⟨low, if high - low = 0 then 1 else high - low⟩ := by
  obtain rfl := (isLeast_foldl first rest).unique lowest
  obtain rfl := (isGreatest_foldl first rest).unique highest
  simp only [Extent.ofList, beq_iff_eq]

/-- Two ends are apart, or there is one coordinate only and its extent counts as of length one. -/
theorem Extent.ofList_cases (first : ℚ) (rest : List ℚ) :
    (∃ low, (∀ v ∈ first :: rest, v = low) ∧ Extent.ofList first rest = ⟨low, 1⟩) ∨
    ∃ low high, low < high ∧ IsLeast {v | v ∈ first :: rest} low ∧
      IsGreatest {v | v ∈ first :: rest} high ∧ Extent.ofList first rest = ⟨low, high - low⟩ := by
  have lowest := isLeast_foldl first rest
  have highest := isGreatest_foldl first rest
  have extent := Extent.ofList_eq lowest highest
  rcases (lowest.2 highest.1).eq_or_lt with same | less
  · rw [if_pos (sub_eq_zero.mpr same.symm)] at extent
    refine .inl ⟨_, fun v member => ?_, extent⟩
    exact le_antisymm ((highest.2 member).trans same.ge) (lowest.2 member)
  · rw [if_neg (sub_ne_zero.mpr less.ne')] at extent
    exact .inr ⟨_, _, less, lowest, highest, extent⟩

theorem Extent.scale_low (low span : ℚ) : Extent.scale ⟨low, span⟩ low = -1 := by
  simp [Extent.scale]

theorem Extent.scale_high (less : low < high) : Extent.scale ⟨low, high - low⟩ high = 1 := by
  rw [Extent.scale, mul_div_assoc, div_self (sub_pos.mpr less).ne']
  norm_num

theorem Extent.scale_strictMono {e : Extent ℚ} (positive : 0 < e.span) : StrictMono e.scale := by
  intro v w less
  have shifted : 2 * (v - e.low) < 2 * (w - e.low) := by linarith
  exact sub_lt_sub_right (div_lt_div_of_pos_right shifted positive) 1

/-- The extent of some coordinates lays them out. -/
theorem Extent.laysOut (first : ℚ) (rest : List ℚ) :
    LaysOut (Extent.ofList first rest).scale (first :: rest) := by
  rcases Extent.ofList_cases first rest with ⟨low, all, extent⟩ | ⟨low, high, less, lowest, highest, extent⟩
  · have place (v : ℚ) (member : v ∈ first :: rest) : Extent.scale ⟨low, 1⟩ v = -1 := by
      rw [all v member, Extent.scale_low]
    rw [extent]
    refine ⟨Extent.scale_strictMono one_pos, fun v member => ?_, ?_, fun _ => place⟩
    · rw [place v member]
      norm_num
    · rintro ⟨v, memberV, w, memberW, apart⟩
      exact absurd ((all v memberV).trans (all w memberW).symm) apart
  · have increases : StrictMono (Extent.scale ⟨low, high - low⟩) :=
      Extent.scale_strictMono (sub_pos.mpr less)
    have atLow := Extent.scale_low low (high - low)
    have atHigh := Extent.scale_high less
    rw [extent]
    refine ⟨increases, fun v member => ⟨?_, ?_⟩, fun _ => ⟨⟨low, lowest.1, atLow⟩, high, highest.1, atHigh⟩,
      fun same => absurd (same low lowest.1 high highest.1) less.ne⟩
    · exact atLow.ge.trans (increases.monotone (lowest.2 member))
    · exact (increases.monotone (highest.2 member)).trans atHigh.le

/-- Coordinates that are stretched and moved together lie at the same places of their extent. -/
theorem Extent.scale_stretched (positive : 0 < a) (member : v ∈ first :: rest) :
    (Extent.ofList (a * first + b) (rest.map (a * · + b))).scale (a * v + b) =
      (Extent.ofList first rest).scale v := by
  have lowest := isLeast_foldl first rest
  have highest := isGreatest_foldl first rest
  have monotone : Monotone (a * · + b) := fun v w le =>
    add_le_add_left (mul_le_mul_of_nonneg_left le positive.le) b
  have image : {w | w ∈ (a * first + b) :: rest.map (a * · + b)} =
      (a * · + b) '' {w | w ∈ first :: rest} := by
    ext w
    simp [eq_comm]
  have lowest' := image ▸ monotone.map_isLeast lowest
  have highest' := image ▸ monotone.map_isGreatest highest
  have spans (low high : ℚ) : a * high + b - (a * low + b) = a * (high - low) := by ring
  rw [Extent.ofList_eq lowest highest, Extent.ofList_eq lowest' highest']
  simp only [Extent.scale, spans, mul_eq_zero, positive.ne', false_or]
  split
  next same =>
    have here : v = rest.foldl least first :=
      le_antisymm ((highest.2 member).trans (sub_eq_zero.mp same).le) (lowest.2 member)
    rw [here, sub_self, mul_zero]
  next => rw [mul_left_comm, mul_div_mul_left _ _ positive.ne']

end

/-! ### Clouds -/

/-- Stretch and move a point along both axes. -/
def Point.stretch (a b c d : ℚ) (p : Point ℚ) : Point ℚ := ⟨a * p.x + b, c * p.y + d⟩

section
variable {points other rest : List (Point ℚ)} {first : Point ℚ} {a b c d : ℚ}

theorem normalize_eq (both : points ++ other = first :: rest) :
    normalize points other =
      (points.map (Frame.ofPoints first rest).scale, other.map (Frame.ofPoints first rest).scale) := by
  unfold normalize
  rw [both]

/-- Clouds that are stretched and moved together are scaled to the same clouds. -/
theorem normalize_stretched (positiveX : 0 < a) (positiveY : 0 < c) (points other : List (Point ℚ)) :
    normalize (points.map (Point.stretch a b c d)) (other.map (Point.stretch a b c d)) =
      normalize points other := by
  cases both : points ++ other with
  | nil =>
      obtain ⟨rfl, rfl⟩ := List.append_eq_nil_iff.mp both
      rfl
  | cons first rest =>
      have stretched : points.map (Point.stretch a b c d) ++ other.map (Point.stretch a b c d) =
          first.stretch a b c d :: rest.map (Point.stretch a b c d) := by
        rw [← List.map_append, both, List.map_cons]
      have placed (p : Point ℚ) (member : p ∈ points ++ other) :
          (Frame.ofPoints (first.stretch a b c d) (rest.map (Point.stretch a b c d))).scale
            (p.stretch a b c d) = (Frame.ofPoints first rest).scale p := by
        rw [both] at member
        have x := Extent.scale_stretched (b := b) positiveX (List.mem_map_of_mem (f := Point.x) member)
        have y := Extent.scale_stretched (b := d) positiveY (List.mem_map_of_mem (f := Point.y) member)
        rw [List.map_map] at x y
        simp only [Frame.scale, Frame.ofPoints, Point.stretch, List.map_map]
        exact congrArg₂ Point.mk x y
      rw [normalize_eq both, normalize_eq stretched, List.map_map, List.map_map]
      congr 1
      · exact List.map_congr_left fun p member => placed p (List.mem_append_left other member)
      · exact List.map_congr_left fun p member => placed p (List.mem_append_right points member)

/-- Two exact clouds, either of which may be empty, are scaled point by point and in order, along each
axis by one map that lays out the coordinates of both; and clouds that were stretched and moved together
beforehand come out the same. -/
theorem normalize_fills (points other : List (Point ℚ)) :
    (∃ across up : ℚ → ℚ,
      normalize points other =
        (points.map fun p => ⟨across p.x, up p.y⟩, other.map fun p => ⟨across p.x, up p.y⟩) ∧
      LaysOut across ((points ++ other).map (·.x)) ∧ LaysOut up ((points ++ other).map (·.y))) ∧
    ∀ a b c d : ℚ, 0 < a → 0 < c →
      normalize (points.map (Point.stretch a b c d)) (other.map (Point.stretch a b c d)) =
        normalize points other := by
  refine ⟨?_, fun a b c d positiveX positiveY => normalize_stretched positiveX positiveY points other⟩
  cases both : points ++ other with
  | nil =>
      obtain ⟨rfl, rfl⟩ := List.append_eq_nil_iff.mp both
      have nothing : LaysOut id [] := ⟨strictMono_id, nofun, nofun, fun _ => nofun⟩
      exact ⟨id, id, rfl, nothing, nothing⟩
  | cons first rest =>
      exact ⟨_, _, normalize_eq both, Extent.laysOut first.x (rest.map Point.x),
        Extent.laysOut first.y (rest.map Point.y)⟩

/-- A cloud on a level line beside one that is higher, both stretched and moved. -/
theorem normalize_fills_beside :
    normalize [⟨10, 5⟩, ⟨30, 5⟩] [⟨50, 9⟩] = normalize [⟨1, 0⟩, ⟨2, 0⟩] [(⟨3, 2⟩ : Point ℚ)] := by
  obtain ⟨-, same⟩ := normalize_fills [⟨1, 0⟩, ⟨2, 0⟩] [⟨3, 2⟩]
  have stretched := same 20 (-10) 2 5 (by decide) (by decide)
  norm_num [Point.stretch] at stretched
  exact stretched

end

end PrimeSearch
