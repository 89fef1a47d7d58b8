/-
Module: PrimeSearch.Plane.Frame
Purpose: Scaling two clouds together into the square from -1 to 1.
Main exports: Frame, Frame.ofPoints, Frame.scale, normalize
-/
import PrimeSearch.Plane.Point

namespace PrimeSearch

/-!
The scaling works in any arithmetic with an order, so that the same definition serves
measured doubles and exact rational numbers.
-/

section
variable {α : Type} [Add α] [Sub α] [Mul α] [Div α] [LT α] [DecidableLT α] [BEq α]
  [OfNat α 0] [OfNat α 1] [OfNat α 2]

/-- The smaller of two numbers; what is no number prevails. -/
def least (a b : α) : α := if b < a || !(b == b) then b else a

/-- The larger of two numbers; what is no number prevails. -/
def greatest (a b : α) : α := if a < b || !(b == b) then b else a

/-- Lower end and length of an interval; a point counts as of length one. -/
structure Extent (α : Type) where
  low : α
  span : α
deriving Repr, DecidableEq

/-- Extent of a non-empty list of numbers, given by its first and the rest. -/
def Extent.ofList (first : α) (rest : List α) : Extent α :=
  let low := rest.foldl least first
  let span := rest.foldl greatest first - low
  ⟨low, if span == 0 then 1 else span⟩

/-- Where a number lies between the ends of an extent, from -1 to 1. -/
def Extent.scale (e : Extent α) (v : α) : α := 2 * (v - e.low) / e.span - 1

/-- The extents of a cloud along the two axes. -/
structure Frame (α : Type) where
  horizontal : Extent α
  vertical : Extent α
deriving Repr, DecidableEq

/-- Frame of a non-empty cloud, given by its first point and the rest. -/
def Frame.ofPoints (first : Point α) (rest : List (Point α)) : Frame α :=
  ⟨Extent.ofList first.x (rest.map (·.x)), Extent.ofList first.y (rest.map (·.y))⟩

/-- A point in the coordinates of a frame. -/
def Frame.scale (f : Frame α) (p : Point α) : Point α :=
  ⟨f.horizontal.scale p.x, f.vertical.scale p.y⟩

/-- Scale two clouds by the frame of both together. -/
def normalize (points other : List (Point α)) : List (Point α) × List (Point α) :=
  match points ++ other with
  | [] => (points, other)
  | first :: rest =>
      let frame := Frame.ofPoints first rest
      (points.map frame.scale, other.map frame.scale)

end

end PrimeSearch
