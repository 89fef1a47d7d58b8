/-
Module: PrimeSearch.Plane.Hull
Purpose: Convex hulls and areas of polygons.
Main exports: Point.cross, distinctPoints, convexHull, doubledArea, measuredHull,
  hullArea, polygonArea
-/
import PrimeSearch.Plane.Point

namespace PrimeSearch

/-!
The hull is found by sorting the points by their direction from the lowest one and
walking round, dropping every corner that does not turn left.  How directions are
compared is a parameter: measured clouds compare angles as doubles, exact ones can compare
them without any rounding.
-/

section
variable {α : Type} [Add α] [Sub α] [Mul α] [LT α] [DecidableLT α] [LE α] [DecidableLE α]
  [OfNat α 0]

/-- Twice the signed area of the triangle of three points: positive for a left turn. -/
def Point.cross (o a b : Point α) : α :=
  (a.x - o.x) * (b.y - o.y) - (a.y - o.y) * (b.x - o.x)

/-- Vector from one point to another. -/
def Point.offset (o p : Point α) : Point α := ⟨p.x - o.x, p.y - o.y⟩

/-- Order by the first coordinate, then by the second. -/
def Point.columnLe (p q : Point α) : Bool :=
  decide (p.x < q.x) || (!decide (q.x < p.x) && !decide (q.y < p.y))

/-- Order by the second coordinate, then by the first. -/
def Point.rowLe (p q : Point α) : Bool :=
  decide (p.y < q.y) || (!decide (q.y < p.y) && !decide (q.x < p.x))

/-- Drop every point that is not after its predecessor in a sorted list. -/
def dropRepeats : List (Point α) → List (Point α)
  | [] => []
  | [p] => [p]
  | p :: q :: rest =>
      if Point.columnLe q p then dropRepeats (p :: rest) else p :: dropRepeats (q :: rest)

/-- The different points of a cloud, column by column. -/
def distinctPoints (points : List (Point α)) : List (Point α) :=
  dropRepeats (points.mergeSort Point.columnLe)

/-- The lowest, then leftmost of some points. -/
def lowest (first : Point α) (rest : List (Point α)) : Point α :=
  rest.foldl (fun p q => if Point.rowLe p q then p else q) first

/-- Drop corners from the end of a path, which is kept backwards, until the next point
makes a left turn. -/
def retreat (p : Point α) : List (Point α) → List (Point α)
  | last :: before :: path =>
      if Point.cross before last p ≤ 0 then retreat p (before :: path)
      else last :: before :: path
  | path => path

/-- Walk along sorted points, keeping left turns only. -/
def walk (path : List (Point α)) : List (Point α) → List (Point α)
  | [] => path.reverse
  | p :: rest => walk (p :: retreat p path) rest

/-- Hull of a cloud, counter-clockwise from its lowest point, for a given order of the
vectors from that point. -/
def convexHull (directionLe : Point α → Point α → Bool) (points : List (Point α)) :
    List (Point α) :=
  match distinctPoints points with
  | first :: second :: third :: rest =>
      let distinct := first :: second :: third :: rest
      let pivot := lowest first (second :: third :: rest)
      let others := distinct.filter fun p => !(Point.rowLe p pivot && Point.rowLe pivot p)
      walk [pivot] (others.mergeSort fun p q =>
        directionLe (Point.offset pivot p) (Point.offset pivot q))
  | few => few

/-- Sum over the sides of a polygon. -/
def sumOverSides (term : Point α → Point α → α) (first : Point α) : List (Point α) → α → α
  | [], sum => sum
  | [last], sum => sum + term last first
  | p :: q :: rest, sum => sumOverSides term first (q :: rest) (sum + term p q)

/-- Twice the signed area of a polygon given by its corners in order. -/
def doubledArea (corners : List (Point α)) : α :=
  match corners with
  | first :: second :: third :: rest =>
      let polygon := first :: second :: third :: rest
      sumOverSides (fun p q => p.x * q.y) first polygon 0 -
        sumOverSides (fun p q => p.y * q.x) first polygon 0
  | _ => 0

end

/-- Order of measured vectors: by angle, then by length. -/
def measuredDirectionLe (p q : Point Float) : Bool :=
  let a := Float.atan2 p.y p.x
  let b := Float.atan2 q.y q.x
  decide (a < b) || (!decide (b < a) && !decide (hypotenuse q.x q.y < hypotenuse p.x p.y))

/-- Hull of a measured cloud. -/
def measuredHull (points : Cloud) : Cloud := convexHull measuredDirectionLe points

/-- Area of a polygon. -/
def polygonArea (corners : Cloud) : Float :=
  if corners.length < 3 then 0.0 else 0.5 * (doubledArea corners).abs

/-- Area of the hull of a cloud. -/
def hullArea (points : Cloud) : Float := polygonArea (measuredHull points)

end PrimeSearch
