/-
Module: PrimeSearch.Plane.Point
Purpose: Points of the plane, clouds of them, and the small sums every measure uses.
Main exports: Point, Cloud, imagePoints, Cloud.mean, distance, atLeastZero, atMostOne
-/
import PrimeSearch.Expr.Eval

namespace PrimeSearch

/-- A point of the plane. -/
structure Point (α : Type) where
  x : α
  y : α
deriving Repr, DecidableEq, Inhabited

/-- A list of points; order and repetition matter to some measures. -/
abbrev Cloud := List (Point Float)

/-- A count as a number. -/
def countToFloat (n : Nat) : Float := (UInt64.ofNat n).toFloat

/-- The members in front of a place, which a negative number counts from the end. -/
def takeUpTo {α : Type} (stop : Int) (xs : List α) : List α :=
  if 0 ≤ stop then xs.take stop.toNat else xs.take (xs.length - stop.natAbs)

/-- Sum of a list of numbers, from the left. -/
def total (xs : List Float) : Float := xs.foldl (· + ·) 0.0

/-- Mean of a list of numbers. -/
def mean (xs : List Float) : Float := total xs / countToFloat xs.length

/-- Standard deviation of a list of numbers taken as the whole population. -/
def deviation (xs : List Float) : Float :=
  let m := mean xs
  (mean (xs.map fun x => (x - m) * (x - m))).sqrt

/-- A number, or zero when it is not positive. -/
def atLeastZero (x : Float) : Float := if 0.0 < x then x else 0.0

/-- A number, or one when it is not below. -/
def atMostOne (x : Float) : Float := if x < 1.0 then x else 1.0

/-- Largest coordinate that a point of an image may have. -/
def maxCoordinate : Float := 1e150

/-- Whether a coordinate is usable. -/
def isBounded (v : Float) : Bool := v.isFinite && v.abs ≤ maxCoordinate

/-- Images of numbers under two coordinate functions, without those that have no usable
coordinates. -/
def imagePoints (f g : Expr) (values : List Float) : Cloud :=
  (values.map fun v => (⟨f.eval v, g.eval v⟩ : Point Float)).filter fun p =>
    isBounded p.x && isBounded p.y

/-- Components below this length lose digits when they are squared. -/
def shortLength : Float := 1e-140

/-- Components above this length overflow when they are squared. -/
def longLength : Float := 1e140

/-- Length of a vector, without overflow on the way. -/
def hypotenuse (dx dy : Float) : Float :=
  let a := dx.abs
  let b := dy.abs
  let large := if a < b then b else a
  if large == 0.0 || !large.isFinite then large
  else if large < shortLength || longLength < large then
    let p := a / large
    let q := b / large
    large * (p * p + q * q).sqrt
  else (a * a + b * b).sqrt

/-- Distance of two points. -/
def distance (p q : Point Float) : Float :=
  let dx := p.x - q.x
  let dy := p.y - q.y
  (dx * dx + dy * dy).sqrt

/-- Centre of a cloud. -/
def Cloud.mean (c : Cloud) : Point Float :=
  ⟨PrimeSearch.mean (c.map (·.x)), PrimeSearch.mean (c.map (·.y))⟩

end PrimeSearch
