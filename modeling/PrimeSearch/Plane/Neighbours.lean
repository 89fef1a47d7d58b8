/-
Module: PrimeSearch.Plane.Neighbours
Purpose: Measures made of distances between points.
Main exports: separation, densityVariation, structuralContrast, clustering
-/
import PrimeSearch.Plane.Shape

namespace PrimeSearch

/-- The smallest of some numbers, infinite if there are none. -/
def smallest (xs : List Float) : Float := xs.foldl least Binary64.infinity

/-- Mean distance from the points of one cloud to the nearest point of another. -/
def separation (points other : Cloud) : Float :=
  if points.isEmpty || other.isEmpty then 0.0
  else mean (points.map fun p => smallest (other.map (distance p)))

/-- Distance up to which points are neighbours. -/
def neighbourRadius : Float := 0.1

/-- Number of points at which the local density is sampled. -/
def densitySample : Int := 200

/-- Number of neighbours of a point; points in the same place are none. -/
def neighbourCount (points : Cloud) (radius : Float) (p : Point Float) : Nat :=
  points.countP fun q =>
    let d := distance p q
    0.0 < d && d ≤ radius

/-- Relative deviation of the number of neighbours, over the first points of a cloud. -/
def densityVariation (points : Cloud) (radius : Float) (sample : Int) : Float :=
  if points.length < 5 then 0.0
  else
    let counts := (takeUpTo sample points).map fun p => countToFloat (neighbourCount points radius p)
    let average := mean counts
    if average ≤ 0.0 then 0.0 else deviation counts / average

/-- Density variation with the usual radius and sample. -/
def usualDensityVariation (points : Cloud) : Float :=
  densityVariation points neighbourRadius densitySample

/-- Ratio of the density variations of two clouds. -/
def structuralContrast (points other : Cloud) : Float :=
  let own := usualDensityVariation points
  let reference := usualDensityVariation other
  if reference ≤ tolerance then (if tolerance < own then 1.0 else 0.0) else own / reference

/-- Number of points over which clustering is measured. -/
def clusterSample : Int := 150

/-- Distance from each point of a cloud to the nearest other one; `before` holds the
points already passed. -/
def nearestDistances (before : Cloud) : Cloud → List Float
  | [] => []
  | p :: rest =>
      least (smallest (before.map (distance p))) (smallest (rest.map (distance p))) ::
        nearestDistances (p :: before) rest

/-- One less the mean distance to the nearest neighbour, over the first points of a cloud,
and at least zero. -/
def clustering (points : Cloud) (sample : Int) : Float :=
  if points.length < 10 then 0.0
  else atLeastZero (1.0 - mean (nearestDistances [] (takeUpTo sample points)))

end PrimeSearch
