/-
Module: PrimeSearch.Plane.Distribution
Purpose: Comparing how two clouds fill the plane.
Main exports: spread, divergence, distributionDifference, quadrantEntropy
-/
import PrimeSearch.Plane.Shape

namespace PrimeSearch

-- The zero of a sum is the core library's, whatever else is imported.
attribute [local instance (high)] Zero.ofOfNat0

/-- Standard deviation of the distances from the centre. -/
def spread (points : Cloud) : Float :=
  if points.isEmpty then 0.0
  else
    let centre := points.mean
    deviation (points.map fun p => hypotenuse (p.x - centre.x) (p.y - centre.y))

/-- Number of cells of a histogram along each axis. -/
def histogramBins : Nat := 25

/-- The interval that the cells of a histogram divide along one axis. -/
structure Axis where
  low : Float
  high : Float

/-- Axis over a list of numbers; one without length is widened by a half each way. -/
def Axis.ofList : List Float → Axis
  | [] => ⟨-0.5, 0.5⟩
  | first :: rest =>
      let low := rest.foldl least first
      let high := rest.foldl greatest first
      if high ≤ low then ⟨low - 0.5, high + 0.5⟩ else ⟨low, high⟩

/-- Lower end of a cell. -/
def Axis.edge (a : Axis) (bins i : Nat) : Float :=
  if i = bins then a.high
  else a.low + countToFloat i * ((a.high - a.low) / countToFloat bins)

/-- The cell that a number falls in.  A cell holds its lower end, the last one also its
upper end. -/
def Axis.cell? (a : Axis) (bins : Nat) (v : Float) : Option Nat :=
  if v == a.high then (if bins = 0 then none else some (bins - 1))
  else
    let passed := (List.range (bins + 1)).countP fun i => a.edge bins i ≤ v
    if passed = 0 ∨ bins < passed then none else some (passed - 1)

/-- How many points of a cloud fall in each cell, row by row. -/
def histogram (bins : Nat) (horizontal vertical : Axis) (points : Cloud) : Array Nat :=
  points.foldl (fun counts p =>
    match horizontal.cell? bins p.x, vertical.cell? bins p.y with
    | some i, some j => counts.modify (i * bins + j) (· + 1)
    | _, _ => counts) (Array.replicate (bins * bins) 0)

/-- Part of the relative entropy for one cell. -/
def relativeTerm (p q : Float) : Float :=
  if 0.0 < p && 0.0 < q then p * (p / q).log
  else if p == 0.0 && 0.0 ≤ q then 0.0
  else Binary64.infinity

/-- Distance of two histograms: the square root of half the sum of their relative entropies
to their mean, in binary digits. -/
def histogramDistance (first second : List Nat) : Float :=
  let share (counts : List Nat) : List Float :=
    let all := countToFloat counts.sum
    counts.map fun n => countToFloat n / all
  let ps := share first
  let qs := share second
  let middle := List.zipWith (fun p q => (p + q) / 2.0) ps qs
  let sum := total (List.zipWith relativeTerm ps middle) +
    total (List.zipWith relativeTerm qs middle)
  (sum / (2.0 : Float).log / 2.0).sqrt

/-- Divergence of two clouds, from zero to one, over histograms with common cells. -/
def divergence (first second : Cloud) (bins : Nat) : Float :=
  if first.isEmpty || second.isEmpty then 0.0
  else
    let both := first ++ second
    let horizontal := Axis.ofList (both.map (·.x))
    let vertical := Axis.ofList (both.map (·.y))
    let p := (histogram bins horizontal vertical first).toList
    let q := (histogram bins horizontal vertical second).toList
    if p.sum = 0 ∨ q.sum = 0 then 0.0
    else
      let d := histogramDistance p q
      d * d

/-- Distance of the centres, difference of the spreads and divergence, added up. -/
def distributionDifference (first second : Cloud) : Float :=
  if first.isEmpty || second.isEmpty then 0.0
  else
    distance first.mean second.mean + (spread first - spread second).abs +
      divergence first second histogramBins

/-- Entropy of the numbers of points in the four quadrants. -/
def quadrantEntropy (points : Cloud) : Float :=
  if points.length < 5 then 0.0
  else
    let count (right upper : Bool) : Nat :=
      points.countP fun p => decide (0.0 ≤ p.x) == right && decide (0.0 ≤ p.y) == upper
    let all := countToFloat points.length
    total ([count true true, count false true, count false false, count true false].map
      fun n =>
        let share := countToFloat n / all
        if n = 0 then 0.0 else -share * share.log)

end PrimeSearch
