/-
Module: PrimeSearch.Plane.Lines
Purpose: How much of a cloud lies on straight lines.
Main exports: rasterize, LineSearch, lineStrength, linearity, linearStructure
-/
import PrimeSearch.Plane.Shape

namespace PrimeSearch

-- Powers and the zero of a sum are the core library's, whatever else is imported.
attribute [local instance (high)] instPowNat Zero.ofOfNat0

/-- A pixel of a square grid. -/
abbrev Pixel := Int × Int

/-- Order of pixels, column by column. -/
def pixelLe (p q : Pixel) : Bool :=
  decide (p.1 < q.1) || (p.1 == q.1 && decide (p.2 ≤ q.2))

/-- Drop repetitions from a sorted list of pixels. -/
def dropEqualPixels : List Pixel → List Pixel
  | [] => []
  | [p] => [p]
  | p :: q :: rest =>
      if p = q then dropEqualPixels (q :: rest) else p :: dropEqualPixels (q :: rest)

/-- Grid coordinate of what is no number. -/
def noCoordinate : Int := -2 ^ (63 : Nat)

/-- Grid coordinate of a normalized coordinate. -/
def gridCoordinate (size : Float) (v : Float) : Int :=
  let clipped := if v < -1.0 then -1.0 else if 1.0 < v then 1.0 else v
  (Binary64.nearestInt? ((clipped + 1.0) / 2.0 * (size - 1.0))).getD noCoordinate

/-- The pixels that a normalized cloud occupies, each once, column by column. -/
def rasterize (points : Cloud) (size : Float) : List Pixel :=
  dropEqualPixels
    ((points.map fun p => (gridCoordinate size p.x, gridCoordinate size p.y)).mergeSort pixelLe)

/-- Settings of the search for lines. -/
structure LineSearch where
  /-- Pixels along a side of the grid. -/
  gridSize : Float
  /-- Number of directions that are tried. -/
  angles : Nat
  /-- Number of lines that count; a negative one leaves out the weakest. -/
  peaks : Int

/-- The usual settings. -/
def LineSearch.usual : LineSearch := ⟨32.0, 90, 5⟩

/-- A table of votes, one row for each distance of a line from the origin and one column
for each direction. -/
structure Votes where
  rows : Nat
  columns : Nat
  counts : Array Nat

namespace Votes

/-- Votes of a cell. -/
def get (v : Votes) (row column : Nat) : Nat := v.counts.getD (row * v.columns + column) 0

/-- Index of a cell beyond an edge, which is reflected with its own line repeated. -/
def reflect (size : Nat) (i : Int) : Nat :=
  if size = 0 then 0
  else
    let period : Int := 2 * size
    let k := (Int.emod i period).toNat
    if k < size then k else 2 * size - 1 - k

/-- Largest value over five neighbouring places of a line of cells. -/
def bestOfFive (size : Nat) (value : Nat → Nat) (i : Nat) : Nat :=
  [-2, -1, 0, 1, 2].foldl (fun best (step : Int) =>
    max best (value (reflect size ((i : Int) + step)))) 0

/-- For each cell the largest vote in the square of five by five cells around it. -/
def localBest (v : Votes) : Votes :=
  let along : Votes := { v with
    counts := Array.ofFn fun (k : Fin (v.rows * v.columns)) =>
      let row := k.val / v.columns
      bestOfFive v.columns (v.get row) (k.val % v.columns) }
  { v with
    counts := Array.ofFn fun (k : Fin (v.rows * v.columns)) =>
      let column := k.val % v.columns
      bestOfFive v.rows (along.get · column) (k.val / v.columns) }

/-- Votes of the cells that are not surpassed around them. -/
def peaks (v : Votes) : List Nat :=
  let best := v.localBest
  (List.zip v.counts.toList best.counts.toList).filterMap fun (own, around) =>
    if own = around ∧ 0 < own then some own else none

end Votes

/-- Distance from the origin to the farthest corner of the grid. -/
def LineSearch.reach (s : LineSearch) : Nat :=
  ((Binary64.truncate? (Binary64.ceil (hypotenuse s.gridSize s.gridSize))).getD 0).toNat

/-- Row of the votes for lines at a distance from the origin.  Distances that are too far on
the other side are counted from the end. -/
def voteRow (reach : Nat) (distance : Float) : Nat :=
  let row := (Binary64.nearestInt? distance).getD 0 + reach
  (if row < 0 then row + (2 * reach + 1) else row).toNat

/-- Let every pixel vote for the lines through it. -/
def LineSearch.vote (s : LineSearch) (pixels : List Pixel) : Votes :=
  let reach := s.reach
  let step := NamedConstant.pi.value / countToFloat s.angles
  let directions := (List.range s.angles).map fun i =>
    let angle := countToFloat i * step
    (i, angle.cos, angle.sin)
  let blank : Array Nat := Array.replicate ((2 * reach + 1) * s.angles) 0
  let counts := pixels.foldl (fun counts (px, py) =>
    directions.foldl (fun counts (i, c, d) =>
      let row := voteRow reach (Binary64.ofInt px * c + Binary64.ofInt py * d)
      counts.modify (row * s.angles + i) (· + 1)) counts) blank
  ⟨2 * reach + 1, s.angles, counts⟩

/-- Share of the occupied pixels on the strongest lines, at most one. -/
def lineStrength (points : Cloud) (s : LineSearch) : Float :=
  if points.length < 2 then 0.0
  else
    let pixels := rasterize points s.gridSize
    if pixels.length < 2 then 0.0
    else
      let strongest := takeUpTo s.peaks ((s.vote pixels).peaks.mergeSort fun a b => b ≤ a)
      atMostOne (countToFloat strongest.sum / countToFloat pixels.length)

/-- One less the ratio of the principal variances; one for a perfect line. -/
def linearity (points : Cloud) : Float :=
  let (major, minor) := principalVariances points
  if major ≤ tolerance then 0.0 else 1.0 - minor / major

/-- Mean of line strength and linearity. -/
def linearStructure (points : Cloud) : Float :=
  (lineStrength points LineSearch.usual + linearity points) / 2.0

end PrimeSearch
