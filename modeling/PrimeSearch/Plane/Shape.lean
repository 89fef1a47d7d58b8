/-
Module: PrimeSearch.Plane.Shape
Purpose: How a cloud is spread out: principal variances, balance of the axes, coverage of
  the square.
Main exports: principalVariances, isotropy, scaleBalance, areaCoverage
-/
import PrimeSearch.Plane.Frame
import PrimeSearch.Plane.Hull

namespace PrimeSearch

/-- What is not above this counts as zero. -/
def tolerance : Float := 1e-9

/-- The logistic function. -/
def sigmoid (x : Float) : Float := 1.0 / (1.0 + (-x).exp)

/-- Variances of the coordinates and their covariance, over the whole population. -/
structure Covariance where
  xx : Float
  xy : Float
  yy : Float

/-- Covariance of a cloud. -/
def Covariance.ofCloud (points : Cloud) : Covariance :=
  let centre := points.mean
  let offsets := points.map (Point.offset centre)
  let share := 1.0 / countToFloat points.length
  ⟨total (offsets.map fun p => p.x * p.x) * share,
    total (offsets.map fun p => p.x * p.y) * share,
    total (offsets.map fun p => p.y * p.y) * share⟩

/-- Larger and smaller principal value.  The smaller one is found from the product of both,
which loses less than their difference would. -/
def Covariance.principal (c : Covariance) : Float × Float :=
  let sum := c.xx + c.yy
  let difference := (c.xx - c.yy).abs
  let twice := (c.xy + c.xy).abs
  let (large, small) := if c.yy.abs < c.xx.abs then (c.xx, c.yy) else (c.yy, c.xx)
  let root :=
    if twice < difference then
      let r := twice / difference
      difference * (1.0 + r * r).sqrt
    else if difference < twice then
      let r := difference / twice
      twice * (1.0 + r * r).sqrt
    else twice * (2.0 : Float).sqrt
  if sum == 0.0 then (0.5 * root, -0.5 * root)
  else
    let major := 0.5 * (sum + root)
    (major, (large / major) * small - (c.xy / major) * c.xy)

/-- Larger and smaller principal variance of a cloud; both are zero for fewer than two
points. -/
def principalVariances (points : Cloud) : Float × Float :=
  if points.length < 2 then (0.0, 0.0)
  else
    let (major, minor) := (Covariance.ofCloud points).principal
    (major, if minor < 0.0 then 0.0 else minor)

/-- How round a cloud is; zero for one without extent. -/
def isotropy (points : Cloud) : Float :=
  let (major, minor) := principalVariances points
  if major ≤ tolerance then 0.0 else sigmoid (3.0 * (minor / major - 0.1))

/-- Length of the range of a list of numbers. -/
def rangeOf : List Float → Float
  | [] => 0.0
  | first :: rest => rest.foldl greatest first - rest.foldl least first

/-- How similar the ranges of the two coordinates are. -/
def scaleBalance (points : Cloud) : Float :=
  if points.isEmpty then 0.0
  else
    let horizontal := rangeOf (points.map (·.x))
    let vertical := rangeOf (points.map (·.y))
    let longer := greatest horizontal vertical
    if longer == 0.0 then 0.0
    else sigmoid (5.0 * (least horizontal vertical / longer - 0.3))

/-- Area of the square that normalized clouds live in. -/
def squareArea : Float := 4.0

/-- Share of the square that a normalized cloud covers, damped by its shape; the balance
of the axes is that of the cloud before normalization. -/
def areaCoverage (raw normalized : Cloud) : Float :=
  if normalized.length < 3 then 0.0
  else
    atMostOne (hullArea normalized / squareArea) * isotropy normalized * scaleBalance raw

end PrimeSearch
