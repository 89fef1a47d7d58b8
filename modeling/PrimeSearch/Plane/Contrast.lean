/-
Module: PrimeSearch.Plane.Contrast
Purpose: Measures of two clouds against a third one that is random.
Main exports: significance, specificity
-/
import PrimeSearch.Plane.Neighbours
import PrimeSearch.Plane.Distribution
import PrimeSearch.Plane.Lines

namespace PrimeSearch

/-- How much further the first cloud strays from the random one than the second does. -/
def significance (primes composites baseline : Cloud) : Float :=
  let own := distributionDifference primes baseline
  let reference := distributionDifference composites baseline
  atLeastZero (own - reference)

/-- Excess of a measure over its random value, of the first cloud over the second. -/
def excess (measure : Cloud → Float) (primes composites baseline : Cloud) : Float :=
  let own := measure primes
  let reference := measure composites
  let random := measure baseline
  atLeastZero ((own - random) - (reference - random))

/-- Departure of a measure from its random value, of the first cloud over the second. -/
def departure (measure : Cloud → Float) (primes composites baseline : Cloud) : Float :=
  let own := measure primes
  let reference := measure composites
  let random := measure baseline
  atLeastZero ((own - random).abs - (reference - random).abs)

/-- Mean of three contrasts against the random cloud: clustering, lines and quadrants. -/
def specificity (primes composites baseline : Cloud) : Float :=
  let clusters := excess (clustering · clusterSample) primes composites baseline
  let lines := excess linearStructure primes composites baseline
  let quadrants := departure quadrantEntropy primes composites baseline
  (clusters + lines + quadrants) / 3.0

end PrimeSearch
