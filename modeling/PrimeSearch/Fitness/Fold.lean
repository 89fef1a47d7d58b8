/-
Module: PrimeSearch.Fitness.Fold
Purpose: Scoring two coordinate functions by how differently they place primes and
  composites in the plane.
Main exports: FoldTest, FoldTest.new, FoldTest.score
-/
import PrimeSearch.Fitness.Baseline
import PrimeSearch.Fitness.Config
import PrimeSearch.Fitness.Score
import PrimeSearch.Plane.Contrast

namespace PrimeSearch

/-!
The two functions map a sample of primes and a sample of composites to clouds.  A fold
whose prime cloud covers too little of the square is scored on that alone.  Otherwise the
measures that are enabled are added up by their weights; those against a random
background draw as many integers as there are primes.
-/

/-- The samples that a fold is scored on, and the measures that count. -/
structure FoldTest where
  primes : List Int
  composites : List Int
  config : FitnessConfig

/-- A sample of primes without members. -/
structure NoPrimes where
deriving Repr, DecidableEq

/-- Wording of the error. -/
def NoPrimes.message (_ : NoPrimes) : String :=
  "PrimeFold evaluation needs a non-empty prime sample"

namespace FoldTest

/-- A test over two samples; the primes must not be empty. -/
def new (primes composites : List Int) (config : FitnessConfig) : Except NoPrimes FoldTest :=
  if primes.isEmpty then .error {} else .ok ⟨primes, composites, config⟩

/-- Fewest points of either cloud with which a fold is scored. -/
def minPoints : Nat := 10

/-- Share of the coverage that is the score of a fold without enough of it. -/
def gatedScale : Float := 0.1

/-- Image of integers under two coordinate functions. -/
def image (f g : Expr) (ns : List Int) : Cloud := imagePoints f g (ns.map Binary64.ofInt)

/-- Greatest member of a sample. -/
def maximum : List Int → Int
  | [] => 0
  | first :: rest => rest.foldl max first

/-- Values of all measures. -/
structure Measures where
  areaCoverage : Float
  separation : Float
  contrast : Float
  significance : Float
  specificity : Float
deriving Inhabited

namespace Measures

/-- Value of one measure. -/
def get (v : Measures) : Metric → Float
  | .areaCoverage => v.areaCoverage
  | .separation => v.separation
  | .contrast => v.contrast
  | .significance => v.significance
  | .specificity => v.specificity

/-- Score with given values of the measures. -/
def score (v : Measures) (total : Float) : Score :=
  ⟨total, Metric.all.map fun m => (m.name, v.get m), true⟩

/-- Values of a fold that is scored on its coverage alone. -/
def coverageOnly (coverage : Float) : Measures := ⟨coverage, 0.0, 0.0, 0.0, 0.0⟩

end Measures

/-- The value of a measure is worked out only when the measure is enabled. -/
@[macro_inline] def gate (c : FitnessConfig) (m : Metric) (value : Float) : Float :=
  if (c.settings m).enabled then value else 0.0

/-- Weighted sum of the enabled measures, at least zero. -/
def weightedTotal (c : FitnessConfig) (v : Measures) : Float :=
  atLeastZero (total (c.enabledMetrics.map fun m => (c.settings m).weight * v.get m))

/-- Whether a measure against a random background is enabled. -/
def needsBaseline (c : FitnessConfig) : Bool :=
  (c.settings .significance).enabled || (c.settings .specificity).enabled

/-- Values of the measures, given the coverage and the clouds. -/
def measure (c : FitnessConfig) (coverage : Float) (primes composites baseline : Cloud) :
    Measures where
  areaCoverage := coverage
  separation := gate c .separation (separation primes composites)
  contrast := gate c .contrast (structuralContrast primes composites)
  significance := gate c .significance (significance primes composites baseline)
  specificity := gate c .specificity (specificity primes composites baseline)

/-- Score of a fold that covers enough of the square. -/
def scoreMeasured (c : FitnessConfig) (coverage : Float)
    (primes composites baseline : Cloud) : Score :=
  let v := measure c coverage primes composites baseline
  v.score (weightedTotal c v)

/-- Score of a fold with enough points: the clouds before and after scaling them to the
square are given. -/
def scoreClouds (t : FoldTest) (f g : Expr) (raw primes composites : Cloud) : Draw Score := do
  let c := t.config
  let coverage := gate c .areaCoverage (areaCoverage raw primes)
  if (c.settings .areaCoverage).enabled && coverage < c.areaThreshold then
    return (Measures.coverageOnly coverage).score (coverage * gatedScale)
  else if needsBaseline c then
    match randomIntegers (maximum t.primes) t.primes.length with
    | .error _ => return Score.zero Metric.names
    | .ok integers =>
        let integers ← integers
        let baseline := (normalize (image f g integers) raw).1
        return scoreMeasured c coverage primes composites baseline
  else
    return scoreMeasured c coverage primes composites []

/-- Score of two coordinate functions. -/
def score (t : FoldTest) (f g : Expr) : Draw Score :=
  let raw := image f g t.primes
  let rawComposites := image f g t.composites
  if raw.length < minPoints || rawComposites.length < minPoints then
    return Score.zero Metric.names
  else
    let (primes, composites) := normalize raw rawComposites
    t.scoreClouds f g raw primes composites

end FoldTest

end PrimeSearch
