/-
Module: PrimeSearch.Fitness.PrimeShare
Purpose: Scoring one function by the share of different primes among its rounded values.
Main exports: roundHalfUp, PrimeShare, PrimeShare.ofNat, PrimeShare.ofQuantity?,
  PrimeShare.sequence, PrimeShare.score
-/
import PrimeSearch.Fitness.Complexity
import PrimeSearch.Fitness.Score
import PrimeSearch.Expr.Printer
import PrimeSearch.Prime.Oracle

namespace PrimeSearch

-- Powers are the core library's, whatever else is imported.
attribute [local instance (high)] instPowNat

/-- Round to the nearest integer, a half upwards. -/
def roundHalfUp (v : Float) : Float := Binary64.floor (v + 0.5)

/-- Greatest magnitude that is asked about: beyond it not every integer is a double. -/
def maxExactInteger : Nat := 2 ^ (53 : Nat)

/-- The scoring of one function over the first positive integers. -/
structure PrimeShare where
  /-- How many values are looked at. -/
  sampleSize : Nat
  /-- The number of primes among them that makes a share of one. -/
  full : Float
deriving Repr

namespace PrimeShare

/-- Names of the parts of a score. -/
def componentNames : List String := ["unique_numbers", "unique_primes", "hit_ratio", "complexity"]

/-- The scoring over so many integers. -/
def ofNat (sampleSize : Nat) : PrimeShare := ⟨sampleSize, Binary64.ofInt sampleSize⟩

/-- Greatest number of values that is laid out.  The values are laid out all at once, and where
there is no room for them nothing can be scored.  How much room there is depends on the machine:
this number stands for it, with more values than any search asks for. -/
def largestSample : Nat := 2 ^ (32 : Nat)

/-- The scoring for a requested sample size.  A real one takes in all integers from one on
that lie below the next number after it; where there is no room for the sample there is none. -/
def ofQuantity? (size : Quantity) : Option PrimeShare :=
  let count :=
    match size with
    | .real x => (Quantity.real (x + 1.0 - 1.0)).ceiling (largestSample + 1)
    | q => q.ceiling 0
  if count ≤ largestSample then some ⟨count, size.toFloat⟩ else none

/-- Rounded values at `1, 2, …`; one that is not finite counts as zero. -/
def sequence (s : PrimeShare) (t : Expr) : List Float :=
  (List.range s.sampleSize).map fun k =>
    let v := t.eval (countToFloat (k + 1))
    roundHalfUp (if v.isFinite then v else 0.0)

/-- The rounded values as integers. -/
def values (s : PrimeShare) (t : Expr) : List Int :=
  (s.sequence t).map fun v => (Binary64.truncate? v).getD 0

/-- Whether a magnitude is asked about. -/
def isAsked (n : Nat) : Bool := 2 ≤ n && n ≤ maxExactInteger

/-- The different magnitudes of some values that can be primes, in increasing order. -/
def magnitudes (values : List Int) : List Nat :=
  (Std.TreeSet.ofList ((values.map Int.natAbs).filter isAsked)).toList

/-- How many of some numbers the oracle calls prime. -/
def countPrimes : List Nat → Oracle → Nat × Oracle
  | [], o => (0, o)
  | n :: rest, o =>
      let (answer, o) := o.isPrime n
      let (count, o) := countPrimes rest o
      (if answer then count + 1 else count, o)

/-- Score of a function. -/
def score (s : PrimeShare) (t : Expr) : StateM Oracle Score := do
  let values := s.values t
  let distinct := (Std.TreeSet.ofList values).size
  let primes ← modifyGet (countPrimes (magnitudes values))
  let ratio := atMostOne (countToFloat primes / s.full)
  return ⟨ratio,
    [("unique_numbers", countToFloat distinct), ("unique_primes", countToFloat primes),
      ("hit_ratio", ratio), ("complexity", complexity t.text)], true⟩

end PrimeShare

end PrimeSearch
