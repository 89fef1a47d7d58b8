/-
Module: PrimeSearch.Fitness.Baseline
Purpose: Random integers, to compare the images of primes with those of all numbers.
Main exports: BaselineError, randomIntegers
-/
import PrimeSearch.Json.Misfit
import PrimeSearch.Random.Source

namespace PrimeSearch

/-- Why no integers can be drawn. -/
inductive BaselineError where
  /-- A bound that leaves no integer. -/
  | bound (given : Quantity)
  | misfit (error : Misfit)

/-- Wording of the error. -/
def BaselineError.message : BaselineError → String
  | .bound given => "max_value must be >= 1, got " ++ given.text
  | .misfit error => error.message

/-- Several integers from one up to a bound, with repetition. -/
def integersUpTo (bound : Nat) (h : 0 < bound) : Nat → Draw (List Int)
  | 0 => return []
  | count + 1 => do
      let n ← Draw.integer 1 bound h
      let rest ← integersUpTo bound h count
      return n :: rest

/-- Several random integers from one up to a bound, which has to be positive. -/
def randomIntegers (bound : Int) (count : Nat) : Except BaselineError (Draw (List Int)) :=
  if h : 0 < bound.toNat then .ok (integersUpTo bound.toNat h count)
  else .error (.bound (.whole bound))

/-- Several random integers up to a bound of any kind. -/
def randomIntegersFor (bound : Json) (count : Nat) : Except BaselineError (Draw (List Int)) := do
  if ← (bound.isBelow 1).mapError .misfit then
    throw (.bound ((Quantity.ofJson? bound).getD default))
  else randomIntegers (← bound.integer.mapError .misfit) count

end PrimeSearch
