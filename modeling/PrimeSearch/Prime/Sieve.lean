/-
Module: PrimeSearch.Prime.Sieve
Purpose: All primes up to a bound.
Main exports: primesTo, compositesAmong
-/

namespace PrimeSearch

namespace Sieve

/-- Cross out `k`, `k + step`, `k + 2 * step`, … as far as the marks go. -/
def crossOut (step : Nat) : Nat → Nat → Array Bool → Array Bool
  | 0, _, marks => marks
  | fuel + 1, k, marks =>
      if k < marks.size then crossOut step fuel (k + step) (marks.setIfInBounds k false)
      else marks

/-- Cross out the multiples of every number that is still marked, from its square on, as
long as that square is within the bound. -/
def sift (limit : Nat) : Nat → Nat → Array Bool → Array Bool
  | 0, _, marks => marks
  | fuel + 1, i, marks =>
      if i * i ≤ limit then
        let marks := if marks.getD i false then crossOut i (limit + 1) (i * i) marks else marks
        sift limit fuel (i + 1) marks
      else marks

/-- The marked indices below `k`, in front of a list. -/
def collect (marks : Array Bool) : Nat → List Nat → List Nat
  | 0, found => found
  | k + 1, found => collect marks k (if marks.getD k false then k :: found else found)

/-- Marks for `0 … limit`, without zero and one. -/
def start (limit : Nat) : Array Bool :=
  ((Array.replicate (limit + 1) true).setIfInBounds 0 false).setIfInBounds 1 false

end Sieve

/-- The primes up to a bound, in increasing order. -/
def primesTo (limit : Nat) : List Nat :=
  Sieve.collect (Sieve.sift limit (limit + 1) 2 (Sieve.start limit)) (limit + 1) []

/-- The numbers from two up to a bound that are not in a list. -/
def compositesAmong (limit : Nat) (primes : List Nat) : List Nat :=
  let marks := primes.foldl (fun marks p => marks.setIfInBounds p false) (Sieve.start limit)
  Sieve.collect marks (limit + 1) []

end PrimeSearch
