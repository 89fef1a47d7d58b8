/-
Module: PrimeSearch.Search.Mode
Purpose: The two kinds of search and the three ways to search.
Main exports: Mode, Algorithm
-/

namespace PrimeSearch

/-- What is searched for: one function that yields primes, or two coordinate functions
that set primes apart. -/
inductive Mode where
  | primeGen
  | primeFold
deriving Repr, DecidableEq, Inhabited

namespace Mode

/-- All modes. -/
def all : List Mode := [.primeGen, .primeFold]

/-- Name of a mode. -/
def name : Mode → String
  | .primeGen => "primegen"
  | .primeFold => "primefold"

/-- The mode of a given name. -/
def ofName? (text : String) : Option Mode := all.find? (·.name = text)

/-- How many functions a candidate of a mode has. -/
def arity : Mode → Nat
  | .primeGen => 1
  | .primeFold => 2

end Mode

/-- How the space of candidates is searched: late acceptance hill climbing, a genetic
algorithm, or simulated annealing. -/
inductive Algorithm where
  | lateAcceptance
  | genetic
  | annealing
deriving Repr, DecidableEq, Inhabited

namespace Algorithm

/-- All algorithms. -/
def all : List Algorithm := [.lateAcceptance, .genetic, .annealing]

/-- Name of an algorithm. -/
def name : Algorithm → String
  | .lateAcceptance => "lahc"
  | .genetic => "ga"
  | .annealing => "sa"

/-- Names of all algorithms. -/
def names : List String := all.map name

/-- The algorithm of a given name. -/
def ofName? (text : String) : Option Algorithm := all.find? (·.name = text)

end Algorithm

end PrimeSearch
