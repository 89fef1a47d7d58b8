/-
Module: PrimeSearch.Search.Evaluator
Purpose: Scoring candidates, in general and by the two kinds of fitness.
Main exports: Surroundings, Evaluator, ModeMismatch, Evaluator.evaluate, Context,
  Context.create, makeEvaluator, evaluatorFor
-/
import PrimeSearch.Fitness.Fold
import PrimeSearch.Fitness.PrimeShare
import PrimeSearch.Prime.Request
import PrimeSearch.Search.Candidate

namespace PrimeSearch

/-!
A search uses an evaluator without knowing what it does.  An evaluator may draw from the
source of randomness and may remember things; both together are its surroundings.
-/

/-- What a search and its evaluator share: randomness, and the evaluator's memory. -/
structure Surroundings (σ : Type) where
  source : Source
  memory : σ

/-- A way to score the candidates of one mode. -/
structure Evaluator (σ : Type) where
  mode : Mode
  score : Candidate → StateM (Surroundings σ) Score

/-- A candidate of the wrong mode. -/
structure ModeMismatch where
  candidate : Mode
  expected : Mode
deriving Repr, DecidableEq

/-- Wording of the error. -/
def ModeMismatch.message (e : ModeMismatch) : String :=
  s!"Cannot score a {e.candidate.name} candidate in {e.expected.name} mode"

/-- Score a candidate, which has to be of the evaluator's mode. -/
def Evaluator.evaluate {σ : Type} (e : Evaluator σ) (c : Candidate) :
    ExceptT ModeMismatch (StateM (Surroundings σ)) Score :=
  if c.mode = e.mode then e.score c else throw ⟨c.mode, e.mode⟩

/-- Score one function by the primes among its values. -/
def PrimeShare.evaluator (s : PrimeShare) : Evaluator Oracle where
  mode := .primeGen
  score c := fun w =>
    let (score, memory) := (s.score c.f).run w.memory
    (score, { w with memory })

/-- Score one function where there is no room to lay out its values: the attempt is given up for
every candidate, and no score is valid. -/
def unscorable : Evaluator Oracle where
  mode := .primeGen
  score _ := return Score.zero PrimeShare.componentNames

/-- Score two coordinate functions by the clouds they make. -/
def FoldTest.evaluator {σ : Type} (t : FoldTest) : Evaluator σ where
  mode := .primeFold
  score c := fun w =>
    match c with
    | .single _ => (Score.zero Metric.names, w)
    | .pair f g =>
        let (score, source) := (t.score f g).run w.source
        (score, { w with source })

/-- What a search needs from outside: the weights of the measures, a primality oracle and
randomness. -/
structure Context where
  fitness : FitnessConfig
  surroundings : Surroundings Oracle

namespace Context

/-- How far the oracle of a new context knows the primes. -/
def defaultPreCache : Int := 10000

/-- A fresh oracle that knows the primes up to a bound. -/
def oracle (preCache : Int) : Oracle :=
  let empty := Oracle.empty Oracle.defaultLimit
  if 2 ≤ preCache then empty.preCache preCache else empty

/-- A context with a fresh oracle that knows the primes up to a bound. -/
def create (source : Source) (fitness : FitnessConfig) (preCache : Int) : Context :=
  ⟨fitness, ⟨source, oracle preCache⟩⟩

/-- A context for a bound of any kind, its fraction dropped. -/
def createFor (source : Source) (fitness : FitnessConfig) (preCache : Json) :
    Except Misfit Context := do
  let wanted ← preCache.compared ">=" (·.isAtLeast 2)
  let bound ← if wanted then preCache.integer else pure 0
  return create source fitness bound

end Context

/-- The evaluator of a mode over samples of a requested size; making one of folds asks the
oracle for the samples. -/
def makeEvaluator (fitness : FitnessConfig) (mode : Mode) (size : Quantity) :
    ExceptT OracleError (StateM (Surroundings Oracle)) (Evaluator Oracle) :=
  match mode with
  | .primeGen =>
      if size.isBelow 1 then throw (.sampleSize size)
      else return ((PrimeShare.ofQuantity? size).map PrimeShare.evaluator).getD unscorable
  | .primeFold => ExceptT.mk fun w =>
      let (samples, memory) := w.memory.samplesFor size
      (samples.map fun (primes, composites) =>
        (FoldTest.mk (primes.map Int.ofNat) (composites.map Int.ofNat) fitness).evaluator,
        { w with memory })

/-- The evaluator of a mode for a sample size that may be no number. -/
def evaluatorFor (fitness : FitnessConfig) (mode : Mode) (size : Json) :
    ExceptT OracleError (StateM (Surroundings Oracle)) (Evaluator Oracle) :=
  match Quantity.ofJson? size with
  | some q => makeEvaluator fitness mode q
  | none => throw (.misfit (.unordered "<" size.typeName "int"))

end PrimeSearch
