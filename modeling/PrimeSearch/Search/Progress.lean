/-
Module: PrimeSearch.Search.Progress
Purpose: What every search keeps track of, and the moves that all algorithms share.
Main exports: Progress, Search, SearchError, Move, Plan, Plan.begin, Plan.evaluate,
  Plan.propose, updateBest, StepResult
-/
import Std.Data.TreeSet
import PrimeSearch.Search.Config
import PrimeSearch.Search.Evaluator

namespace PrimeSearch

/-!
A search holds a current candidate and the best one found so far.  The texts of all
candidates that were ever scored are kept, so that none is scored again as a proposal.
Each algorithm adds data of its own.  A move changes the search together with its
surroundings; when it fails, what it has changed up to there stays changed.
-/

/-- State of a search whose algorithm keeps data of type `ε`. -/
structure Progress (ε : Type) where
  iteration : Nat
  /-- Keys of all candidates that were scored. -/
  seen : Std.TreeSet String
  current : Candidate
  currentScore : Option Score
  best : Candidate
  bestScore : Option Score
  /-- Data of the algorithm. -/
  own : ε

/-- A search together with its surroundings. -/
structure Search (σ ε : Type) extends Progress ε, Surroundings σ

/-- Why a move fails. -/
inductive SearchError where
  | mismatch (error : ModeMismatch)
  | noPartner (error : NoPartner)
  /-- A rate that the algorithm needs was left open. -/
  | openRate
  /-- A setting that does not fit its use. -/
  | misfit (error : Misfit)
deriving Repr, DecidableEq

/-- Wording of a search error. -/
def SearchError.message : SearchError → String
  | .mismatch error => error.message
  | .noPartner error => error.message
  | .openRate => (Misfit.unordered "<" "float" "NoneType").message
  | .misfit error => error.message

/-- A move of a search. -/
abbrev Move (σ ε α : Type) := ExceptT SearchError (StateM (Search σ ε)) α

/-- Settings and evaluator of a search. -/
structure Plan (σ : Type) where
  config : SearchConfig
  evaluator : Evaluator σ

/-- What a step has done. -/
structure StepResult where
  iteration : Nat
  accepted : Bool
  current : Candidate
  currentScore : Option Score
  best : Candidate
  bestScore : Option Score

section
variable {σ ε α : Type}

/-- Draw from the source of the search. -/
def draw (d : Draw α) : Move σ ε α :=
  ExceptT.mk fun s =>
    let (a, source) := d.run s.source
    (.ok a, { s with source })

/-- Draw from the source of the search, in a way that may fail. -/
def attempt (d : Trial α) : Move σ ε α :=
  ExceptT.mk fun s =>
    let (a, source) := d.run.run s.source
    (a.mapError SearchError.noPartner, { s with source })

/-- Whether a candidate was scored before. -/
def wasSeen (c : Candidate) : Move σ ε Bool := do
  return (← get).seen.contains c.key

/-- Keep a candidate if it is better than the best one. -/
def updateBest (c : Candidate) (score : Option Score) : Move σ ε Bool := do
  let s ← get
  if effective s.bestScore < effective score then
    set { s with best := c, bestScore := score }
    return true
  else
    return false

/-- Make a candidate the current one. -/
def setCurrent (c : Candidate) (score : Option Score) : Move σ ε Unit :=
  modify fun s => { s with current := c, currentScore := score }

/-- Count an iteration. -/
def nextIteration : Move σ ε Unit := modify fun s => { s with iteration := s.iteration + 1 }

/-- What the search looks like after a step. -/
def stepResult (accepted : Bool) : Move σ ε StepResult := do
  let s ← get
  return ⟨s.iteration, accepted, s.current, s.currentScore, s.best, s.bestScore⟩

namespace Plan

/-- Mark a candidate as seen and score it; a score that is not valid is none. -/
def evaluate (p : Plan σ) (c : Candidate) : Move σ ε (Option Score) := do
  modify fun s => { s with seen := s.seen.insert c.key }
  let score ← ExceptT.mk fun s =>
    let (score, w) := (p.evaluator.evaluate c).run.run s.toSurroundings
    (score.mapError SearchError.mismatch, { s with toSurroundings := w })
  return if score.valid then some score else none

/-- A random change of a candidate. -/
def mutation (p : Plan σ) (parent : Candidate) (both : Bool) : Move σ ε Candidate :=
  attempt (p.config.operators.mutate parent p.config.effectiveSymmetricRate both)

/-- Change a candidate until the result is new and, if required, can be scored.  After so
many failures the last change is given without a score. -/
def proposeWithin (p : Plan σ) (parent : Candidate) (requireScore both : Bool) :
    Nat → Candidate → Move σ ε (Candidate × Option Score)
  | 0, last => return (last, none)
  | tries + 1, _ => do
      let c ← p.mutation parent both
      if ← wasSeen c then p.proposeWithin parent requireScore both tries c
      else
        let score ← p.evaluate c
        if score.isSome || !requireScore then return (c, score)
        else p.proposeWithin parent requireScore both tries c

/-- Propose a change of a candidate. -/
def propose (p : Plan σ) (parent : Candidate) (requireScore both : Bool) :
    Move σ ε (Candidate × Option Score) :=
  p.proposeWithin parent requireScore both p.config.maxAttempts.value parent

/-- Score the first candidate of a search. -/
def scoreFirst (p : Plan σ) : Move σ ε Unit := do
  let c := (← get).current
  let score ← p.evaluate c
  modify fun s => { s with currentScore := score, bestScore := score }

/-- Start a search from a random candidate. -/
def begin (p : Plan σ) (own : ε) (w : Surroundings σ) :
    Except SearchError Unit × Search σ ε :=
  let (c, source) := p.config.operators.random.run w.source
  p.scoreFirst.run.run
    { iteration := 0, seen := ∅, current := c, currentScore := none, best := c,
      bestScore := none, own, source, memory := w.memory }

/-- Make a candidate the current one, score it, and keep it if it is better than the best
one. -/
def moveTo (p : Plan σ) (c : Candidate) : Move σ ε (Option Score × Bool) := do
  modify fun s => { s with current := c }
  let score ← p.evaluate c
  modify fun s => { s with currentScore := score }
  let changed ← updateBest c score
  return (score, changed)

end Plan

end

end PrimeSearch
