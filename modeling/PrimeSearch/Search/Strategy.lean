/-
Module: PrimeSearch.Search.Strategy
Purpose: One face for the three algorithms.
Main exports: Strategy, Strategy.begin, Strategy.step, Strategy.propose,
  Strategy.selectParent, Strategy.isFinished
-/
import PrimeSearch.Search.Annealing
import PrimeSearch.Search.Genetic
import PrimeSearch.Search.LateAcceptance

namespace PrimeSearch

-- Powers are the core library's, whatever else is imported.
attribute [local instance (high)] instPowNat

/-!
The algorithms themselves work with natural numbers.  Where settings ask for a number of
tries, places or entries that is not whole, this face refuses what cannot be counted out.
-/

/-- State of a search by one of the algorithms. -/
inductive Strategy where
  | lateAcceptance (progress : Progress LateAcceptance.History)
  | genetic (progress : Progress Population)
  | annealing (progress : Progress Annealing.Temperature)

namespace Strategy

/-- Number of steps taken. -/
def iteration : Strategy → Nat
  | .lateAcceptance p => p.iteration
  | .genetic p => p.iteration
  | .annealing p => p.iteration

/-- The best candidate found so far. -/
def best : Strategy → Candidate
  | .lateAcceptance p => p.best
  | .genetic p => p.best
  | .annealing p => p.best

/-- Score of the best candidate. -/
def bestScore : Strategy → Option Score
  | .lateAcceptance p => p.bestScore
  | .genetic p => p.bestScore
  | .annealing p => p.bestScore

/-- Whether a search has taken all its steps. -/
def isFinished (config : SearchConfig) (s : Strategy) : Bool :=
  decide (config.maxIterations.value ≤ s.iteration)

/-- Count a step that could not be taken. -/
def skipStep : Strategy → Strategy
  | .lateAcceptance p => .lateAcceptance { p with iteration := p.iteration + 1 }
  | .genetic p => .genetic { p with iteration := p.iteration + 1 }
  | .annealing p => .annealing { p with iteration := p.iteration + 1 }

/-- What is wrong with doing something so many times. -/
def countFault {least : Nat} (c : Count least) : Option SearchError :=
  if c.isWhole then none else some (.misfit (.notCountable "float"))

/-- Why an algorithm cannot take any step: tries of a proposal and places of a tournament
are counted out. -/
def stepFault (config : SearchConfig) : Option SearchError :=
  match config.algorithm with
  | .lateAcceptance | .annealing => countFault config.maxAttempts
  | .genetic => countFault config.tournamentSize

variable {σ ε α : Type}

/-- Make a move, and put the state of the search back into its face. -/
def run (wrap : Progress ε → Strategy) (move : Move σ ε α) (p : Progress ε)
    (w : Surroundings σ) : Except SearchError α × Strategy × Surroundings σ :=
  let (a, s) := move.run.run { p with source := w.source, memory := w.memory }
  (a, wrap s.toProgress, s.toSurroundings)

/-- Separate a search that has begun from its surroundings. -/
def split (wrap : Progress ε → Strategy) (begun : Except SearchError Unit × Search σ ε) :
    Except SearchError Strategy × Surroundings σ :=
  (begun.1.map fun _ => wrap begun.2.toProgress, begun.2.toSurroundings)

/-- Greatest length of a history. -/
def longestHistory : Nat := 2 ^ (63 : Nat) - 1

/-- Refuse a history of a length that is not whole or too great, once the search has begun. -/
def requireLength (config : SearchConfig)
    (begun : Except SearchError Strategy × Surroundings σ) :
    Except SearchError Strategy × Surroundings σ :=
  if !config.historyLength.isWhole then
    (begun.1.bind fun _ => .error (.misfit .notALength), begun.2)
  else if longestHistory < config.historyLength.value then
    (begun.1.bind fun _ => .error (.misfit .tooLong), begun.2)
  else begun

/-- Start a search by the algorithm of its settings. -/
def begin (plan : Plan σ) (w : Surroundings σ) :
    Except SearchError Strategy × Surroundings σ :=
  match plan.config.algorithm with
  | .lateAcceptance =>
      requireLength plan.config (split .lateAcceptance (LateAcceptance.begin plan w))
  | .genetic => split .genetic (Genetic.begin plan w)
  | .annealing => split .annealing (Annealing.begin plan w)

/-- Take one step. -/
def step (plan : Plan σ) (s : Strategy) (w : Surroundings σ) :
    Except SearchError StepResult × Strategy × Surroundings σ :=
  match stepFault plan.config with
  | some e => (.error e, s.skipStep, w)
  | none =>
      match s with
      | .lateAcceptance p => run .lateAcceptance (LateAcceptance.step plan) p w
      | .genetic p => run .genetic (Genetic.step plan) p w
      | .annealing p => run .annealing (Annealing.step plan) p w

/-- Make a move that every algorithm knows. -/
def runAny (move : (ε : Type) → Move σ ε α) (s : Strategy) (w : Surroundings σ) :
    Except SearchError α × Strategy × Surroundings σ :=
  match s with
  | .lateAcceptance p => run .lateAcceptance (move _) p w
  | .genetic p => run .genetic (move _) p w
  | .annealing p => run .annealing (move _) p w

/-- Propose a change of a candidate. -/
def propose (plan : Plan σ) (parent : Candidate) (requireScore both : Bool) (s : Strategy)
    (w : Surroundings σ) :
    Except SearchError (Candidate × Option Score) × Strategy × Surroundings σ :=
  match countFault plan.config.maxAttempts with
  | some e => (.error e, s, w)
  | none => s.runAny (fun _ => plan.propose parent requireScore both) w

/-- Choose a parent from a population. -/
def selectParent (plan : Plan σ) (p : Progress Population) (w : Surroundings σ) :
    Except SearchError Candidate × Strategy × Surroundings σ :=
  match countFault plan.config.tournamentSize with
  | some e => (.error e, .genetic p, w)
  | none => run .genetic (Genetic.selectParent plan) p w

end Strategy

end PrimeSearch
