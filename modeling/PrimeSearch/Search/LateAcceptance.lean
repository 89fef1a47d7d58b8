/-
Module: PrimeSearch.Search.LateAcceptance
Purpose: Late acceptance hill climbing.
Main exports: acceptsLate, LateAcceptance.begin, LateAcceptance.step
-/
import PrimeSearch.Search.Progress

namespace PrimeSearch

/-- Whether a score is accepted: it beats the current one, or the one that was last put
into the history. -/
def acceptsLate (candidate current : Float) (history : List Float) : Bool :=
  decide (current < candidate) ||
    match history.getLast? with
    | some last => decide (last < candidate)
    | none => false

namespace LateAcceptance

/-- The current scores after the last steps, oldest first. -/
abbrev History := List Float

/-- Put a score into a history that holds so many. -/
def push (length : Nat) (history : History) (score : Float) : History :=
  let longer := history ++ [score]
  longer.drop (longer.length - length)

/-- Start hill climbing. -/
def begin {σ : Type} (p : Plan σ) (w : Surroundings σ) :
    Except SearchError Unit × Search σ History := p.begin [] w

/-- One step of hill climbing. -/
def step {σ : Type} (p : Plan σ) : Move σ History StepResult := do
  nextIteration
  let (c, score) ← p.propose (← get).current false true
  let s ← get
  let accepted :=
    score.isSome && acceptsLate (effective score) (effective s.currentScore) s.own
  if accepted then
    setCurrent c score
    let _ ← updateBest c score
  modify fun s =>
    { s with own := push p.config.historyLength.value s.own (effective s.currentScore) }
  stepResult accepted

end LateAcceptance

end PrimeSearch
