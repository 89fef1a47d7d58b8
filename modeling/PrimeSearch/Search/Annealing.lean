/-
Module: PrimeSearch.Search.Annealing
Purpose: Simulated annealing.
Main exports: acceptanceProbability, Annealing.begin, Annealing.step
-/
import PrimeSearch.Search.Progress

namespace PrimeSearch

/-- Probability of accepting a change of the score at a temperature: gains always are
accepted, losses the less the greater they are and the colder it is. -/
def acceptanceProbability (delta temperature : Float) : Float :=
  if 0.0 < delta then 1.0
  else if temperature ≤ 0.0 then 0.0
  else (delta / temperature).exp

namespace Annealing

/-!
Losses are divided by the temperature and cooling multiplies it, both in doubles.  A start at
a whole number beyond the doubles allows neither, and a step that comes to one of them fails.
The temperature then never changes: gains are accepted at any, and a factor of cooling that is
a whole number is one.
-/

/-- The present temperature, infinite where it is beyond the doubles. -/
abbrev Temperature := Float

/-- Start annealing. -/
def begin {σ : Type} (p : Plan σ) (w : Surroundings σ) :
    Except SearchError Unit × Search σ Temperature :=
  p.begin p.config.startTemperature.toFloat w

/-- Compute with the temperature, where that is needed; it may be too hot for that. -/
def useTemperature {σ : Type} (p : Plan σ) (needed : Bool) : Move σ Temperature Unit :=
  if needed && p.config.isTooHot then throw (.misfit .numberTooLarge) else pure ()

/-- Decide by chance whether to move to a scored candidate. -/
def consider {σ : Type} (p : Plan σ) (c : Candidate) (score : Score) :
    Move σ Temperature Bool := do
  let s ← get
  let delta := score.total - effective s.currentScore
  let accepted ← draw (Draw.below (acceptanceProbability delta s.own))
  useTemperature p !decide (0.0 < delta)
  if accepted then
    setCurrent c (some score)
    let _ ← updateBest c (some score)
  return accepted

/-- Multiply the temperature with the factor of cooling, which leaves it as it is where that is
a whole number. -/
def cool {σ : Type} (p : Plan σ) : Move σ Temperature Unit := do
  useTemperature p p.config.coolingRate.whole?.isNone
  modify fun s => { s with own := s.own * p.config.coolingRate.toFloat }

/-- One step of annealing; it always cools, unless it fails. -/
def step {σ : Type} (p : Plan σ) : Move σ Temperature StepResult := do
  nextIteration
  let (c, score) ← p.propose (← get).current true false
  let accepted ←
    match score with
    | some score => consider p c score
    | none => pure false
  cool p
  stepResult accepted

end Annealing

end PrimeSearch
