/-
Module: PrimeSearch.Search.Genetic
Purpose: A genetic algorithm that always keeps the best candidate.
Main exports: Population, Genetic.begin, Genetic.selectParent, Genetic.mutateChild,
  Genetic.step
-/
import Std.Data.TreeMap
import PrimeSearch.Search.Progress

namespace PrimeSearch

/-!
Every step makes a whole new generation.  The best candidate is carried over.  The other
places go to changed children of candidates that won a tournament, as long as they are new
and can be scored; when too many are refused, random candidates fill the rest, so the
size of the population never changes.
-/

/-- The candidates of a generation, and what they scored. -/
structure Population where
  members : List Candidate
  /-- Scores by key. -/
  scores : Std.TreeMap String (Option Score)

namespace Genetic

/-- How often a tournament draws again instead of a member without a score. -/
def tournamentRetries : Nat := 10

/-- A generation in the making. -/
structure Brood where
  members : List Candidate
  keys : Std.TreeSet String
  /-- Children that were refused. -/
  failures : Nat

/-- The brood that holds one candidate. -/
def Brood.ofBest (c : Candidate) : Brood := ⟨[c], Std.TreeSet.ofList [c.key], 0⟩

/-- Count a refused child. -/
def Brood.refuse (b : Brood) : Brood := { b with failures := b.failures + 1 }

/-- Take in a child. -/
def Brood.accept (b : Brood) (c : Candidate) : Brood :=
  { b with members := b.members ++ [c], keys := b.keys.insert c.key }

variable {σ : Type}

/-- Remember the score of a member, and keep it if it is better than the best one. -/
def record (c : Candidate) (score : Option Score) : Move σ Population Unit := do
  modify fun s => { s with own := { s.own with scores := s.own.scores.insert c.key score } }
  let _ ← updateBest c score

/-- The remembered score of a candidate. -/
def scoreOf (own : Population) (c : Candidate) : Option Score := (own.scores[c.key]?).join

/-- Add a member to the population. -/
def enlarge (p : Plan σ) (c : Candidate) : Move σ Population Unit := do
  let score ← p.evaluate c
  modify fun s => { s with own := { s.own with members := s.own.members ++ [c] } }
  record c score

/-- Add random candidates, whether they were seen or not. -/
def fillAny (p : Plan σ) : Nat → Move σ Population Unit
  | 0 => return
  | places + 1 => do
      let c ← draw p.config.operators.random
      enlarge p c
      fillAny p places

/-- Add new random candidates.  After so many tries they need not be new any more. -/
def fillNew (p : Plan σ) : Nat → Nat → Move σ Population Unit
  | 0, places => fillAny p places
  | _ + 1, 0 => return
  | tries + 1, places + 1 => do
      let c ← draw p.config.operators.random
      if (← wasSeen c) && tries != 0 then fillNew p tries (places + 1)
      else
        enlarge p c
        fillNew p tries places

/-- Make the first candidate the first member and fill the population. -/
def populate (p : Plan σ) : Move σ Population Unit := do
  modify fun s => { s with
    own := ⟨[s.current], Std.TreeMap.empty.insert s.current.key s.currentScore⟩ }
  fillNew p p.config.patience (p.config.populationSize.value - 1)

/-- Start a genetic search. -/
def begin (p : Plan σ) (w : Surroundings σ) :
    Except SearchError Unit × Search σ Population :=
  match p.begin ⟨[], ∅⟩ w with
  | (.ok (), s) => (populate p).run.run s
  | failed => failed

/-- A random member; the current candidate where there is none. -/
def drawMember : Move σ Population Candidate := do
  let s ← get
  match s.own.members with
  | [] => return s.current
  | first :: rest => draw (Draw.choose (first :: rest) (by simp))

/-- Draw again as long as the member has no score. -/
def redraw : Nat → Candidate → Move σ Population Candidate
  | 0, c => return c
  | tries + 1, c => do
      if (scoreOf (← get).own c).isSome then return c
      else
        let c ← drawMember
        redraw tries c

/-- The winner of one place of a tournament. -/
def drawScored : Move σ Population Candidate := do
  let c ← drawMember
  redraw tournamentRetries c

/-- The better of two members, the first one of equal ones. -/
def betterOf (own : Population) (a b : Candidate) : Candidate :=
  if effective (scoreOf own a) < effective (scoreOf own b) then b else a

/-- Hold the remaining places of a tournament. -/
def compete : Nat → Candidate → Move σ Population Candidate
  | 0, best => return best
  | places + 1, best => do
      let c ← drawScored
      compete places (betterOf (← get).own best c)

/-- Choose a parent by a tournament. -/
def selectParent (p : Plan σ) : Move σ Population Candidate := do
  let first ← drawScored
  compete (p.config.tournamentSize.value - 1) first

/-- Whether a fresh number lies below a rate, which must not be open. -/
def belowRate (rate : Option Quantity) : Move σ Population Bool := do
  let u ← draw Draw.unit
  match rate with
  | some rate => return decide (u < rate.toFloat)
  | none => throw .openRate

/-- Replace a child by a random candidate, or change it by a transform or at random, or
leave it as it is. -/
def mutateChild (p : Plan σ) (c : Candidate) : Move σ Population Candidate := do
  let operators := p.config.operators
  if ← belowRate p.config.randomRate then draw operators.random
  else
    let mayTransform := decide (p.config.mode = .primeFold) && !operators.symmetric
    let transform ←
      if mayTransform then draw (Draw.below p.config.effectiveSymmetricRate) else pure false
    if transform then attempt (Operators.symmetricMutation c)
    else if ← belowRate p.config.mutationRate then attempt (operators.mutate c 0.0 true)
    else return c

/-- Change a child and take it in if there is room, it is new and it can be scored. -/
def offer (p : Plan σ) (b : Brood) (child : Candidate) : Move σ Population Brood := do
  if p.config.populationSize.value ≤ b.members.length then return b
  else
    let c ← mutateChild p child
    if (← wasSeen c) || b.keys.contains c.key then return b.refuse
    else
      match ← p.evaluate c with
      | none => return b.refuse
      | some score =>
          record c (some score)
          setCurrent c (some score)
          return b.accept c

/-- Let parents have children until the generation is full or too many were refused.
Every round takes in or refuses a child, so the rounds are bounded by the sum of both. -/
def breed (p : Plan σ) : Nat → Brood → Move σ Population Brood
  | 0, b => return b
  | rounds + 1, b => do
      if b.members.length < p.config.populationSize.value && b.failures < p.config.patience then
        let first ← selectParent p
        let second ← selectParent p
        let (one, other) ← attempt (p.config.operators.crossover first second)
        let b ← offer p b one
        let b ← offer p b other
        breed p rounds b
      else return b

/-- Fill a generation with random candidates. -/
def topUp (p : Plan σ) : Nat → Brood → Move σ Population Brood
  | 0, b => return b
  | places + 1, b => do
      let c ← draw p.config.operators.random
      let score ← if ← wasSeen c then pure (scoreOf (← get).own c) else p.evaluate c
      record c score
      topUp p places (b.accept c)

/-- Make a brood the population and forget all other scores. -/
def succeed (b : Brood) : Move σ Population Unit :=
  modify fun s =>
    let scores := b.members.foldl (fun scores c => scores.insert c.key (scoreOf s.own c))
      (Std.TreeMap.empty : Std.TreeMap String (Option Score))
    { s with own := ⟨b.members, scores⟩ }

/-- One step of the genetic algorithm. -/
def step (p : Plan σ) : Move σ Population StepResult := do
  nextIteration
  let size := p.config.populationSize.value
  let b ← breed p (size + p.config.patience) (Brood.ofBest (← get).best)
  let b ← topUp p (size - b.members.length) b
  succeed b
  stepResult true

end Genetic

end PrimeSearch
