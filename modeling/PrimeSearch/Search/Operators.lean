/-
Module: PrimeSearch.Search.Operators
Purpose: Random candidates, their changes and their crossing.
Main exports: Operators, Operators.random, Operators.mutate,
  Operators.symmetricMutation, Operators.crossover
-/
import PrimeSearch.Expr.Mutation
import PrimeSearch.Expr.Symmetry
import PrimeSearch.Search.Candidate

namespace PrimeSearch

/-- A computation that draws and may meet a candidate with one function where two are
needed.  What was drawn before that stays drawn. -/
abbrev Trial (α : Type) := ExceptT NoPartner Draw α

/-- How candidates are made and changed. -/
structure Operators where
  mode : Mode
  /-- Operator levels of random expressions. -/
  maxDepth : Nat
  /-- Two coordinate functions always are related by a transform. -/
  symmetric : Bool
deriving Repr, DecidableEq

namespace Operators

/-- Operators of a mode; a single function has no symmetry to keep. -/
def new (mode : Mode) (maxDepth : Nat) (enforceSymmetry : Bool) : Operators :=
  ⟨mode, maxDepth, enforceSymmetry && decide (mode = .primeFold)⟩

/-- A function and its image under a random transform. -/
def symmetricCandidate (f : Expr) : Draw Candidate := do
  let p ← SymmetricPair.derive f
  return .pair p.f p.g

/-- A random candidate. -/
def random (o : Operators) : Draw Candidate := do
  let f ← Expr.random o.maxDepth
  match o.mode with
  | .primeGen => return .single f
  | .primeFold =>
      if o.symmetric then symmetricCandidate f
      else
        let g ← Expr.random o.maxDepth
        return .pair f g

/-- The second function of a candidate. -/
def partner (c : Candidate) : Trial Expr :=
  match c.g with
  | .ok g => return g
  | .error e => throw e

/-- A random change of one function. -/
def mutateTree (o : Operators) (t : Expr) : Draw Expr := t.mutate o.maxDepth

/-- Change both functions by one transform. -/
def symmetricMutation (c : Candidate) : Trial Candidate := do
  let g ← partner c
  let p ← SymmetricPair.mutate c.f g
  return .pair p.f p.g

/-- A random change of a candidate.  Two functions are changed by a transform as often as
`rate` says; otherwise both are changed on their own, or one of them only. -/
def mutate (o : Operators) (c : Candidate) (rate : Float) (both : Bool) : Trial Candidate := do
  match o.mode with
  | .primeGen => return .single (← o.mutateTree c.f)
  | .primeFold =>
      if o.symmetric then
        let f ← o.mutateTree c.f
        symmetricCandidate f
      else
        let together ← Draw.below rate
        if together then symmetricMutation c
        else if both then
          let f ← o.mutateTree c.f
          let g ← o.mutateTree (← partner c)
          return .pair f g
        else
          let first ← Draw.below 0.5
          if first then
            let f ← o.mutateTree c.f
            return .pair f (← partner c)
          else
            let g ← o.mutateTree (← partner c)
            return .pair c.f g

/-- Two children that share the parts of two candidates. -/
def crossover (o : Operators) (first second : Candidate) : Trial (Candidate × Candidate) := do
  match o.mode with
  | .primeGen =>
      let (a, b) ← Expr.crossover first.f second.f
      return (.single a, .single b)
  | .primeFold =>
      if o.symmetric then
        let (a, b) ← Expr.crossover first.f second.f
        let a ← symmetricCandidate a
        let b ← symmetricCandidate b
        return (a, b)
      else
        let exchange ← Draw.below 0.5
        if exchange then
          let g ← partner second
          let h ← partner first
          return (.pair first.f g, .pair second.f h)
        else
          let (a, b) ← Expr.crossover first.f second.f
          let (c, d) ← Expr.crossover (← partner first) (← partner second)
          return (.pair a c, .pair b d)

end Operators

end PrimeSearch
