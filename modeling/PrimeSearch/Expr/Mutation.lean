/-
Module: PrimeSearch.Expr.Mutation
Purpose: Random changes of one expression and the exchange of parts between two.
Main exports: Expr.isPolynomial, perturbCoefficient, perturbCoefficientFor,
  Expr.mutateNode, Expr.mutate, Expr.crossover
-/
import PrimeSearch.Expr.Random
import PrimeSearch.Json.Misfit

namespace PrimeSearch

/-- Whether an operation keeps polynomials polynomial. -/
def BinaryOp.isPolynomial : BinaryOp → Bool
  | .add | .sub | .mul => true
  | .div | .mod | .pow => false

/-- Whether a function keeps polynomials polynomial. -/
def UnaryOp.isPolynomial : UnaryOp → Bool
  | .square | .cube => true
  | _ => false

/-- Least magnitude a perturbed fractional coefficient keeps. -/
def leastCoefficient : Float := 0.000001

/-- Nudge a coefficient: an integral one by at most two, any other by at most a tenth of
itself.  A coefficient never collapses to zero, unless it was within one of it. -/
def perturbCoefficient (value : Float) : Draw Float := do
  if Binary64.isInteger value then
    let step ← Draw.integer (-2) 5 (by decide)
    let perturbed := value + Binary64.ofInt step
    if perturbed == 0.0 && 1.0 < value.abs then
      let up ← Draw.below 0.5
      return if up then 1.0 else -1.0
    else
      return perturbed
  else
    let factor ← Draw.between (-0.1) 0.1
    let perturbed := value * (1.0 + factor)
    if perturbed.abs < leastCoefficient then
      let up ← Draw.below 0.5
      return if up then 0.1 else -0.1
    else
      return perturbed

/-- Nudge a whole coefficient, however large. -/
def perturbInteger (value : Int) : Draw Float := do
  let step ← Draw.integer (-2) 5 (by decide)
  if value + step = 0 ∧ 1 < value.natAbs then
    let up ← Draw.below 0.5
    return if up then 1.0 else -1.0
  else return Binary64.ofInt (value + step)

/-- Nudge a coefficient given as a value of any kind. -/
def perturbCoefficientFor (value : Json) : Except Misfit (Draw Float) := do
  let x ← value.number
  match (Quantity.ofJson? value).bind Quantity.whole? with
  | some n => return perturbInteger n
  | none => return perturbCoefficient x

namespace Expr

/-- Built from sums, differences, products, squares, cubes and reductions only. -/
def isPolynomial : Expr → Bool
  | .const _ | .var => true
  | .mod child _ => child.isPolynomial
  | .unary op child => op.isPolynomial && child.isPolynomial
  | .binary op left right => op.isPolynomial && left.isPolynomial && right.isPolynomial

/-- The constants of an expression, left to right. -/
def constants : Expr → List Float
  | .const v => [v]
  | .var => []
  | .mod child _ | .unary _ child => child.constants
  | .binary _ left right => left.constants ++ right.constants

/-- Perturb one of the constants, wherever it occurs. -/
def perturb (t : Expr) : Draw Expr :=
  match t.constants with
  | [] => return t
  | first :: rest => do
      let target ← Draw.choose (first :: rest) (by simp)
      let perturbed ← perturbCoefficient target
      return t.replaceMatching (.const target) (.const perturbed)

/-- A local change at the root or, by chance, further down. -/
def mutateNode : Expr → Draw Expr
  | .const v => do
      if Binary64.isInteger v then
        let step ← Draw.integer (-2) 5 (by decide)
        return .const (v + Binary64.ofInt step)
      else
        let step ← Draw.between (-0.5) 0.5
        return .const (v + step)
  | .var => do
      let replace ← Draw.below 0.3
      if replace then
        let n ← Draw.integer 1 10 (by decide)
        return ofInt n
      else
        return .var
  | .mod child m => do
      let keep ← Draw.below 0.3
      if keep then
        let step ← Draw.integer (-5) 11 (by decide)
        let child ← child.mutateNode
        return .mod child (Modulus.clamp (m.val + step))
      else
        child.mutateNode
  | .unary op child => do
      let exchange ← Draw.below 0.3
      if exchange then
        let op ← randomUnaryOp
        return .unary op child
      else
        let keep ← Draw.below 0.5
        if keep then
          let child ← child.mutateNode
          return .unary op child
        else
          return child
  | .binary op left right => do
      let r ← Draw.unit
      if r < 0.4 then
        let left ← left.mutateNode
        return .binary op left right
      else if r < 0.8 then
        let right ← right.mutateNode
        return .binary op left right
      else
        let op ← randomBinaryOp
        return .binary op left right

/-- Replace a random subexpression by a fresh random one. -/
def regrow (t : Expr) (depth : Nat) : Draw Expr := do
  let path ← t.randomPath
  let replacement ← random depth
  return t.replaceAt path replacement

/-- A random change, by one number of the unit interval: up to 0.15 a coefficient of a
polynomial is perturbed, up to 0.35 a subexpression is replaced, up to 0.7 the root
changes locally, up to 0.85 the operands of an operation are exchanged.  Otherwise a
function is unwrapped, and anything else stays as it is. -/
def mutate (t : Expr) (depth : Nat) : Draw Expr := do
  let action ← Draw.unit
  if action < 0.15 && t.isPolynomial then t.perturb
  else if action < 0.35 then t.regrow depth
  else if action < 0.70 then t.mutateNode
  else
    match t with
    | .binary op left right =>
        return if action < 0.85 then .binary op right left else .binary op left right
    | .unary _ child => return child
    | t => return t

/-- Exchange one random subexpression of each of two expressions. -/
def crossover (first second : Expr) : Draw (Expr × Expr) := do
  let (firstPath, firstPart) ← Draw.choose first.positions first.positions_length_pos
  let (secondPath, secondPart) ← Draw.choose second.positions second.positions_length_pos
  return (first.replaceAt firstPath secondPart, second.replaceAt secondPath firstPart)

end Expr

end PrimeSearch
