/-
Module: PrimeSearch.Fitness.Complexity
Purpose: How complicated the text of an expression is.
Main exports: complexityTokens, operatorCount, complexity
-/
import PrimeSearch.Text.Quoted
import PrimeSearch.Plane.Point

namespace PrimeSearch

-- The zero of a sum is the core library's, whatever else is imported.
attribute [local instance (high)] Zero.ofOfNat0

/-- Pieces of text that count as an operator or a function. -/
def complexityTokens : List String :=
  ["sin", "cos", "sqrt", "log", "abs", "+", "-", "*", "/", "%", "^"]

/-- Number of occurrences of operators and functions in a text. -/
def operatorCount (text : String) : Nat :=
  (complexityTokens.map (countOccurrences · text)).sum

/-- One, and one more for every operator and function, and a hundredth for every
character. -/
def complexity (text : String) : Float :=
  1.0 + countToFloat (operatorCount text) + 0.01 * countToFloat (characterCount text.toList)

end PrimeSearch
