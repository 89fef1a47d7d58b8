/-
Module: PrimeSearch.Expr.Printer
Purpose: The canonical text of an expression.
Main exports: Constant.text, Expr.text, Expr.operand
-/
import PrimeSearch.Expr.Basic
import PrimeSearch.Number.Numeral

namespace PrimeSearch

/-!
The text of an expression is read back by the parser.  Operations are put in parentheses
where they are operands, reduction nodes everywhere, and negative constants too, so no
precedence is relied on.
-/

namespace Constant

/-- Magnitude from which an integral constant is written with a power of ten. -/
def integerLimit : Float := 10000000000000000.0

/-- The digits of a magnitude: whole numbers without a point as long as they are below
the limit. -/
def magnitudeText (v : Float) : String :=
  match Binary64.truncate? v with
  | some n =>
      if Binary64.isInteger v && v < integerLimit then Numeral.ofInt n else Numeral.shortest v
  | none => Numeral.shortest v

/-- Text of a constant: its name if it has one, else its digits, in parentheses when a
sign is needed. -/
def text (v : Float) : String :=
  match NamedConstant.ofValue? v with
  | some c => c.name
  | none =>
      if Binary64.isNegative v then "(-" ++ magnitudeText v.abs ++ ")" else magnitudeText v.abs

end Constant

namespace Expr

/-- Whether an expression is an operation on two arguments. -/
def isBinary : Expr → Bool
  | .binary .. => true
  | _ => false

/-- Put a text in parentheses. -/
def parenthesized (text : String) : String := "(" ++ text ++ ")"

/-- A text as an operand. -/
def operand (isOperation : Bool) (text : String) : String :=
  if isOperation then parenthesized text else text

/-- The canonical text. -/
def text : Expr → String
  | .const v => Constant.text v
  | .var => "n"
  | .mod child m =>
      parenthesized (operand child.isBinary child.text ++ " % " ++ Numeral.ofNat m.val)
  | .unary op child => op.name ++ parenthesized child.text
  | .binary op left right =>
      operand left.isBinary left.text ++ " " ++ op.sign ++ " " ++
        operand right.isBinary right.text

end Expr

end PrimeSearch
