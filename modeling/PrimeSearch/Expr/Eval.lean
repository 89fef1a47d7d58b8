/-
Module: PrimeSearch.Expr.Eval
Purpose: The value of an expression at a number.
Main exports: safePower, truncatedMod, UnaryOp.apply, BinaryOp.apply, BinaryOp.applyAll,
  Expr.eval
-/
import PrimeSearch.Expr.Basic
import PrimeSearch.Number.Binary64

namespace PrimeSearch

/-- Magnitude above which a power has no value. -/
def powerOperandLimit : Float := 1000000.0

/-- Power with the domain rules of the search: there is no value when an operand is above
the limit in magnitude, when the base is negative and the exponent is not integral, or
when the result is not finite. -/
def safePower (base exponent : Float) : Float :=
  let result := Float.pow base exponent
  if powerOperandLimit < base.abs || powerOperandLimit < exponent.abs ||
      (base < 0.0 && exponent != Binary64.floor exponent) || !result.isFinite then
    Binary64.nan
  else result

/-- Remainder with the sign of the dividend; a zero modulus leaves the value alone. -/
def truncatedMod (value modulus : Float) : Float :=
  if modulus != 0.0 then Binary64.remainder value modulus else value

/-- Radians in a degree. -/
def degree : Float := NamedConstant.pi.value / 180.0

/-- Value of a function. -/
def UnaryOp.apply : UnaryOp → Float → Float
  | .sin, v => v.sin
  | .cos, v => v.cos
  | .sind, v => (v * degree).sin
  | .cosd, v => (v * degree).cos
  | .sqrt, v => v.sqrt
  | .log, v => v.log
  | .abs, v => v.abs
  | .floor, v => Binary64.floor v
  | .ceil, v => Binary64.ceil v
  | .square, v => v * v
  | .cube, v => v * v * v

/-- Value of an operation. -/
def BinaryOp.apply : BinaryOp → Float → Float → Float
  | .add, a, b => a + b
  | .sub, a, b => a - b
  | .mul, a, b => a * b
  | .div, a, b => a / b
  | .mod, a, b => truncatedMod a b
  | .pow, a, b => safePower a b

/-- Numbers side by side.  A single one stands beside all others; longer lists have to be of
equal length. -/
def pairUp? : List Float → List Float → Option (List (Float × Float))
  | [a], bs => some (bs.map (a, ·))
  | as, [b] => some (as.map (·, b))
  | as, bs => if as.length = bs.length then some (as.zip bs) else none

/-- Operands of an operation in lists that do not go together. -/
structure Unpaired where
  operation : BinaryOp
  lefts : Nat
  rights : Nat
deriving Repr, DecidableEq

/-- Wording of the error. -/
def Unpaired.message (e : Unpaired) : String :=
  match e.operation with
  | .pow =>
      "shape mismatch: objects cannot be broadcast to a single shape.  " ++
        s!"Mismatch is between arg 0 with shape ({e.lefts},) and arg 1 with shape ({e.rights},)."
  | _ =>
      s!"operands could not be broadcast together with shapes ({e.lefts},) ({e.rights},) "

/-- Values of an operation on operands side by side. -/
def BinaryOp.applyAll (op : BinaryOp) (as bs : List Float) : Except Unpaired (List Float) :=
  match pairUp? as bs with
  | some pairs => .ok (pairs.map fun (a, b) => op.apply a b)
  | none => .error ⟨op, as.length, bs.length⟩

namespace Expr

/-- Value of an expression at `n`.  Out of its domain a function gives an infinite value
or none. -/
def eval : Expr → Float → Float
  | .const v, _ => v
  | .var, n => n
  | .mod child m, n => truncatedMod (child.eval n) m.toFloat
  | .unary op child, n => op.apply (child.eval n)
  | .binary op left right, n => op.apply (left.eval n) (right.eval n)

end Expr

end PrimeSearch
