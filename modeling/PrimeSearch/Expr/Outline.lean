/-
Module: PrimeSearch.Expr.Outline
Purpose: Expressions laid out as nested lists instead of written text.
Main exports: OutlineError, Expr.ofOutline, Expr.outline
-/
import PrimeSearch.Expr.Parser
import PrimeSearch.Json.Misfit
import PrimeSearch.Json.Writer

namespace PrimeSearch

/-!
An outline is a list that begins with the kind of a node and goes on with its parts, such as
`["mod", ["n"], 7]`.  A written expression may stand for any part.  Parts are made before the
node that holds them, left to right, so of several errors the first of these is met.
-/

/-- Why an outline gives no expression. -/
inductive OutlineError where
  | malformed (error : ParseError)
  | modulusOutOfRange (given : Quantity)
  | unknownFunction (given : Json)
  | unknownOperation (given : Json)
  | misfit (error : Misfit)

/-- Wording of the error. -/
def OutlineError.message : OutlineError → String
  | .malformed error => error.message
  | .modulusOutOfRange given =>
      s!"modulus must be in [{minModulus}, {maxModulus}], got " ++ given.text
  | .unknownFunction given => "Unknown unary operator: " ++ given.literal
  | .unknownOperation given => "Unknown binary operator: " ++ given.literal
  | .misfit error => error.message

namespace Expr

/-- A subexpression reduced modulo a number, whose fraction is dropped. -/
def reduce (child : Expr) (given : Json) : Except OutlineError Expr := do
  let q ← (given.rightOf "<=").mapError .misfit
  if q.isAtLeast minModulus && q.isAtMost maxModulus then
    match Modulus.ofInt? (q.truncated 0) with
    | some m => return .mod child m
    | none => throw (.modulusOutOfRange q)
  else throw (.modulusOutOfRange q)

/-- The function of a name applied to a subexpression. -/
def call (name : Json) (child : Expr) : Except OutlineError Expr :=
  match name with
  | .str text =>
      match UnaryOp.ofName? text with
      | some op => .ok (.unary op child)
      | none => .error (.unknownFunction name)
  | _ => .error (.unknownFunction name)

/-- The operation of a name on two subexpressions. -/
def combine (name : Json) (left right : Expr) : Except OutlineError Expr :=
  match name with
  | .str text =>
      match BinaryOp.ofName? text with
      | some op => .ok (.binary op left right)
      | none => .error (.unknownOperation name)
  | _ => .error (.unknownOperation name)

/-- The expression of an outline.  A list that is no outline of anything else stands for the
variable. -/
def ofOutline : Json → Except OutlineError Expr
  | .str text => (Expr.parse text).mapError .malformed
  | .arr [.str "const", value] => (value.number.map .const).mapError .misfit
  | .arr [.str "mod", child, modulus] => do (← ofOutline child).reduce modulus
  | .arr [.str "unary", name, child] => do call name (← ofOutline child)
  | .arr [.str "binary", name, left, right] => do
      let l ← ofOutline left
      combine name l (← ofOutline right)
  | _ => .ok .var

/-- The outline of an expression. -/
def outline : Expr → Json
  | .const v => .arr [.str "const", .real v]
  | .var => .arr [.str "n"]
  | .mod child m => .arr [.str "mod", child.outline, .int m.val]
  | .unary op child => .arr [.str "unary", .str op.name, child.outline]
  | .binary op left right => .arr [.str "binary", .str op.name, left.outline, right.outline]

end Expr

end PrimeSearch
