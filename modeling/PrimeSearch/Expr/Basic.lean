/-
Module: PrimeSearch.Expr.Basic
Purpose: Expression trees of one integer variable, their operators and their measures.
Main exports: UnaryOp, BinaryOp, NamedConstant, Modulus, Expr, Expr.size, Expr.depth,
  Expr.agrees
-/

namespace PrimeSearch

/-- Functions of one argument.  `sind` and `cosd` take degrees. -/
inductive UnaryOp where
  | sin | cos | sind | cosd | sqrt | log | abs | floor | ceil | square | cube
deriving Repr, DecidableEq, Inhabited

/-- Operations on two arguments. -/
inductive BinaryOp where
  | add | sub | mul | div | mod | pow
deriving Repr, DecidableEq, Inhabited

/-- Constants that have a name of their own. -/
inductive NamedConstant where
  | pi | e | sqrt2 | phi
deriving Repr, DecidableEq, Inhabited

namespace UnaryOp

/-- All functions, in the order from which random ones are chosen. -/
def all : List UnaryOp :=
  [.sin, .cos, .sind, .cosd, .sqrt, .log, .abs, .floor, .ceil, .square, .cube]

/-- Name of a function. -/
def name : UnaryOp → String
  | .sin => "sin"
  | .cos => "cos"
  | .sind => "sind"
  | .cosd => "cosd"
  | .sqrt => "sqrt"
  | .log => "log"
  | .abs => "abs"
  | .floor => "floor"
  | .ceil => "ceil"
  | .square => "square"
  | .cube => "cube"

/-- The function of a given name. -/
def ofName? (text : String) : Option UnaryOp := all.find? (·.name = text)

end UnaryOp

namespace BinaryOp

/-- All operations, in the order from which random ones are chosen. -/
def all : List BinaryOp := [.add, .sub, .mul, .div, .mod, .pow]

/-- Name of an operation. -/
def name : BinaryOp → String
  | .add => "+"
  | .sub => "-"
  | .mul => "*"
  | .div => "/"
  | .mod => "mod"
  | .pow => "^"

/-- Sign between the operands in written text. -/
def sign : BinaryOp → String
  | .mod => "%"
  | op => op.name

/-- The operation of a given name. -/
def ofName? (text : String) : Option BinaryOp := all.find? (·.name = text)

end BinaryOp

namespace NamedConstant

/-- All named constants, in the order in which a value is compared with them. -/
def all : List NamedConstant := [.pi, .e, .sqrt2, .phi]

/-- Name of a constant. -/
def name : NamedConstant → String
  | .pi => "pi"
  | .e => "e"
  | .sqrt2 => "sqrt2"
  | .phi => "phi"

/-- Value of a constant. -/
def value : NamedConstant → Float
  | .pi => 3.141592653589793
  | .e => 2.718281828459045
  | .sqrt2 => 1.4142135623730951
  | .phi => 1.618033988749895

/-- The constant of a given name. -/
def ofName? (text : String) : Option NamedConstant := all.find? (·.name = text)

/-- The constant of a given value. -/
def ofValue? (x : Float) : Option NamedConstant := all.find? (x == ·.value)

end NamedConstant

/-- Least modulus of a reduction node. -/
def minModulus : Nat := 2

/-- Greatest modulus of a reduction node. -/
def maxModulus : Nat := 101

/-- Modulus of a reduction node. -/
structure Modulus where
  val : Nat
  min_le : minModulus ≤ val := by decide
  le_max : val ≤ maxModulus := by decide
deriving DecidableEq

namespace Modulus

/-- A modulus within bounds. -/
def ofInt? (m : Int) : Option Modulus :=
  if h : (minModulus : Int) ≤ m ∧ m ≤ maxModulus then
    some ⟨m.toNat, by omega, by omega⟩
  else none

/-- The modulus nearest to a number. -/
def clamp (m : Int) : Modulus :=
  ⟨min maxModulus (max minModulus m.toNat),
    by simp only [minModulus, maxModulus]; omega, by omega⟩

/-- A modulus as a number. -/
def toFloat (m : Modulus) : Float := (UInt64.ofNat m.val).toFloat

end Modulus

/-- An expression of one integer variable. -/
inductive Expr where
  /-- A number. -/
  | const (value : Float)
  /-- The variable. -/
  | var
  /-- A subexpression reduced modulo a small integer. -/
  | mod (child : Expr) (modulus : Modulus)
  /-- A function applied to a subexpression. -/
  | unary (op : UnaryOp) (child : Expr)
  /-- An operation on two subexpressions. -/
  | binary (op : BinaryOp) (left right : Expr)
deriving DecidableEq

instance : Inhabited Expr := ⟨.var⟩

namespace Expr

/-- Direct subexpressions, left to right. -/
def children : Expr → List Expr
  | .const _ | .var => []
  | .mod child _ | .unary _ child => [child]
  | .binary _ left right => [left, right]

/-- Number of nodes. -/
def size : Expr → Nat
  | .const _ | .var => 1
  | .mod child _ | .unary _ child => 1 + child.size
  | .binary _ left right => 1 + (left.size + right.size)

/-- Number of nodes on the longest path from the root to a leaf. -/
def depth : Expr → Nat
  | .const _ | .var => 1
  | .mod child _ | .unary _ child => 1 + child.depth
  | .binary _ left right => 1 + max left.depth right.depth

/-- Same shape, same operators and moduli, and constants equal as numbers. -/
def agrees : Expr → Expr → Bool
  | .const a, .const b => a == b
  | .var, .var => true
  | .mod a m, .mod b k => a.agrees b && m == k
  | .unary op a, .unary op' b => op == op' && a.agrees b
  | .binary op a b, .binary op' c d => op == op' && a.agrees c && b.agrees d
  | _, _ => false

/-- What the written form of an expression denotes: a reduction node is written with the
remainder sign and becomes the operation with a constant on the right. -/
def lower : Expr → Expr
  | .const v => .const v
  | .var => .var
  | .mod child m => .binary .mod child.lower (.const m.toFloat)
  | .unary op child => .unary op child.lower
  | .binary op left right => .binary op left.lower right.lower

end Expr

end PrimeSearch
