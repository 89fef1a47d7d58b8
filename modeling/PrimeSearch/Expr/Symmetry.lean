/-
Module: PrimeSearch.Expr.Symmetry
Purpose: Related coordinate functions: trigonometric exchanges, phase shifts, negatives
  and reciprocals.
Main exports: Trig, Transform, Transform.all, Transform.convert, Transform.apply,
  SymmetricPair
-/
import PrimeSearch.Expr.Random

namespace PrimeSearch

/-- The trigonometric functions. -/
inductive Trig where
  | sin | cos | sind | cosd
deriving Repr, DecidableEq, Inhabited

namespace Trig

/-- All trigonometric functions in the order of the transforms. -/
def all : List Trig := [.sin, .cos, .sind, .cosd]

/-- As a function of expressions. -/
def toUnaryOp : Trig → UnaryOp
  | .sin => .sin
  | .cos => .cos
  | .sind => .sind
  | .cosd => .cosd

/-- The function a quarter period away. -/
def partner : Trig → Trig
  | .sin => .cos
  | .cos => .sin
  | .sind => .cosd
  | .cosd => .sind

/-- A quarter period in the unit of the argument. -/
def quarterPeriod : Trig → Float
  | .sin | .cos => 1.5707963267948966
  | .sind | .cosd => 90.0

/-- Name of the function. -/
def name (t : Trig) : String := t.toUnaryOp.name

end Trig

/-- The kinds of transforms. -/
inductive TransformKind where
  | exchange | shift | negation | reciprocal
deriving Repr, DecidableEq, Inhabited

/-- A rule that takes a trigonometric node to a related one. -/
structure Transform where
  kind : TransformKind
  source : Trig
deriving Repr, DecidableEq, Inhabited

namespace Transform

/-- All transforms: each kind for every function. -/
def all : List Transform :=
  [.exchange, .shift, .negation, .reciprocal].flatMap fun kind =>
    Trig.all.map fun source => ⟨kind, source⟩

/-- Function of the converted node. -/
def target (t : Transform) : Trig :=
  match t.kind with
  | .exchange => t.source.partner
  | _ => t.source

/-- What is added to the argument of the converted node. -/
def phase (t : Transform) : Float :=
  match t.kind with
  | .shift => t.source.quarterPeriod
  | _ => 0.0

/-- Name of a transform. -/
def name (t : Transform) : String :=
  match t.kind with
  | .exchange => t.source.name ++ "->" ++ t.source.partner.name
  | .shift => t.source.name ++ "+phase"
  | .negation => "-" ++ t.source.name
  | .reciprocal => "1/" ++ t.source.name

/-- The negative of an expression. -/
def negative (t : Expr) : Expr := .binary .mul (.const (-1.0)) t

/-- The reciprocal of an expression. -/
def inverse (t : Expr) : Expr := .binary .div (.const 1.0) t

/-- Convert a node of the source function with the given argument. -/
def convert (t : Transform) (argument : Expr) : Expr :=
  match t.kind with
  | .exchange => .unary t.target.toUnaryOp argument
  | .shift => .unary t.target.toUnaryOp (.binary .add argument (.const t.phase))
  | .negation => negative (.unary t.target.toUnaryOp argument)
  | .reciprocal => inverse (.unary t.target.toUnaryOp argument)

/-- Convert every node of the source function, innermost first. -/
def convertAll (t : Transform) : Expr → Expr
  | .const v => .const v
  | .var => .var
  | .mod child m => .mod (t.convertAll child) m
  | .unary op child =>
      let child := t.convertAll child
      if op = t.source.toUnaryOp then t.convert child else .unary op child
  | .binary op left right => .binary op (t.convertAll left) (t.convertAll right)

/-- Derive a related function.  Exchanges and shifts act on every node of the source
function, negation and reciprocal on the whole expression. -/
def apply (t : Transform) (e : Expr) : Expr :=
  match t.kind with
  | .exchange | .shift => t.convertAll e
  | .negation => negative e
  | .reciprocal => inverse e

/-- A random transform. -/
def random : Draw Transform := Draw.choose all (by decide)

/-- Whether a node is of the source function. -/
def matchesNode (t : Transform) : Expr → Bool
  | .unary op _ => op == t.source.toUnaryOp
  | _ => false

/-- Nodes of the source function, with their paths. -/
def matching (t : Transform) (e : Expr) : List (Path × Expr) :=
  e.positions.filter fun (_, node) => t.matchesNode node

/-- Convert a node at a path. -/
def convertAt (t : Transform) (e : Expr) (path : Path) (node : Expr) : Expr :=
  match node with
  | .unary _ argument => e.replaceAt path (t.convert argument)
  | _ => e

/-- Convert one random node among some; without any, nothing changes. -/
def convertOne (t : Transform) (e : Expr) (nodes : List (Path × Expr)) : Draw Expr :=
  match nodes with
  | [] => return e
  | first :: rest => do
      let (path, node) ← Draw.choose (first :: rest) (by simp)
      return t.convertAt e path node

end Transform

/-- Two coordinate functions and the transform that relates them. -/
structure SymmetricPair where
  f : Expr
  g : Expr
  transform : Transform

namespace SymmetricPair

/-- An expression and its image under a random transform. -/
def derive (base : Expr) : Draw SymmetricPair := do
  let t ← Transform.random
  return ⟨base, t.apply base, t⟩

/-- Operator levels of a fresh pair's base. -/
def freshDepth : Nat := 2

/-- A fresh pair: a node of the source function of a random transform over a random base,
and that node converted. -/
def fresh (depth : Nat) : Draw SymmetricPair := do
  let t ← Transform.random
  let base ← Expr.random depth
  return ⟨.unary t.source.toUnaryOp base, t.convert base, t⟩

/-- Convert one node of the source function of a random transform in each of two functions
that has one; if neither has, start afresh. -/
def mutate (f g : Expr) : Draw SymmetricPair := do
  let t ← Transform.random
  let inF := t.matching f
  let inG := t.matching g
  if inF.isEmpty && inG.isEmpty then fresh freshDepth
  else
    let f ← t.convertOne f inF
    let g ← t.convertOne g inG
    return ⟨f, g, t⟩

end SymmetricPair

end PrimeSearch
