/-
Module: PrimeSearch.Number.Quantity
Purpose: Numbers as a user gives them, whole, real or as a truth value, and their
  comparison with whole bounds.
Main exports: Quantity, Quantity.ofJson?, Quantity.toFloat, Quantity.text,
  Quantity.isBelow, Quantity.isShare, Quantity.ceiling, Count, Count.ofNat,
  Count.ofQuantity?
-/
import PrimeSearch.Json.Basic

namespace PrimeSearch

/-- A number that keeps the way it was given: `1` and `1.0` are told apart when shown, and
a truth value counts as one or zero. -/
inductive Quantity where
  | whole (value : Int)
  | real (value : Float)
  | truth (value : Bool)
deriving Inhabited

namespace Quantity

/-- The quantity that a value is, if it is one. -/
def ofJson? : Json → Option Quantity
  | .int n => some (.whole n)
  | .real x => some (.real x)
  | .bool b => some (.truth b)
  | _ => none

/-- A quantity as a structured value. -/
def toJson : Quantity → Json
  | .whole n => .int n
  | .real x => .real x
  | .truth b => .bool b

/-- The whole number that a quantity is, unless it is real. -/
def whole? : Quantity → Option Int
  | .whole n => some n
  | .real _ => none
  | .truth b => some b.toNat

/-- The double nearest to a quantity.  For a whole number beyond the doubles it is infinite;
where `isWithinDoubles` fails nothing can be computed with it. -/
def toFloat : Quantity → Float
  | .whole n => Binary64.ofInt n
  | .real x => x
  | .truth b => if b then 1.0 else 0.0

/-- Whether a quantity has a double to compute with: a whole number may be beyond all of
them. -/
def isWithinDoubles : Quantity → Bool
  | .whole n => (Binary64.ofInt? n).isSome
  | .real _ | .truth _ => true

/-- A quantity as it was given. -/
def text : Quantity → String
  | .whole n => Numeral.ofInt n
  | .real x => Numeral.shortest x
  | .truth b => if b then "True" else "False"

/-- Whether a quantity passes a test, which is given for whole and for real numbers. -/
def passes (q : Quantity) (whole : Int → Bool) (real : Float → Bool) : Bool :=
  match q with
  | .whole n => whole n
  | .real x => real x
  | .truth b => whole b.toNat

/-- Whether a quantity is smaller than a bound. -/
def isBelow (q : Quantity) (bound : Int) : Bool :=
  q.passes (fun n => decide (n < bound)) (fun x => decide (x < Binary64.ofInt bound))

/-- Whether a quantity is greater than a bound. -/
def isAbove (q : Quantity) (bound : Int) : Bool :=
  q.passes (fun n => decide (bound < n)) (fun x => decide (Binary64.ofInt bound < x))

/-- Whether a quantity is at most a bound. -/
def isAtMost (q : Quantity) (bound : Int) : Bool :=
  q.passes (fun n => decide (n ≤ bound)) (fun x => decide (x ≤ Binary64.ofInt bound))

/-- Whether a quantity is at least a bound. -/
def isAtLeast (q : Quantity) (bound : Int) : Bool :=
  q.passes (fun n => decide (bound ≤ n)) (fun x => decide (Binary64.ofInt bound ≤ x))

/-- Whether a quantity lies in the closed unit interval. -/
def isShare (q : Quantity) : Bool := q.isAtLeast 0 && q.isAtMost 1

/-- Least natural number that is not below a quantity, if that is finite. -/
def ceiling? : Quantity → Option Nat
  | .whole n => some n.toNat
  | .real x => (Binary64.truncate? (Binary64.ceil x)).map Int.toNat
  | .truth b => some b.toNat

/-- Least natural number that is not below a quantity; `otherwise` where the quantity is
not finite. -/
def ceiling (q : Quantity) (otherwise : Nat) : Nat := q.ceiling?.getD otherwise

/-- A quantity with its fraction dropped; `otherwise` where it is not finite. -/
def truncated (q : Quantity) (otherwise : Int) : Int :=
  match q with
  | .whole n => n
  | .real x => (Binary64.truncate? x).getD otherwise
  | .truth b => b.toNat

end Quantity

/-- A number of things, which is finite: the way it was given, and the least natural number
that is not below it.  Comparing a natural number with one or with the other comes to the
same. -/
structure Count (least : Nat) where
  given : Quantity
  value : Nat
  ceiling_eq : given.ceiling? = some value
  least_le : least ≤ value

namespace Count

/-- A number of things that is a natural number. -/
def ofNat {least : Nat} (n : Nat) (h : least ≤ n := by decide) : Count least :=
  ⟨.whole n, n, rfl, h⟩

/-- The number of things that a quantity asks for, unless that is not finite or too small. -/
def ofQuantity? {least : Nat} (q : Quantity) : Option (Count least) :=
  match ceiling_eq : q.ceiling? with
  | none => none
  | some n => if least_le : least ≤ n then some ⟨q, n, ceiling_eq, least_le⟩ else none

/-- Whether things can be counted out: a real number compares like any other, but nothing
is done that many times. -/
def isWhole {least : Nat} (c : Count least) : Bool := c.given.whole?.isSome

end Count

end PrimeSearch
