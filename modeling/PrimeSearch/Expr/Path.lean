/-
Module: PrimeSearch.Expr.Path
Purpose: Addressing and replacing subexpressions.
Main exports: Path, Expr.withChildren, Expr.positions, Expr.get?, Expr.replace?,
  Expr.replaceMatching
-/
import PrimeSearch.Expr.Basic

namespace PrimeSearch

/-- Child indices from the root down to a node.  A negative index counts from the last
child. -/
abbrev Path := List Int

/-- A node given the wrong number of children. -/
structure ArityMismatch where
  expected : Nat
  given : Nat
deriving Repr, DecidableEq

/-- Wording of an arity mismatch. -/
def ArityMismatch.message (e : ArityMismatch) : String :=
  if e.given < e.expected then
    s!"not enough values to unpack (expected {e.expected}, got {e.given})"
  else s!"too many values to unpack (expected {e.expected})"

namespace Expr

/-- The same node with other children.  A leaf stays as it is. -/
def withChildren : Expr → List Expr → Except ArityMismatch Expr
  | .const v, _ => .ok (.const v)
  | .var, _ => .ok .var
  | .mod _ m, [child] => .ok (.mod child m)
  | .unary op _, [child] => .ok (.unary op child)
  | .binary op _ _, [left, right] => .ok (.binary op left right)
  | .mod _ _, given | .unary _ _, given => .error ⟨1, given.length⟩
  | .binary _ _ _, given => .error ⟨2, given.length⟩

/-- The place among `count` children that an index names. -/
def place? (count : Nat) (i : Int) : Option Nat :=
  if 0 ≤ i ∧ i < count then some i.toNat
  else if -(count : Int) ≤ i ∧ i < 0 then some (i + count).toNat
  else none

/-- The child that an index names. -/
def child? (t : Expr) (i : Int) : Option Expr :=
  (place? t.children.length i).bind (t.children[·]?)

/-- All nodes with their paths, every node before its children and left before right.
The given path leads to the root. -/
def positionsFrom (path : Path) : Expr → List (Path × Expr)
  | .const v => [(path, .const v)]
  | .var => [(path, .var)]
  | .mod child m => (path, .mod child m) :: child.positionsFrom (path ++ [0])
  | .unary op child => (path, .unary op child) :: child.positionsFrom (path ++ [0])
  | .binary op left right =>
      (path, .binary op left right) ::
        (left.positionsFrom (path ++ [0]) ++ right.positionsFrom (path ++ [1]))

/-- All nodes with their paths from the root. -/
def positions (t : Expr) : List (Path × Expr) := t.positionsFrom []

theorem positionsFrom_length (t : Expr) (path : Path) :
    (t.positionsFrom path).length = t.size := by
  induction t generalizing path with
  | const | var => rfl
  | mod child m ih => simp [positionsFrom, size, ih]; omega
  | unary op child ih => simp [positionsFrom, size, ih]; omega
  | binary op left right ihl ihr => simp [positionsFrom, size, ihl, ihr]; omega

theorem size_pos (t : Expr) : 0 < t.size := by
  cases t <;> simp only [size] <;> omega

theorem positions_length_pos (t : Expr) : 0 < t.positions.length := by
  rw [positions, positionsFrom_length]
  exact t.size_pos

/-- The node at the end of a path. -/
def get? (t : Expr) : Path → Option Expr
  | [] => some t
  | i :: rest => (t.child? i).bind (·.get? rest)

/-- The expression with the node at the end of a path replaced. -/
def replace? (t : Expr) (path : Path) (replacement : Expr) : Option Expr :=
  match path with
  | [] => some replacement
  | i :: rest => do
      let k ← place? t.children.length i
      let child ← t.children[k]?
      let child ← child.replace? rest replacement
      (t.withChildren (t.children.set k child)).toOption

/-- Replace a node where the path leads to one; otherwise change nothing. -/
def replaceAt (t : Expr) (path : Path) (replacement : Expr) : Expr :=
  (t.replace? path replacement).getD t

/-- Replace every subexpression that agrees with a target; what is put in is not searched
again. -/
def replaceMatching (t target replacement : Expr) : Expr :=
  if t.agrees target then replacement
  else
    match t with
    | .const v => .const v
    | .var => .var
    | .mod child m => .mod (child.replaceMatching target replacement) m
    | .unary op child => .unary op (child.replaceMatching target replacement)
    | .binary op left right =>
        .binary op (left.replaceMatching target replacement)
          (right.replaceMatching target replacement)

end Expr

end PrimeSearch
