/-
Module: PrimeSearch.Expr.Random
Purpose: Random expressions and random places in an expression.
Main exports: Expr.randomLeaf, Expr.random, Expr.randomPath
-/
import PrimeSearch.Expr.Path
import PrimeSearch.Random.Source

namespace PrimeSearch.Expr

/-- A constant that is a whole number. -/
def ofInt (n : Int) : Expr := .const (Binary64.ofInt n)

/-- A random leaf: the variable four times in ten, a named constant twice, and one of the
numbers from 1 to 10 otherwise. -/
def randomLeaf : Draw Expr := do
  let r ← Draw.unit
  if r < 0.4 then
    return .var
  else if r < 0.6 then
    let name ← Draw.choose NamedConstant.all (by decide)
    return .const name.value
  else
    let n ← Draw.integer 1 10 (by decide)
    return ofInt n

/-- A random function. -/
def randomUnaryOp : Draw UnaryOp := Draw.choose UnaryOp.all (by decide)

/-- A random operation. -/
def randomBinaryOp : Draw BinaryOp := Draw.choose BinaryOp.all (by decide)

/-- A random modulus. -/
def randomModulus : Draw Modulus := do
  let i ← Draw.index (maxModulus - minModulus + 1) (by decide)
  return ⟨minModulus + i.val, by omega, by have := i.isLt; simp only [minModulus, maxModulus] at *; omega⟩

/-- A random expression with exactly the given number of operator levels above every
leaf. -/
def random : Nat → Draw Expr
  | 0 => randomLeaf
  | depth + 1 => do
      let r ← Draw.unit
      if r < 0.2 then
        let child ← random depth
        let modulus ← randomModulus
        return .mod child modulus
      else if r < 0.5 then
        let op ← randomUnaryOp
        let child ← random depth
        return .unary op child
      else
        let op ← randomBinaryOp
        let left ← random depth
        let right ← random depth
        return .binary op left right

/-- Whether a random descent stops at a node of the given size. -/
def stopsAt (size : Nat) : Draw Bool := Draw.below (1.0 / (UInt64.ofNat size).toFloat)

/-- A random node, found by descent: at each node the descent stops with one chance in
the size of the subtree, and otherwise goes on to one of the children. -/
def randomPath : Expr → Draw Path
  | .const _ | .var => return []
  | .mod child m => do
      let stop ← stopsAt (Expr.mod child m).size
      if stop then return []
      else
        let _ ← Draw.index 1 (by decide)
        let path ← child.randomPath
        return 0 :: path
  | .unary op child => do
      let stop ← stopsAt (Expr.unary op child).size
      if stop then return []
      else
        let _ ← Draw.index 1 (by decide)
        let path ← child.randomPath
        return 0 :: path
  | .binary op left right => do
      let stop ← stopsAt (Expr.binary op left right).size
      if stop then return []
      else
        let i ← Draw.index 2 (by decide)
        if i.val = 0 then
          let path ← left.randomPath
          return 0 :: path
        else
          let path ← right.randomPath
          return 1 :: path

end PrimeSearch.Expr
