/-
Module: PrimeSearch.Number.Decimal
Purpose: Decimal digits of doubles: the fewest that read back, a fixed number of
  significant ones, a fixed number of places.
Main exports: Decimal, Decimal.shortest, Decimal.significant, Decimal.places,
  roundForDisplay
-/
import PrimeSearch.Number.Binary64

namespace PrimeSearch

-- Powers are the core library's, whatever else is imported.
attribute [local instance (high)] instPowNat

open Binary64

/-!
A positive double is the quotient of two natural numbers, so every question about its
decimal digits is a question about natural numbers.  `shortest` asks, grid by grid,
whether one of the two multiples of a power of ten around the value lies among the
numbers that round to it.
-/

/-- A decimal number `coefficient * 10 ^ exponent`. -/
structure Decimal where
  coefficient : Nat
  exponent : Int
deriving Repr, DecidableEq

namespace Decimal

/-- `(num * 10 ^ k, den)` for a natural `k`, and `(num, den * 10 ^ -k)` for a negative. -/
def shift (num den : Nat) (k : Int) : Nat × Nat :=
  if 0 ≤ k then (num * 10 ^ k.toNat, den) else (num, den * 10 ^ (-k).toNat)

/-- Raise an exponent while the power of ten above it is still not above `num / den`. -/
def raise (num den : Nat) : Nat → Int → Int
  | 0, e => e
  | fuel + 1, e =>
      let (n, d) := shift num den (-(e + 1))
      if d ≤ n then raise num den fuel (e + 1) else e

/-- The exponent `e` with `10 ^ e ≤ num / den < 10 ^ (e + 1)`, for a positive quotient.
The binary logarithm gives it up to a few units, and `raise` closes the gap. -/
def leadingExponent (num den : Nat) : Int :=
  let binary : Int := (num.log2 : Int) - den.log2 - 1
  raise num den 4 (Int.fdiv (binary * 30103) 100000 - 2)

/-- The quotient rounded to a multiple of `10 ^ exponent`, a half to the even one. -/
def atExponent (num den : Nat) (exponent : Int) : Decimal :=
  let (n, d) := shift num den (-exponent)
  ⟨roundHalfEven n d, exponent⟩

/-- Drop the trailing zeros of a positive coefficient. -/
def trimZeros : Nat → Decimal → Decimal
  | 0, d => d
  | fuel + 1, ⟨c, e⟩ => if c % 10 = 0 then trimZeros fuel ⟨c / 10, e + 1⟩ else ⟨c, e⟩

/-- Magnitude of a finite double as a quotient of natural numbers. -/
def ratio (mantissa : Nat) (exponent : Int) : Nat × Nat :=
  if 0 ≤ exponent then (mantissa * 2 ^ exponent.toNat, 1) else (mantissa, 2 ^ (-exponent).toNat)

/-- The numbers that round to a positive double, in quarters of its unit in the last
place: lower end, value, upper end, and whether the ends belong. -/
structure Interval where
  low : Nat
  value : Nat
  high : Nat
  closed : Bool

/-- Interval around `mantissa * 2 ^ exponent`.  Below a power of two the neighbouring
double is twice as near. -/
def interval (mantissa : Nat) (exponent : Int) : Interval :=
  let gap := if mantissa = 2 ^ fractionBits ∧ minExponent < exponent then 1 else 2
  ⟨4 * mantissa - gap, 4 * mantissa, 4 * mantissa + 2, mantissa % 2 == 0⟩

/-- Whether a multiple `k` of the grid lies in the interval; `grid` and `unit` are the
grid step and the interval's unit over a common denominator. -/
def Interval.holds (i : Interval) (grid unit k : Nat) : Bool :=
  if i.closed then decide (i.low * unit ≤ k * grid) && decide (k * grid ≤ i.high * unit)
  else decide (i.low * unit < k * grid) && decide (k * grid < i.high * unit)

/-- The multiple of the grid that lies in the interval and is nearest to its value. -/
def Interval.pick (i : Interval) (grid unit : Nat) : Option Nat :=
  let below := i.value * unit / grid
  match i.holds grid unit below, i.holds grid unit (below + 1) with
  | false, false => none
  | true, false => some below
  | false, true => some (below + 1)
  | true, true =>
      let twice := 2 * (i.value * unit)
      let middle := (2 * below + 1) * grid
      if twice < middle then some below
      else if middle < twice then some (below + 1)
      else some (below + below % 2)

/-- Try the grids `10 ^ exponent`, `10 ^ (exponent - 1)`, … in turn. -/
def search (i : Interval) (exponent : Int) (power : Int) : Nat → Decimal
  | 0 => ⟨0, 0⟩
  | fuel + 1 =>
      let grid := (if 0 ≤ power then 10 ^ power.toNat else 1) *
        (if 0 ≤ exponent then 1 else 2 ^ (-exponent).toNat)
      let unit := (if 0 ≤ power then 1 else 10 ^ (-power).toNat) *
        (if 0 ≤ exponent then 2 ^ exponent.toNat else 1)
      match i.pick grid unit with
      | some k => ⟨k, power⟩
      | none => search i exponent (power - 1) fuel

/-- The decimal with fewest digits that rounds to `mantissa * 2 ^ exponent`, and of those
the nearest.  Seventeen digits always suffice; the tries beyond them are never used. -/
def shortest (mantissa : Nat) (exponent : Int) : Decimal :=
  if mantissa = 0 then ⟨0, 0⟩
  else
    let (num, den) := ratio mantissa exponent
    trimZeros 400
      (search (interval mantissa exponent) (exponent - 2) (leadingExponent num den) 20)

/-- The quotient rounded to `count` significant digits. -/
def significant (num den count : Nat) : Decimal :=
  if num = 0 then ⟨0, 0⟩
  else
    let step := leadingExponent num den - ((count : Int) - 1)
    trimZeros 400 (atExponent num den step)

/-- The quotient in units of `10 ^ -count`. -/
def places (num den count : Nat) : Nat := (atExponent num den (-(count : Int))).coefficient

/-- The double nearest to a decimal. -/
def toFloat (negative : Bool) (d : Decimal) : Float :=
  let (num, den) := shift d.coefficient 1 d.exponent
  ofRatio negative num den

/-- Decimal digits of a natural number, most significant first. -/
def digits (n : Nat) : List Char := Nat.toDigits 10 n

end Decimal

/-- A double rounded for display to `count` places when it is below one in magnitude,
and to `count` significant digits otherwise; zero loses its sign. -/
def roundForDisplay (count : Nat) (x : Float) : Float :=
  match decode x with
  | .finite negative mantissa exponent =>
      let (num, den) := Decimal.ratio mantissa exponent
      let rounded :=
        if num < den then Decimal.atExponent num den (-(count : Int))
        else Decimal.significant num den count
      if rounded.coefficient = 0 then 0.0 else rounded.toFloat negative
  | _ => x

end PrimeSearch
