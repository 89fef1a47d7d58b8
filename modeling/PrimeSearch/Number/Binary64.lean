/-
Module: PrimeSearch.Number.Binary64
Purpose: Exact reading and writing of double-precision numbers, and the operations on
  them that need their exact value: rounding to an integer and the truncated remainder.
Main exports: Value, decode, ofRatio, ofInt?, floor, ceil, truncate?, nearestInt?,
  remainder
-/

namespace PrimeSearch

-- Powers are the core library's, whatever else is imported.
attribute [local instance (high)] instPowNat

/-!
A double is decoded into a sign, a mantissa and a power of two.  Everything below that
needs to know what number a double stands for goes through `decode`, works in `Nat` and
`Int`, and comes back through `ofRatio`, which rounds a quotient to the nearest double.
-/

namespace Binary64

/-- What a double stands for.  A finite one is `mantissa * 2 ^ exponent` with a sign;
zero keeps its sign. -/
inductive Value where
  | nan
  | infinite (negative : Bool)
  | finite (negative : Bool) (mantissa : Nat) (exponent : Int)
deriving Repr, DecidableEq

/-- The least exponent of a finite double's mantissa. -/
def minExponent : Int := -1074

/-- Number of bits stored for the mantissa. -/
def fractionBits : Nat := 52

/-- Decode a double from its bit pattern. -/
def decode (x : Float) : Value :=
  let bits := x.toBits.toNat
  let negative := decide (2 ^ (63 : Nat) ≤ bits)
  let biased : Nat := bits / 2 ^ fractionBits % 2 ^ (11 : Nat)
  let fraction := bits % 2 ^ fractionBits
  if biased = 2 ^ (11 : Nat) - 1 then
    if fraction = 0 then .infinite negative else .nan
  else if biased = 0 then
    .finite negative fraction minExponent
  else
    .finite negative (fraction + 2 ^ fractionBits) ((Int.ofNat biased) - 1075)

/-- The double with a given sign and magnitude bits. -/
def ofMagnitude (negative : Bool) (magnitude : Nat) : Float :=
  Float.ofBits (UInt64.ofNat (magnitude + if negative then 2 ^ (63 : Nat) else 0))

/-- Bit pattern of positive infinity. -/
def infinityBits : Nat := 2047 * 2 ^ fractionBits

/-- Positive infinity. -/
def infinity : Float := ofMagnitude false infinityBits

/-- The quiet not-a-number. -/
def nan : Float := ofMagnitude false (infinityBits + 2 ^ (51 : Nat))

/-- The natural number nearest to `num / den`; a half goes to the even neighbour. -/
def roundHalfEven (num den : Nat) : Nat :=
  let quotient := num / den
  let rest := num % den
  if 2 * rest < den then quotient
  else if 2 * rest = den then quotient + quotient % 2
  else quotient + 1

/-- `num / den / 2 ^ exponent` as a quotient of natural numbers. -/
def scaleByPower (num den : Nat) (exponent : Int) : Nat × Nat :=
  if 0 ≤ exponent then (num, den * 2 ^ exponent.toNat)
  else (num * 2 ^ (-exponent).toNat, den)

/-- Exponent at which the mantissa of `num / den` has 53 bits, raised to the least
exponent a double has. -/
def targetExponent (num den : Nat) : Int :=
  let guess : Int := (num.log2 : Int) - den.log2 - fractionBits
  let (n, d) := scaleByPower num den guess
  max minExponent (if n / d < 2 ^ fractionBits then guess - 1 else guess)

/-- Magnitude bits of the double nearest to `num / den`, ties to the even mantissa.
A quotient beyond the largest double gives infinity. -/
def magnitudeOfRatio (num den : Nat) : Nat :=
  if num = 0 then 0
  else
    let exponent := targetExponent num den
    let (n, d) := scaleByPower num den exponent
    min infinityBits ((exponent - minExponent).toNat * 2 ^ fractionBits + roundHalfEven n d)

/-- The double nearest to `± num / den`. -/
def ofRatio (negative : Bool) (num den : Nat) : Float :=
  ofMagnitude negative (magnitudeOfRatio num den)

/-- The double nearest to `± mantissa * 2 ^ exponent`. -/
def ofScaled (negative : Bool) (mantissa : Nat) (exponent : Int) : Float :=
  if 0 ≤ exponent then ofRatio negative (mantissa * 2 ^ exponent.toNat) 1
  else ofRatio negative mantissa (2 ^ (-exponent).toNat)

/-- The double nearest to an integer, infinite beyond the range. -/
def ofInt (n : Int) : Float := ofRatio (decide (n < 0)) n.natAbs 1

/-- The double nearest to an integer, or `none` when it lies beyond the range. -/
def ofInt? (n : Int) : Option Float :=
  if magnitudeOfRatio n.natAbs 1 < infinityBits then some (ofInt n) else none

/-- Whether the sign bit is set. -/
def isNegative (x : Float) : Bool := decide (2 ^ (63 : Nat) ≤ x.toBits.toNat)

/-- Largest integer not above a finite double. -/
def floorInt? (x : Float) : Option Int :=
  match decode x with
  | .finite negative mantissa exponent =>
      let magnitude : Int := mantissa
      let signed := if negative then -magnitude else magnitude
      some (if 0 ≤ exponent then signed * 2 ^ exponent.toNat
            else Int.fdiv signed (2 ^ (-exponent).toNat))
  | _ => none

/-- A finite double with its fraction dropped. -/
def truncate? (x : Float) : Option Int :=
  match decode x with
  | .finite negative mantissa exponent =>
      let magnitude :=
        if 0 ≤ exponent then mantissa * 2 ^ exponent.toNat
        else mantissa / 2 ^ (-exponent).toNat
      some (if negative then -(magnitude : Int) else magnitude)
  | _ => none

/-- Whether a double is finite and has no fraction. -/
def isInteger (x : Float) : Bool :=
  match decode x with
  | .finite _ mantissa exponent =>
      decide (0 ≤ exponent) || mantissa % 2 ^ (-exponent).toNat == 0
  | _ => false

/-- Greatest integral double not above `x`; whatever is integral, infinite or not a
number stays as it is, signed zero included. -/
def floor (x : Float) : Float :=
  match decode x with
  | .finite negative mantissa exponent =>
      if 0 ≤ exponent then x
      else
        let unit := 2 ^ (-exponent).toNat
        if mantissa % unit = 0 then x
        else ofRatio negative (mantissa / unit + if negative then 1 else 0) 1
  | _ => x

/-- Least integral double not below `x`, with the same exceptions as `floor`; between
minus one and zero the result is negative zero. -/
def ceil (x : Float) : Float :=
  match decode x with
  | .finite negative mantissa exponent =>
      if 0 ≤ exponent then x
      else
        let unit := 2 ^ (-exponent).toNat
        if mantissa % unit = 0 then x
        else ofRatio negative (mantissa / unit + if negative then 0 else 1) 1
  | _ => x

/-- The integer nearest to a finite double, a half going to the even neighbour. -/
def nearestInt? (x : Float) : Option Int :=
  match decode x with
  | .finite negative mantissa exponent =>
      let magnitude :=
        if 0 ≤ exponent then mantissa * 2 ^ exponent.toNat
        else roundHalfEven mantissa (2 ^ (-exponent).toNat)
      some (if negative then -(magnitude : Int) else magnitude)
  | _ => none

/-- Exact remainder of `x` by `y` with the sign of `x`.  An infinite `x` or a zero `y`
has none; an infinite `y` leaves `x` alone. -/
def remainder (x y : Float) : Float :=
  match decode x, decode y with
  | .finite negative mantissa exponent, .finite _ divisor power =>
      if divisor = 0 then nan
      else if mantissa = 0 then x
      else
        let low := min exponent power
        let rest := mantissa * 2 ^ (exponent - low).toNat % (divisor * 2 ^ (power - low).toNat)
        ofScaled negative rest low
  | .finite .., .infinite _ => x
  | _, _ => nan

end Binary64

end PrimeSearch
