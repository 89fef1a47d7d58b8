/-
Module: PrimeSearch.Number.Numeral
Purpose: The written forms of numbers: how doubles are printed and how text is read
  as a double.
Main exports: Style, Numeral.shortest, Numeral.fixed, Numeral.general, Numeral.read?,
  Numeral.readInteger?
-/
import PrimeSearch.Number.Decimal
import PrimeSearch.Text.Classes
import PrimeSearch.Text.Spelling

namespace PrimeSearch

-- Powers are the core library's, whatever else is imported.
attribute [local instance (high)] instPowNat

open Binary64

/-- How the digits of a number are laid out. -/
structure Style where
  /-- Least decimal exponent of the leading digit that is written positionally. -/
  leastPositional : Int
  /-- First decimal exponent of the leading digit that is written with a power of ten. -/
  firstScientific : Int
  /-- A positional integer ends in `.0`. -/
  marksIntegers : Bool
  /-- Least number of digits in a written power of ten. -/
  exponentWidth : Nat
deriving Repr, DecidableEq

namespace Numeral

/-- Results, constants and saved values: positional from `0.0001` up to below `10 ^ 16`,
integers marked by `.0`, powers of ten with a sign and two digits. -/
def exact : Style := ⟨-4, 16, true, 2⟩

/-- Tables of function values: positional below a million, no mark on integers. -/
def tabular : Style := ⟨-4, 6, false, 2⟩

/-- `width` characters at least, filled on the left. -/
def padLeft (fill : Char) (width : Nat) (text : String) : String :=
  String.ofList (List.replicate (width - characterCount text.toList) fill) ++ text

/-- `width` characters at least, filled on the right with blanks. -/
def padRight (width : Nat) (text : String) : String :=
  text ++ String.ofList (List.replicate (width - characterCount text.toList) ' ')

/-- Digits of a natural number as text. -/
def ofNat (n : Nat) : String := String.ofList (Decimal.digits n)

/-- An integer as text. -/
def ofInt (n : Int) : String := if n < 0 then "-" ++ ofNat n.natAbs else ofNat n.natAbs

/-- Write a power of ten with its sign. -/
def exponentText (style : Style) (e : Int) : String :=
  (if e < 0 then "e-" else "e+") ++ padLeft '0' style.exponentWidth (ofNat e.natAbs)

/-- Write a decimal in a style. -/
def layout (style : Style) (d : Decimal) : String :=
  let ds := if d.coefficient = 0 then ['0'] else Decimal.digits d.coefficient
  let leading : Int := d.exponent + ds.length - 1
  if d.coefficient = 0 then (if style.marksIntegers then "0.0" else "0")
  else if style.leastPositional ≤ leading ∧ leading < style.firstScientific then
    if 0 ≤ d.exponent then
      String.ofList (ds ++ List.replicate d.exponent.toNat '0') ++
        (if style.marksIntegers then ".0" else "")
    else if 0 ≤ leading then
      let whole := (leading + 1).toNat
      String.ofList (ds.take whole) ++ "." ++ String.ofList (ds.drop whole)
    else
      "0." ++ String.ofList (List.replicate (-leading - 1).toNat '0' ++ ds)
  else
    match ds with
    | first :: rest =>
        String.singleton first ++
          (if rest.isEmpty then "" else "." ++ String.ofList rest) ++
          exponentText style leading
    | [] => ""

/-- Write a double: a sign, then the digits that `render` gives for its magnitude. -/
def write (render : Nat → Int → String) (x : Float) : String :=
  match decode x with
  | .nan => "nan"
  | .infinite negative => if negative then "-inf" else "inf"
  | .finite negative mantissa exponent =>
      (if negative then "-" else "") ++ render mantissa exponent

/-- The fewest digits that read back. -/
def shortest (x : Float) : String :=
  write (fun m e => layout exact (Decimal.shortest m e)) x

/-- Digits of a natural number of units of `10 ^ -places`, with the point put in. -/
def pointed (units places : Nat) : String :=
  if places = 0 then ofNat units
  else
    ofNat (units / 10 ^ places) ++ "." ++ padLeft '0' places (ofNat (units % 10 ^ places))

/-- A fixed number of places after the point. -/
def fixed (places : Nat) (x : Float) : String :=
  write (fun m e =>
    let (num, den) := Decimal.ratio m e
    pointed (Decimal.places num den places) places) x

/-- At most `count` significant digits, trailing zeros dropped. -/
def general (count : Nat) (x : Float) : String :=
  write (fun m e =>
    let (num, den) := Decimal.ratio m e
    layout { tabular with firstScientific := count } (Decimal.significant num den count)) x

/-! ### Reading -/

/-- Decimal exponent beyond which every number is infinite, and below whose negative
every number is zero. -/
def exponentBound : Int := 400

/-- The double nearest to `coefficient * 10 ^ exponent`. -/
def ofScientific (negative : Bool) (coefficient : Nat) (exponent : Int) : Float :=
  if coefficient = 0 then ofMagnitude negative 0
  else
    let leading := exponent + (Decimal.digits coefficient).length
    if exponentBound < leading then ofMagnitude negative infinityBits
    else if leading < -exponentBound then ofMagnitude negative 0
    else Decimal.toFloat negative ⟨coefficient, exponent⟩

/-- Value of a list of decimal digits of any script. -/
def digitsValue (ds : List Char) : Nat :=
  ds.foldl (fun n c => 10 * n + (digitValue? c).getD 0) 0

/-- The digits at the front of a text, and what follows them. -/
def spanDigits (cs : List Char) : List Char × List Char := cs.span isDigit

/-- A sign at the front of a text, if there is one: whether it is a minus, and what
follows. -/
def spanSign : List Char → Bool × List Char
  | '-' :: rest => (true, rest)
  | '+' :: rest => (false, rest)
  | rest => (false, rest)

/-- A power of ten at the front of a text, if its marker is followed by digits. -/
def spanExponent : List Char → Option (Int × List Char)
  | marker :: rest =>
      if marker = 'e' ∨ marker = 'E' then
        let (negative, rest) := spanSign rest
        match spanDigits rest with
        | ([], _) => none
        | (ds, tail) =>
            let magnitude : Int := digitsValue ds
            some (if negative then -magnitude else magnitude, tail)
      else none
  | [] => none

/-- A point at the front of a text with the digits after it, if there is one: the digits, what
follows them, and whether there is a point. -/
def spanFraction : List Char → List Char × List Char × Bool
  | '.' :: tail => let (ds, tail) := spanDigits tail; (ds, tail, true)
  | tail => ([], tail, false)

/-- An unsigned number at the front of a text: digits with an optional point, or a point
followed by digits, then an optional power of ten. -/
def spanNumber (cs : List Char) : Option (Nat × Int × List Char) :=
  let (whole, rest) := spanDigits cs
  let (fraction, rest, hasPoint) := spanFraction rest
  if whole.isEmpty && (fraction.isEmpty || !hasPoint) then none
  else
    let coefficient := digitsValue (whole ++ fraction)
    match spanExponent rest with
    | some (e, tail) => some (coefficient, e - fraction.length, tail)
    | none => some (coefficient, -(fraction.length : Int), rest)

/-- The double that an unsigned literal stands for. -/
def ofLiteral (text : String) : Float :=
  match spanNumber text.toList with
  | some (coefficient, exponent, _) => ofScientific false coefficient exponent
  | none => nan

/-- Drop the underscores that stand between two digits; `none` if one stands elsewhere. -/
def dropUnderscores : Bool → List Char → Option (List Char)
  | _, [] => some []
  | afterDigit, '_' :: rest =>
      match rest with
      | next :: _ => if afterDigit && isDigit next then dropUnderscores false rest else none
      | [] => none
  | _, c :: rest => (dropUnderscores (isDigit c) rest).map (c :: ·)

/-- Read the text of a number as users write it: blanks around it are ignored, a sign,
underscores between digits and the names of the non-finite values are allowed. -/
def read? (text : String) : Option Float :=
  let (negative, rest) := spanSign (trimMargins text.toList)
  match dropUnderscores false rest with
  | none => none
  | some cs =>
      let word := String.ofList (cs.map Char.toLower)
      if word = "inf" ∨ word = "infinity" then some (ofMagnitude negative infinityBits)
      else if word = "nan" then some nan
      else
        match spanNumber cs with
        | some (coefficient, exponent, []) => some (ofScientific negative coefficient exponent)
        | _ => none

/-- Most digits that a text may have to be read as a whole number. -/
def digitLimit : Nat := 4300

/-- Read the text of a whole number as users write it: blanks around it are ignored, a sign
and underscores between digits are allowed. -/
def readInteger? (text : String) : Option Int :=
  let (negative, rest) := spanSign (trimMargins text.toList)
  match dropUnderscores false rest with
  | none => none
  | some ds =>
      if !ds.isEmpty && ds.all isDigit && ds.length ≤ digitLimit then
        let magnitude : Int := digitsValue ds
        some (if negative then -magnitude else magnitude)
      else none

end Numeral

end PrimeSearch
