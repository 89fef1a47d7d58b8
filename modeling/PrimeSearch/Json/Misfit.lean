/-
Module: PrimeSearch.Json.Misfit
Purpose: Values of a kind that an operation cannot work on.
Main exports: Misfit, Misfit.message, Misfit.Concern, Json.isBelow, Json.isAtMost,
  Json.number, Json.integer, Json.index
-/
import PrimeSearch.Number.Quantity
import PrimeSearch.Text.Quoted

namespace PrimeSearch

/-!
Requests are made of structured values, and nothing keeps a user from giving a text where a
number is needed.  Each operation says what it makes of such a value; what it cannot make
anything of is a misfit.
-/

/-- A value that does not fit its use.  Kinds are named as by `Json.typeName`. -/
inductive Misfit where
  /-- A comparison of two kinds that have no order. -/
  | unordered (symbol left right : String)
  /-- A place in a list that is no whole number. -/
  | notAPlace
  /-- A number of repetitions that is not whole. -/
  | notCountable (kind : String)
  /-- A length that is not whole. -/
  | notALength
  /-- A length beyond the range of lengths. -/
  | tooLong
  /-- A table whose length is beyond the range of lengths. -/
  | tableTooLong
  /-- Numbers in a row, more of them than can be counted. -/
  | tooMany
  /-- Numbers in a row that take more bytes than can be counted. -/
  | tooManyBytes
  | noMember (kind member : String)
  | notNumeric (kind : String)
  | unreadableNumber (text : String)
  /-- A whole number beyond the range of doubles. -/
  | numberTooLarge
  | notIntegral (kind : String)
  | unreadableInteger (text : String)
  | nanToInteger
  | infinityToInteger
  /-- Addition of a list and a number. -/
  | notAddable
  | notAPath (kind : String)
  /-- Something that no path goes on by. -/
  | notJoinable (kind : String)
  | notIterable (kind : String)
  | notHashable (kind : String)
  /-- A member of a list that is no pair, by its place. -/
  | notAPair (place length : Nat)
  | notASequence (place : Nat)
deriving Repr, DecidableEq

namespace Misfit

/-- Wording of a misfit. -/
def message : Misfit → String
  | .unordered symbol left right =>
      "'" ++ symbol ++ "' not supported between instances of '" ++ left ++ "' and '" ++
        right ++ "'"
  | .notAPlace => "slice indices must be integers or None or have an __index__ method"
  | .notCountable kind => "'" ++ kind ++ "' object cannot be interpreted as an integer"
  | .notALength => "an integer is required"
  | .tooLong => "length out of range"
  | .tableTooLong => "Maximum allowed dimension exceeded"
  | .tooMany => "Maximum allowed size exceeded"
  | .tooManyBytes =>
      "array is too big; `arr.size * arr.dtype.itemsize` is larger than the maximum possible size."
  | .noMember kind member => "'" ++ kind ++ "' object has no attribute '" ++ member ++ "'"
  | .notNumeric kind =>
      "float() argument must be a string or a real number, not '" ++ kind ++ "'"
  | .unreadableNumber text => "could not convert string to float: " ++ quoted text
  | .numberTooLarge => "int too large to convert to float"
  | .notIntegral kind =>
      "int() argument must be a string, a bytes-like object or a real number, not '" ++
        kind ++ "'"
  | .unreadableInteger text => "invalid literal for int() with base 10: " ++ quoted text
  | .nanToInteger => "cannot convert float NaN to integer"
  | .infinityToInteger => "cannot convert float infinity to integer"
  | .notAddable => "can only concatenate list (not \"int\") to list"
  | .notAPath kind => "expected str, bytes or os.PathLike object, not " ++ kind
  | .notJoinable kind => "unsupported operand type(s) for /: 'PosixPath' and '" ++ kind ++ "'"
  | .notIterable kind => "'" ++ kind ++ "' object is not iterable"
  | .notHashable kind => "unhashable type: '" ++ kind ++ "'"
  | .notAPair place length =>
      s!"dictionary update sequence element #{place} has length {length}; 2 is required"
  | .notASequence place =>
      s!"cannot convert dictionary update sequence element #{place} to a sequence"

/-- What a misfit is about. -/
inductive Concern where
  /-- The kind of a value. -/
  | kind
  /-- The value itself. -/
  | value
  /-- A value out of the range of numbers. -/
  | range
  /-- Something that a value does not have. -/
  | member
deriving Repr, DecidableEq

/-- What a misfit is about. -/
def concern : Misfit → Concern
  | .unreadableNumber _ | .unreadableInteger _ | .nanToInteger | .notAPair .. => .value
  | .tableTooLong | .tooMany | .tooManyBytes => .value
  | .numberTooLarge | .infinityToInteger | .tooLong => .range
  | .noMember .. => .member
  | _ => .kind

end Misfit

namespace Json

/-- Compare a value with a whole bound, which stands on the right. -/
def compared (symbol : String) (test : Quantity → Bool) (j : Json) : Except Misfit Bool :=
  match Quantity.ofJson? j with
  | some q => .ok (test q)
  | none => .error (.unordered symbol j.typeName "int")

/-- Whether a value is smaller than a bound. -/
def isBelow (j : Json) (bound : Int) : Except Misfit Bool := j.compared "<" (·.isBelow bound)

/-- Whether a value is at most a bound. -/
def isAtMost (j : Json) (bound : Int) : Except Misfit Bool := j.compared "<=" (·.isAtMost bound)

/-- The quantity that stands on the right of a comparison with a whole number. -/
def rightOf (symbol : String) (j : Json) : Except Misfit Quantity :=
  match Quantity.ofJson? j with
  | some q => .ok q
  | none => .error (.unordered symbol "int" j.typeName)

/-- The real number that a value gives: any number, a text that reads as one, or a truth
value. -/
def number : Json → Except Misfit Float
  | .int n =>
      match Binary64.ofInt? n with
      | some x => .ok x
      | none => .error .numberTooLarge
  | .real x => .ok x
  | .bool b => .ok (if b then 1.0 else 0.0)
  | .str s =>
      match Numeral.read? s with
      | some x => .ok x
      | none => .error (.unreadableNumber s)
  | j => .error (.notNumeric j.typeName)

/-- The whole number that a value gives: a fraction is dropped, and a text has to read as a
whole number. -/
def integer : Json → Except Misfit Int
  | .int n => .ok n
  | .bool b => .ok b.toNat
  | .real x =>
      match Binary64.decode x with
      | .nan => .error .nanToInteger
      | .infinite _ => .error .infinityToInteger
      | .finite .. => .ok ((Binary64.truncate? x).getD 0)
  | .str s =>
      match Numeral.readInteger? s with
      | some n => .ok n
      | none => .error (.unreadableInteger s)
  | j => .error (.notIntegral j.typeName)

/-- The whole number that a value is. -/
def index (j : Json) : Except Misfit Int :=
  match (Quantity.ofJson? j).bind Quantity.whole? with
  | some n => .ok n
  | none => .error (.notCountable j.typeName)

end Json

end PrimeSearch
