/-
Module: PrimeSearch.Json.Basic
Purpose: Structured values as they are saved in run directories and given in
  configuration files.
Main exports: Json, Json.get?, Json.put, Json.isTruthy, Json.agrees, Json.typeName
-/
import PrimeSearch.Number.Numeral

namespace PrimeSearch

/-- A structured value.  Whole and real numbers are kept apart, and the fields of an
object keep the order in which they were first given. -/
inductive Json where
  | null
  | bool (value : Bool)
  | int (value : Int)
  | real (value : Float)
  | str (value : String)
  | arr (items : List Json)
  | obj (fields : List (String × Json))
deriving Inhabited

namespace Json

/-- Value of the first field of a given name. -/
def lookup (name : String) : List (String × Json) → Option Json
  | [] => none
  | (key, value) :: rest => if key = name then some value else lookup name rest

/-- Set a field: an existing one keeps its place, a new one goes to the end. -/
def put (name : String) (value : Json) : List (String × Json) → List (String × Json)
  | [] => [(name, value)]
  | (key, old) :: rest =>
      if key = name then (key, value) :: rest else (key, old) :: put name value rest

/-- Value of a field of an object. -/
def get? (j : Json) (name : String) : Option Json :=
  match j with
  | .obj fields => lookup name fields
  | _ => none

/-- Whether a value counts as a yes: false, zero, null and whatever is empty do not. -/
def isTruthy : Json → Bool
  | .null => false
  | .bool b => b
  | .int n => n != 0
  | .real x => x != 0.0
  | .str s => s != ""
  | .arr items => !items.isEmpty
  | .obj fields => !fields.isEmpty

/-- The number that a value counts as, if it is one: truth values are one and zero. -/
def numeric? : Json → Option (Int ⊕ Float)
  | .int n => some (.inl n)
  | .bool b => some (.inl b.toNat)
  | .real x => some (.inr x)
  | _ => none

/-- Whether two numbers are equal, however they are written. -/
def sameNumber : Int ⊕ Float → Int ⊕ Float → Bool
  | .inl m, .inl n => m == n
  | .inr x, .inr y => x == y
  | .inl n, .inr x | .inr x, .inl n => Binary64.isInteger x && Binary64.truncate? x == some n

mutual

/-- Whether two values are equal: numbers by what they count as, objects in any order. -/
def agrees : Json → Json → Bool
  | .str s, .str t => s == t
  | .null, .null => true
  | .arr xs, .arr ys => agreeAll xs ys
  | .obj fs, .obj gs => fs.length == gs.length && agreeFields fs gs
  | a, b =>
      match a.numeric?, b.numeric? with
      | some m, some n => sameNumber m n
      | _, _ => false

/-- Whether items are equal one by one. -/
def agreeAll : List Json → List Json → Bool
  | [], [] => true
  | x :: xs, y :: ys => agrees x y && agreeAll xs ys
  | _, _ => false

/-- Whether every field has an equal one of its name in another object. -/
def agreeFields : List (String × Json) → List (String × Json) → Bool
  | [], _ => true
  | (name, value) :: rest, gs =>
      (match lookup name gs with
        | some other => agrees value other
        | none => false) && agreeFields rest gs

end

/-- Short name of the kind of a value, as messages use it. -/
def typeName : Json → String
  | .null => "NoneType"
  | .bool _ => "bool"
  | .int _ => "int"
  | .real _ => "float"
  | .str _ => "str"
  | .arr _ => "list"
  | .obj _ => "dict"

/-- A number, or null. -/
def ofReal? : Option Float → Json
  | some x => .real x
  | none => .null

end Json

end PrimeSearch
