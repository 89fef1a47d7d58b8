/-
Module: PrimeSearch.Search.Candidate
Purpose: The points of the search space: one function, or two coordinate functions.
Main exports: Candidate, Candidate.key, Candidate.parse, Candidate.ofJson,
  CandidateError
-/
import PrimeSearch.Expr.Parser
import PrimeSearch.Expr.Printer
import PrimeSearch.Json.Basic
import PrimeSearch.Search.Mode

namespace PrimeSearch

/-- A candidate of a search. -/
inductive Candidate where
  | single (f : Expr)
  | pair (f g : Expr)
deriving DecidableEq, Inhabited

/-- Why something is no candidate. -/
inductive CandidateError where
  /-- A text with the wrong number of functions. -/
  | functionCount (given : Nat)
  /-- A list with the wrong number of expressions. -/
  | expressionCount (given : Nat)
  | missing (name : String)
  /-- A function that is not given as a text. -/
  | notText (kind : String)
  | malformed (error : ParseError)
deriving Repr, DecidableEq

/-- Wording of a candidate error. -/
def CandidateError.message : CandidateError → String
  | .functionCount given => s!"Expected one or two functions, got {given}"
  | .expressionCount given => s!"A candidate holds 1 or 2 expressions, got {given}"
  | .missing name => quoted name
  | .notText kind => "expected string or bytes-like object, got '" ++ kind ++ "'"
  | .malformed error => error.message

/-- A second function asked of a candidate that has one only. -/
structure NoPartner where
deriving Repr, DecidableEq

/-- Wording of the error. -/
def NoPartner.message (_ : NoPartner) : String := "PrimeGen candidates have no g(n)"

namespace Candidate

/-- The functions of a candidate. -/
def trees : Candidate → List Expr
  | .single f => [f]
  | .pair f g => [f, g]

/-- The candidate with the given functions. -/
def ofTrees : List Expr → Except CandidateError Candidate
  | [f] => .ok (.single f)
  | [f, g] => .ok (.pair f g)
  | given => .error (.expressionCount given.length)

/-- The mode that a candidate belongs to. -/
def mode : Candidate → Mode
  | .single _ => .primeGen
  | .pair _ _ => .primeFold

/-- The first function. -/
def f : Candidate → Expr
  | .single f => f
  | .pair f _ => f

/-- The second function. -/
def g : Candidate → Except NoPartner Expr
  | .single _ => .error {}
  | .pair _ g => .ok g

/-- Number of nodes of all functions together. -/
def size : Candidate → Nat
  | .single f => f.size
  | .pair f g => f.size + g.size

/-- A function with its name in front. -/
def labelled (name : String) (t : Expr) : String := name ++ "(n) = " ++ t.text

/-- Canonical text of a candidate; candidates with equal text count as the same. -/
def key : Candidate → String
  | .single f => labelled "f" f
  | .pair f g => labelled "f" f ++ ", " ++ labelled "g" g

/-- The texts of the functions by name. -/
def toJson : Candidate → Json
  | .single f => .obj [("f", .str f.text)]
  | .pair f g => .obj [("f", .str f.text), ("g", .str g.text)]

/-! ### Reading -/

/-- Read one function. -/
def parseTree (text : String) : Except CandidateError Expr :=
  match Expr.parse text with
  | .ok t => .ok t
  | .error e => .error (.malformed e)

/-- What follows a given character and the blanks after it. -/
def afterSymbol (symbol : Char) : List Char → Option (List Char)
  | c :: rest => if c = symbol then some (rest.dropWhile isBlank) else none
  | [] => none

/-- A text without the name `f(n) =` or `g(n) =` in front, if it has one. -/
def withoutLabel (cs : List Char) : List Char :=
  let label := do
    let start := cs.dropWhile isBlank
    let rest ← afterSymbol 'f' start <|> afterSymbol 'g' start
    let rest ← afterSymbol '(' rest
    let rest ← afterSymbol 'n' rest
    let rest ← afterSymbol ')' rest
    afterSymbol '=' rest
  label.getD cs

/-- The parts of a text between commas that are not blank. -/
def parts (text : String) : List (List Char) :=
  (splitAtChar ',' text.toList).filter fun part => !part.all isBlank

/-- The texts of the functions that a text lists, without their names. -/
def functionTexts (text : String) : List String :=
  (parts text).map fun part => String.ofList (withoutLabel part)

/-- Read a candidate: one or two functions, with or without their names, separated by a
comma. -/
def parse (text : String) : Except CandidateError Candidate :=
  match functionTexts text with
  | [first] => return .single (← parseTree first)
  | [first, second] => do
      let f ← parseTree first
      let g ← parseTree second
      return .pair f g
  | given => .error (.functionCount given.length)

/-- Read one function, which has to be given as a text. -/
def treeOfJson : Json → Except CandidateError Expr
  | .str text => parseTree text
  | j => .error (.notText j.typeName)

/-- Read a candidate from the texts of its functions by name; the second may be null. -/
def ofJson (j : Json) : Except CandidateError Candidate := do
  match j.get? "f" with
  | none => throw (.missing "f")
  | some first =>
      let f ← treeOfJson first
      match (j.get? "g").getD .null with
      | .null => return .single f
      | second => return .pair f (← treeOfJson second)

end Candidate

end PrimeSearch
