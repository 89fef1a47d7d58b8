/-
Module: PrimeSearch.Cli.Inspect
Purpose: The commands about a single text: score a candidate, parse an expression.
Main exports: Task.score, Task.parse
-/
import PrimeSearch.Cli.Search
import PrimeSearch.Expr.Eval

namespace PrimeSearch

-- Powers are the core library's, whatever else is imported.
attribute [local instance (high)] instPowNat

/-- What the log says about a text that is no expression; nothing is said about an empty
one. -/
def unparsableEntry (text : String) : Option LogEntry :=
  match Expr.parse text with
  | .ok _ | .error .empty => none
  | .error e => some (.unparsable text e)

/-- Whether a text is an expression. -/
def isExpression (text : String) : Bool :=
  match Expr.parse text with
  | .ok _ => true
  | .error _ => false

/-- The first function of a candidate that is no expression. -/
def firstUnreadable (text : String) : Option String :=
  let texts := Candidate.functionTexts text
  if texts.length = 1 ∨ texts.length = 2 then texts.find? fun t => !isExpression t else none

/-- A value of a function in a list of values. -/
def valueLine (t : Expr) (n : Nat) : String :=
  s!"  f({n}) = {Numeral.general 6 (t.eval (Binary64.ofInt n))}"

/-- Lines about an expression. -/
def headingLines (t : Expr) : List String :=
  [s!"Canonical: {t.text}", s!"Size: {t.size}  Depth: {t.depth}"]

/-- Lines with the first values of an expression. -/
def valueLines (t : Expr) (count : Nat) : List String :=
  (List.range count).map fun k => valueLine t (k + 1)

/-- How many of the first numbers are laid out where so many are wanted.  It is the nearest
double that is looked at; the first one beyond the range of lengths is taken for a negative
length. -/
def rowsOf (count : Int) : Except Misfit Nat :=
  match Binary64.ofInt? count with
  | none => .error .tooMany
  | some x =>
      if Binary64.ofInt (2 ^ (63 : Nat)) < x then .error .tooMany
      else if x == Binary64.ofInt (2 ^ (63 : Nat)) then .ok 0
      else if Binary64.ofInt (2 ^ (60 : Nat)) ≤ x then .error .tooManyBytes
      else .ok count.toNat

/-- How many of the first numbers are laid out for a request. -/
def rowsFor (count : Json) : Except Misfit Nat :=
  match Quantity.ofJson? count with
  | some n => rowsOf (n.truncated 0)
  | none => .error .notAddable

/-- Lines about a candidate and its score. -/
def scoreLines (c : Candidate) (s : Score) : List String :=
  [c.key, s!"Mode: {c.mode.name}",
    s!"Score: {scoreText s.total}" ++ (if s.valid then "" else " (insufficient data)")] ++
    componentLines s

namespace Task

/-- Note in the log that a text is no expression. -/
def logUnparsable (text : String) : Task Unit :=
  match unparsableEntry text with
  | some e => log e
  | none => return

/-- Say that a text cannot be read. -/
def refuseText (problem : String) : Task Nat := do
  complain ("Parse error: " ++ problem)
  return 1

/-- Score a candidate. -/
def scoreCandidate (seeding : Seeding) (o : ScoreOptions) (c : Candidate)
    (fitness : FitnessConfig) : Task Nat := do
  startLog none o.verbose
  let context ← openContext seeding o.seed fitness
  log (.makingEvaluator c.mode ((Quantity.ofJson? o.sampleSize).getD default))
  let before := context.surroundings
  let (evaluator, w) := (evaluatorFor fitness c.mode o.sampleSize).run.run before
  logSievings (newSievings before.memory w.memory)
  match evaluator with
  | .error e => throw (.oracle e)
  | .ok evaluator =>
      sayAll (scoreLines c ((evaluator.score c).run w).1)
      return 0

/-- The score command. -/
def score (seeding : Seeding) (o : ScoreOptions) : Task Nat := do
  match Candidate.parse o.candidate with
  | .error e => do
      match firstUnreadable o.candidate with
      | some text => logUnparsable text
      | none => pure ()
      refuseText e.message
  | .ok c =>
      match ← loadFitness o.fitnessConfig with
      | .error problem => refuse problem
      | .ok fitness => scoreCandidate seeding o c fitness

/-- The parse command. -/
def parse (text : String) (count : Json) : Task Nat := do
  match Expr.parse text with
  | .error e => do
      logUnparsable text
      refuseText e.message
  | .ok t => do
      sayAll (headingLines t)
      match rowsFor count with
      | .ok rows => do
          sayAll (valueLines t rows)
          return 0
      | .error e => throw (.misfit e)

end Task

end PrimeSearch
