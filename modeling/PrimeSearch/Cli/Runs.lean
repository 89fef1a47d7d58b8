/-
Module: PrimeSearch.Cli.Runs
Purpose: The runs command: list saved runs or remove old ones.
Main exports: Task.runs, runLine
-/
import PrimeSearch.Archive.Request
import PrimeSearch.Cli.Search

namespace PrimeSearch

/-- A value in a column of a table.  Truth values count as zero or one; lists, mappings and
null have no place in a table. -/
def column (width : Nat) : Json → Except CommandError String
  | .str s => .ok (Numeral.padRight width s)
  | .int n => .ok (Numeral.padRight width (Numeral.ofInt n))
  | .bool b => .ok (Numeral.padRight width (if b then "1" else "0"))
  | .real x => .ok (Numeral.padRight width (Numeral.shortest x))
  | j => .error (.unshowable j.typeName)

/-- The best score of a run in a table. -/
def bestScoreText : Json → Except CommandError String
  | .null => .ok "-"
  | .real x => .ok (scoreText x)
  | .int n =>
      match Binary64.ofInt? n with
      | some x => .ok (scoreText x)
      | none => .error .scoreTooLarge
  | .bool b => .ok (scoreText (if b then 1.0 else 0.0))
  | .str _ => .error (.scoreNotNumeric "str")
  | j => .error (.unshowable j.typeName)

/-- A line of the table of runs. -/
def runLine (m : RunMetadata) : Except CommandError String := do
  let summary ←
    if m.summary.isTruthy then
      match m.summary with
      | .obj fields => pure fields
      | j => throw (.summaryNoFields j.typeName)
    else pure []
  let best ← bestScoreText ((Json.lookup "best_score" summary).getD .null)
  let runId ← column 50 m.runId
  let status ← column 10 m.status
  let expression := ((Json.lookup "best_expr" summary).getD (.str "")).display
  return runId ++ " " ++ status ++ " " ++ Numeral.padLeft ' ' 8 best ++ "  " ++ expression

/-- Heading of the table of runs. -/
def runHeading : List String :=
  [Numeral.padRight 50 "Run ID" ++ " " ++ Numeral.padRight 10 "Status" ++ " " ++
    Numeral.padLeft ' ' 8 "Best" ++ "  Expression", rule '-' 100]

/-- The type that runs are wanted of, or null for all. -/
def typeFilter (o : RunsOptions) : Json := (o.runType.map Json.str).getD .null

namespace Task

/-- Remove old runs, or say which would be removed. -/
def cleanUp (archive : Archive) (o : RunsOptions) : Task Nat := do
  say s!"Cleaning up runs, keeping {o.keep.literal} most recent..."
  let removed ← filing (archive.cleanupFor o.keep (typeFilter o) !o.force)
  if removed.isEmpty then say "No runs to clean up"
  else
    let action := if o.force then "Deleted" else "Would delete"
    say s!"{action} {removed.length} runs:"
    sayAll (removed.map fun id => "  - " ++ id.display)
  return 0

/-- Show a table of runs. -/
def listRuns (archive : Archive) (o : RunsOptions) : Task Nat := do
  let found ← filing (archive.listFor (typeFilter o) o.limit)
  if found.isEmpty then say "No runs found"
  else
    sayAll runHeading
    sayAll (← liftExcept (found.mapM fun r => runLine r.metadata))
  return 0
where
  /-- Break off with an error. -/
  liftExcept {α : Type} : Except CommandError α → Task α
    | .ok a => return a
    | .error e => throw e

/-- The runs command. -/
def runs (o : RunsOptions) : Task Nat := do
  let archive ← filing (Archive.open (o.outputDir.map .ofText))
  if o.cleanup then cleanUp archive o else listRuns archive o

end Task

end PrimeSearch
