/-
Module: PrimeSearch.Cli.Session
Purpose: What commands work on: files, clocks, the log and the two output channels.
Main exports: Session, CommandError, Task, Task.say, Task.complain, Task.log,
  Task.startLog, Task.filing
-/
import PrimeSearch.Archive.Basic
import PrimeSearch.Cli.Log

namespace PrimeSearch

/-- The state between and during commands. -/
structure Session where
  site : Site
  watch : Stopwatch
  /-- The file that entries of the log go to.  It stays open until a command starts the
  log anew. -/
  logFile : Option TreePath
  /-- Whether entries of the log are shown on the console, too. -/
  verbose : Bool
  /-- Lines shown so far, latest first. -/
  output : List String
  /-- Complaints so far, latest first. -/
  complaints : List String

/-- Why a command breaks off. -/
inductive CommandError where
  | archive (error : ArchiveError)
  /-- A fitness configuration of the wrong form. -/
  | config (error : ConfigError)
  /-- A seed that the source of randomness does not start from. -/
  | seed (error : SeedError)
  | oracle (error : OracleError)
  | search (error : ControllerError)
  | misfit (error : Misfit)
  /-- Notes about a run with a value in them that cannot be shown in a table. -/
  | unshowable (kind : String)
  | summaryNoFields (kind : String)
  | scoreNotNumeric (kind : String)
  | scoreTooLarge

/-- Wording of the error. -/
def CommandError.message : CommandError → String
  | .archive error => error.message
  | .config error => error.message
  | .seed error => error.message
  | .oracle error => error.message
  | .search error => error.message
  | .misfit error => error.message
  | .unshowable kind => "unsupported format string passed to " ++ kind ++ ".__format__"
  | .summaryNoFields kind => "'" ++ kind ++ "' object has no attribute 'get'"
  | .scoreNotNumeric kind => "Unknown format code 'f' for object of type '" ++ kind ++ "'"
  | .scoreTooLarge => "int too large to convert to float"

/-- A part of a command. -/
abbrev Task (α : Type) := ExceptT CommandError (StateM Session) α

namespace Session

/-- A session in which nothing has been done. -/
def new (site : Site) (watch : Stopwatch) : Session := ⟨site, watch, none, false, [], []⟩

/-- Ready for another command: its output starts empty, and the console shows no log. -/
def fresh (s : Session) : Session := { s with verbose := false, output := [], complaints := [] }

/-- Lines as one text. -/
def textOf (lines : List String) : String :=
  String.join (lines.reverse.map (· ++ "\n"))

/-- All that was shown. -/
def outputText (s : Session) : String := textOf s.output

/-- All complaints. -/
def complaintText (s : Session) : String := textOf s.complaints

/-- Show a line. -/
def say (line : String) (s : Session) : Session := { s with output := line :: s.output }

/-- Note something in the log.  A log file that has been removed takes nothing more. -/
def log (e : LogEntry) (s : Session) : Session :=
  let files :=
    match s.logFile with
    | some p => s.site.files.append p (e.fileLine s.site.clock.upcoming ++ "\n")
    | none => s.site.files
  let s := { s with site := { s.site with files } }
  if s.verbose then s.say e.consoleLine else s

end Session

namespace Task

/-- Show a line. -/
def say (line : String) : Task Unit := modify (·.say line)

/-- Show some lines. -/
def sayAll (lines : List String) : Task Unit := modify fun s => lines.foldl (fun s l => s.say l) s

/-- Show a complaint. -/
def complain (line : String) : Task Unit :=
  modify fun s => { s with complaints := line :: s.complaints }

/-- Note something in the log. -/
def log (e : LogEntry) : Task Unit := modify (·.log e)

/-- Note some runs of the sieve, given latest first. -/
def logSievings (runs : List Sieving) : Task Unit :=
  modify fun s => runs.foldr (fun run s => s.log (LogEntry.sieved run)) s

/-- Work on the files. -/
def filing {α : Type} (f : Filing α) : Task α := do
  let s ← get
  let (outcome, site) := f.run.run s.site
  set { s with site }
  match outcome with
  | .ok a => return a
  | .error e => throw (.archive e)

/-- Start the log anew, on the console and perhaps in a file, which keeps what it
holds. -/
def startLog (file : Option Location) (verbose : Bool) : Task Unit := do
  match file with
  | some l => filing do
      unless ← Filing.contains l do Filing.writeText l ""
  | none => pure ()
  modify fun s => { s with logFile := file.map s.site.resolve, verbose }

end Task

end PrimeSearch
