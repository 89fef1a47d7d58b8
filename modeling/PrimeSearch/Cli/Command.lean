/-
Module: PrimeSearch.Cli.Command
Purpose: The four commands and the options of each.
Main exports: Command, SearchOptions, ScoreOptions, RunsOptions, Command.read,
  Command.usage, Refusal.exitCode
-/
import PrimeSearch.Cli.Arguments
import PrimeSearch.Search.Config

namespace PrimeSearch

/-- Options of a search. -/
structure SearchOptions where
  request : SearchRequest
  fitnessConfig : Option String
  seed : Json
  /-- Steps between two lines of progress; zero for none at all. -/
  reportEvery : Int
  /-- Seconds to pause after every step. -/
  tickInterval : Json
  save : Bool
  outputDir : Option String
  /-- Steps between two checkpoints of a saved run; zero for none at all. -/
  checkpointInterval : Int
  verbose : Bool

/-- Options for scoring one candidate. -/
structure ScoreOptions where
  candidate : String
  sampleSize : Json
  fitnessConfig : Option String
  seed : Json
  verbose : Bool

/-- Options for listing or removing saved runs. -/
structure RunsOptions where
  runType : Option String
  limit : Json
  cleanup : Bool
  keep : Json
  force : Bool
  outputDir : Option String

/-- What can be asked for on the command line. -/
inductive Command where
  | search (options : SearchOptions)
  | score (options : ScoreOptions)
  | parse (expression : String) (count : Json)
  | runs (options : RunsOptions)

namespace Command

/-- An option that is given or not. -/
def flag (spellings : List String) : OptionSpec := ⟨spellings, .flag⟩

/-- An option with a text. -/
def text (name : String) : OptionSpec := ⟨[name], .text⟩

/-- An option with a whole number. -/
def whole (spellings : List String) : OptionSpec := ⟨spellings, .whole⟩

/-- An option with a real number. -/
def real (name : String) : OptionSpec := ⟨[name], .real⟩

/-- What the program accepts in front of the name of a command. -/
def programSignature : Signature := ⟨[], true⟩

/-- What the search command accepts. -/
def searchSignature : Signature where
  options := [
    ⟨["--mode"], .choice (Mode.all.map Mode.name)⟩,
    ⟨["--algorithm", "-a"], .choice Algorithm.names⟩, whole ["--iterations", "-n"],
    whole ["--sample-size"], whole ["--max-depth"], flag ["--symmetry"],
    whole ["--history-length"], whole ["--population-size"], real "--start-temp",
    real "--cooling-rate", text "--fitness-config", whole ["--seed"],
    whole ["--report-every"], real "--tick-interval", flag ["--save"],
    text "--output-dir", whole ["--checkpoint-interval"], flag ["--verbose", "-v"]]
  hasOperand := false

/-- What the score command accepts. -/
def scoreSignature : Signature where
  options := [whole ["--sample-size"], text "--fitness-config", whole ["--seed"],
    flag ["--verbose", "-v"]]
  hasOperand := true

/-- What the parse command accepts. -/
def parseSignature : Signature where
  options := [whole ["--count"]]
  hasOperand := true

/-- What the runs command accepts. -/
def runsSignature : Signature where
  options := [text "--type", whole ["--limit"], flag ["--cleanup"], whole ["--keep"],
    flag ["--force"], text "--output-dir"]
  hasOperand := false

/-- The options of a search. -/
def searchOptions (r : Reading) : SearchOptions where
  request := {
    mode := r.value "--mode" (.str Mode.primeGen.name)
    algorithm := r.value "--algorithm" (.str Algorithm.lateAcceptance.name)
    maxIterations := r.value "--iterations" (.int 1000)
    sampleSize := r.value "--sample-size" (.int 200)
    maxDepth := r.value "--max-depth" (.int 3)
    enforceSymmetry := .bool (r.has "--symmetry")
    historyLength := r.value "--history-length" (.int 50)
    populationSize := r.value "--population-size" (.int 10)
    startTemperature := r.value "--start-temp" (.real 10.0)
    coolingRate := r.value "--cooling-rate" (.real 0.99) }
  fitnessConfig := r.text? "--fitness-config"
  seed := r.value "--seed" .null
  reportEvery := r.whole "--report-every" 50
  tickInterval := r.value "--tick-interval" (.real 0.0)
  save := r.has "--save"
  outputDir := r.text? "--output-dir"
  checkpointInterval := r.whole "--checkpoint-interval" 100
  verbose := r.has "--verbose"

/-- The options for scoring. -/
def scoreOptions (r : Reading) : ScoreOptions where
  candidate := r.operand.getD ""
  sampleSize := r.value "--sample-size" (.int 200)
  fitnessConfig := r.text? "--fitness-config"
  seed := r.value "--seed" .null
  verbose := r.has "--verbose"

/-- The options for listing runs. -/
def runsOptions (r : Reading) : RunsOptions where
  runType := r.text? "--type"
  limit := r.value "--limit" (.int 20)
  cleanup := r.has "--cleanup"
  keep := r.value "--keep" (.int 10)
  force := r.has "--force"
  outputDir := r.text? "--output-dir"

/-- Read the arguments of a command. -/
def ofName (name : String) (arguments : List String) : Except Refusal Command :=
  match name with
  | "search" => (searchSignature.read arguments).map fun r => .search (searchOptions r)
  | "score" => (scoreSignature.read arguments).map fun r => .score (scoreOptions r)
  | "parse" =>
      (parseSignature.read arguments).map fun r =>
        .parse (r.operand.getD "") (r.value "--count" (.int 10))
  | "runs" => (runsSignature.read arguments).map fun r => .runs (runsOptions r)
  | _ => .error .rejected

/-- Read a command line.  The name of the command comes first, save for options of the
program itself. -/
def read (arguments : List String) : Except Refusal Command := do
  match ← programSignature.leading arguments with
  | (surplus, []) => throw (if surplus then .rejected else .noCommand)
  | (surplus, name :: rest) => do
      let command ← ofName name rest
      if surplus then throw .rejected else return command

/-- Lines that say how to use the program. -/
def usage : List String :=
  ["Search for arithmetic expressions that reveal prime structure", "",
    "  search [options]             run a search",
    "  score CANDIDATE [options]    score one candidate",
    "  parse EXPRESSION [options]   parse and evaluate an expression",
    "  runs [options]               list or clean up saved runs"]

end Command

/-- Exit code of a refusal.  Asking for help is no failure. -/
def Refusal.exitCode : Refusal → Nat
  | .helpWanted => 0
  | .noCommand => 1
  | .rejected => 2

end PrimeSearch
