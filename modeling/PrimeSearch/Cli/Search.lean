/-
Module: PrimeSearch.Cli.Search
Purpose: The search command: run a search, show how it goes, and save it if asked to.
Main exports: Task.loadFitness, Task.openContext, Task.runSearch, Task.search
-/
import PrimeSearch.Cli.Command
import PrimeSearch.Cli.Session

namespace PrimeSearch

/-! ### Lines -/

/-- A score in four places. -/
def scoreText (x : Float) : String := Numeral.fixed 4 x

/-- A score, if there is one. -/
def scoreText? : Option Score → String
  | some s => scoreText s.total
  | none => "n/a"

/-- The parts of a score, one a line. -/
def componentLines (s : Score) : List String :=
  s.components.map fun (name, value) => s!"  {name}: {scoreText value}"

/-- A line of one character. -/
def rule (mark : Char) (width : Nat) : String := String.ofList (List.replicate width mark)

/-- Whether something that is done every so many steps is due. -/
def isDue (every : Int) (iteration : Nat) : Bool := every != 0 && (iteration : Int) % every == 0

/-- A line of progress. -/
def progressLine (r : Report) : String :=
  let iteration := Numeral.padLeft ' ' 6 (Numeral.ofNat r.iteration)
  s!"  [{iteration}/{r.maxIterations.text}] best={scoreText? r.bestScore}  {r.best}"

/-- The state of a search in a checkpoint. -/
def checkpointJson (r : Report) : Json :=
  .obj [("iteration", .int r.iteration), ("current", .str r.current),
    ("current_score", Score.toJson? r.currentScore), ("best", .str r.best),
    ("best_score", Score.toJson? r.bestScore)]

/-- Name of a checkpoint. -/
def checkpointName (iteration : Nat) : String :=
  "iter_" ++ Numeral.padLeft '0' 6 (Numeral.ofNat iteration)

/-- The whole number that a seed comes to, unless it is left out. -/
def seedNumber? (seed : Json) : Option Int := (Quantity.ofJson? seed).map (·.truncated 0)

/-- The seconds of a pause; what is no number has none. -/
def pauseOf (interval : Json) : Float := ((Quantity.ofJson? interval).map (·.toFloat)).getD 0.0

/-- Lines about the end of a search. -/
def resultLines (r : SearchResult) : List String :=
  ["", rule '=' 60, "SEARCH " ++ r.status.name.toUpper, rule '=' 60,
    s!"Iterations: {r.iterations}", s!"Time: {Numeral.fixed 1 r.elapsed}s",
    s!"Best score: {scoreText? r.bestScore}", s!"Best: {r.best}"] ++
    match r.bestScore with
    | some score => componentLines score
    | none => []

namespace Task

/-! ### Parts that commands share -/

/-- Refuse a configuration. -/
def refuse (problem : String) : Task Nat := do
  complain ("Invalid configuration: " ++ problem)
  return 1

/-- The fitness configuration of a file, or what is wrong with it. -/
def loadFitness : Option String → Task (Except String FitnessConfig)
  | none => return .ok .default
  | some path => do
      let s ← get
      match (s.site.find (.asWritten path)).bind s.site.files.read with
      | .error fault => return .error (fault.message path)
      | .ok text =>
          match FitnessConfig.ofText text with
          | .ok config => return .ok config
          | .error e => if e.isExpected then return .error e.message else throw (.config e)

/-- A new context.  Its oracle is made before the source of randomness is started. -/
def openContext (seeding : Seeding) (seed : Json) (fitness : FitnessConfig) : Task Context := do
  let oracle := Context.oracle Context.defaultPreCache
  logSievings oracle.sievings
  match seeding (seedNumber? seed) with
  | .ok source => return ⟨fitness, ⟨source, oracle⟩⟩
  | .error e => throw (.seed e)

/-- Runs of the sieve that an earlier state of the oracle does not know of. -/
def newSievings (before after : Oracle) : List Sieving :=
  after.sievings.take (after.sievings.length - before.sievings.length)

/-- Let a task observe a search.  If it breaks off, the search is stopped. -/
def observing (observe : Report → Task Unit) (r : Report) :
    StateM (Session × Option CommandError) Bool := fun (s, failure) =>
  match (observe r).run.run s with
  | (.ok (), s) => (false, s, failure)
  | (.error e, s) => (true, s, some e)

/-- Run a search to its end and note its course in the log. -/
def runSearch (context : Context) (config : SearchConfig) (observe : Report → Task Unit)
    (interval : Float) : Task (SearchResult × Oracle) := do
  log (.starting config)
  log (.makingEvaluator config.mode config.sampleSize.given)
  let s ← get
  let before := context.surroundings.memory
  let (begun, c) :=
    (Controller.new context.surroundings s.watch).start (makeEvaluator context.fitness) config
  logSievings (newSievings before c.surroundings.memory)
  match begun with
  | .error e => throw (.search e)
  | .ok () =>
      let ((outcome, c), s, failure) :=
        (c.drive (observing observe) interval (config.maxIterations.value + 1)).run (← get, none)
      set { s with watch := c.watch }
      match outcome, failure with
      | .error e, _ => throw (.search e)
      | .ok (), some e => throw e
      | .ok (), none =>
          let result := c.result.getD default
          log (.ended result)
          return (result, c.surroundings.memory)

/-- Record the end of a saved run. -/
def complete (r : SavedRun) (status : String) (summary : Json) : Task Unit :=
  filing do
    let (outcome, _) ← r.complete status summary
    match outcome with
    | .ok () => return
    | .error e => throw e

/-- Say where a run was saved. -/
def sayWhere (r : SavedRun) : Task Unit := do
  let s ← get
  sayAll ["", "Results saved to " ++ s.site.pathText r.directory]

/-! ### The command -/

/-- A run directory for a search. -/
def newRun (o : SearchOptions) (config : SearchConfig) (fitness : FitnessConfig) :
    Task SavedRun :=
  filing do
    let archive ← Archive.open (o.outputDir.map .ofText)
    archive.create (.str "search") (config.algorithm.name ++ "_" ++ config.mode.name)
      (.obj [("search", config.toJson), ("fitness", fitness.toJson),
        ("seed", o.seed)])
      (.arr [.str config.algorithm.name, .str config.mode.name])

/-- Show progress and save checkpoints when they are due. -/
def follow (o : SearchOptions) (run : Option SavedRun) (r : Report) : Task Unit := do
  if isDue o.reportEvery r.iteration then say (progressLine r)
  match run with
  | some run =>
      if isDue o.checkpointInterval r.iteration then
        let _ ← filing (run.saveCheckpoint (checkpointJson r) (checkpointName r.iteration))
  | none => pure ()
  if (Quantity.ofJson? o.tickInterval).isNone then
    throw (.misfit (.unordered ">" o.tickInterval.typeName "int"))

/-- Search with settings that have been accepted. -/
def searchWith (seeding : Seeding) (o : SearchOptions) (config : SearchConfig)
    (fitness : FitnessConfig) : Task Nat := do
  let run ← if o.save then some <$> newRun o config fitness else pure none
  startLog (run.map (·.logFile)) o.verbose
  let context ← openContext seeding o.seed fitness
  say (s!"Searching: algorithm={config.algorithm.name}, mode={config.mode.name}, " ++
    s!"iterations={config.maxIterations.given.text}, seed={o.seed.literal}")
  let (result, oracle) ← runSearch context config (follow o run) (pauseOf o.tickInterval)
  sayAll (resultLines result)
  log (.oracleUse oracle.stats)
  match run with
  | some run => do
      filing (run.saveResults (result.fields ++ [("prime_cache", oracle.stats.toJson)]))
      complete run result.status.name
        (.obj [("best_expr", .str result.best), ("best_score", .ofReal? result.bestTotal)])
      sayWhere run
  | none => pure ()
  return 0

/-- The search command. -/
def search (seeding : Seeding) (o : SearchOptions) : Task Nat := do
  match ← loadFitness o.fitnessConfig with
  | .error problem => refuse problem
  | .ok fitness =>
      match o.request.check with
      | .error (.misfit e) => throw (.misfit e)
      | .error e => refuse e.message
      | .ok config => searchWith seeding o config fitness

end Task

end PrimeSearch
