/-
Module: PrimeSearch.Cli.Comparison
Purpose: Comparing the algorithms under equal settings and the same seed.
Main exports: ComparisonRequest, UnknownSetting, ComparisonRequest.ofFields, Task.compare
-/
import PrimeSearch.Cli.Search

namespace PrimeSearch

/-- Settings of a comparison. -/
structure ComparisonRequest where
  mode : Json := .str Mode.primeGen.name
  iterations : Json := .int 300
  sampleSize : Json := .int 200
  seed : Json := .int 42
  symmetry : Json := .bool false

/-- A setting that a comparison does not have. -/
structure UnknownSetting where
  name : String
deriving Repr, DecidableEq

/-- Wording of the error. -/
def UnknownSetting.message (e : UnknownSetting) : String :=
  "run_comparison() got an unexpected keyword argument " ++ quoted e.name

namespace ComparisonRequest

/-- Change one setting by name. -/
def withField (r : ComparisonRequest) (field : String × Json) :
    Except UnknownSetting ComparisonRequest :=
  let (name, value) := field
  match name with
  | "mode" => .ok { r with mode := value }
  | "iterations" => .ok { r with iterations := value }
  | "sample_size" => .ok { r with sampleSize := value }
  | "seed" => .ok { r with seed := value }
  | "symmetry" => .ok { r with symmetry := value }
  | other => .error ⟨other⟩

/-- Settings given by name; whatever is not mentioned keeps its default. -/
def ofFields (fields : List (String × Json)) : Except UnknownSetting ComparisonRequest :=
  fields.foldlM withField {}

/-- Settings of the search by one of the algorithms. -/
def config (r : ComparisonRequest) (a : Algorithm) : Except SearchRequestError SearchConfig :=
  SearchRequest.check {
    mode := r.mode
    algorithm := .str a.name
    maxIterations := r.iterations
    sampleSize := r.sampleSize
    enforceSymmetry := r.symmetry }

/-- Settings of all searches. -/
def configs (r : ComparisonRequest) : Except SearchRequestError (List SearchConfig) :=
  Algorithm.all.mapM r.config

/-- The mode and the seed in a few characters. -/
def description (r : ComparisonRequest) : String :=
  r.mode.display ++ "_seed" ++ r.seed.display

end ComparisonRequest

/-- The result of one of the searches. -/
structure Contender where
  algorithm : Algorithm
  result : SearchResult

/-- Contenders by best score, greatest first; of equal ones the first stays first. -/
def ranking (cs : List Contender) : List Contender :=
  let total (c : Contender) := c.result.bestTotal.getD (-Binary64.infinity)
  cs.mergeSort fun a b => decide (total b ≤ total a)

/-- A score that may be missing. -/
def totalText (r : SearchResult) : String := scoreText (r.bestTotal.getD Binary64.nan)

/-- Lines about the places of the contenders. -/
def rankingLines : Nat → List Contender → List String
  | _, [] => []
  | place, c :: rest =>
      s!"  {place}. {Numeral.padRight 5 c.algorithm.name} {totalText c.result}" ::
        rankingLines (place + 1) rest

/-- The results by algorithm as they are saved. -/
def contenderFields (cs : List Contender) : List (String × Json) :=
  cs.map fun c => (c.algorithm.name, c.result.toJson)

/-- What is noted about a comparison at its end. -/
def comparisonSummary : List Contender → Json
  | winner :: _ =>
      .obj [("winner", .str winner.algorithm.name), ("best_expr", .str winner.result.best),
        ("best_score", .ofReal? winner.result.bestTotal)]
  | [] => .null

namespace Task

/-- Let one algorithm search. -/
def contend (seeding : Seeding) (seed : Json) (run : SavedRun) (config : SearchConfig) :
    Task Contender := do
  let name := config.algorithm.name
  say s!"Running {name}..."
  let context ← openContext seeding seed .default
  let (result, _) ← runSearch context config (fun _ => return) 0.0
  let _ ← filing (run.saveCheckpoint result.toJson name)
  say (s!"  best={totalText result} time={Numeral.fixed 1 result.elapsed}s  " ++ result.best)
  return ⟨config.algorithm, result⟩

/-- Let the algorithms search one after the other. -/
def contendAll (seeding : Seeding) (seed : Json) (run : SavedRun) :
    List SearchConfig → Task (List Contender)
  | [] => return []
  | config :: rest => do
      let first ← contend seeding seed run config
      return first :: (← contendAll seeding seed run rest)

/-- Compare the algorithms and save the comparison as a run. -/
def compare (r : ComparisonRequest) (configs : List SearchConfig) (seeding : Seeding := .all) :
    Task (List Contender) := do
  let run ← filing do
    let archive ← Archive.open none
    archive.create (.str "comparison") r.description
      (.obj [("seed", r.seed),
        ("strategies", .obj (configs.map fun c => (c.algorithm.name, c.toJson)))])
      (.arr [.str "comparison", r.mode])
  startLog (some run.logFile) false
  sayAll [rule '=' 70, "SEARCH STRATEGY COMPARISON", rule '=' 70,
    "Run ID: " ++ run.metadata.runId.display,
    s!"Mode: {r.mode.display}  Iterations: {r.iterations.display}  Seed: {r.seed.display}", ""]
  let contenders ← contendAll seeding r.seed run configs
  let ranked := ranking contenders
  sayAll (["", "Ranking:"] ++ rankingLines 1 ranked)
  filing (run.saveResults (contenderFields contenders))
  complete run "completed" (comparisonSummary ranked)
  sayWhere run
  return contenders

end Task

end PrimeSearch
