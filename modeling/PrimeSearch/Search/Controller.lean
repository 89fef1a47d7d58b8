/-
Module: PrimeSearch.Search.Controller
Purpose: Driving one search after another, tick by tick.
Main exports: Phase, Report, SearchResult, Stopwatch, Controller, Controller.start,
  Controller.stop, Controller.tick, Controller.run, Controller.conduct
-/
import PrimeSearch.Search.Strategy

namespace PrimeSearch

/-!
A run goes from running to stopped or completed.  Every tick takes one step and reports on
it, or ends the run without a step.  A request to stop is honoured by the next tick.
-/

/-- Where a controller stands. -/
inductive Phase where
  | idle
  | running
  | stopped
  | completed
deriving Repr, DecidableEq, Inhabited

/-- Name of a phase. -/
def Phase.name : Phase → String
  | .idle => "idle"
  | .running => "running"
  | .stopped => "stopped"
  | .completed => "completed"

/-- Progress of a run after a step. -/
structure Report where
  iteration : Nat
  maxIterations : Quantity
  accepted : Bool
  current : String
  currentScore : Option Score
  best : String
  bestScore : Option Score
deriving Inhabited

/-- Report on a step. -/
def Report.ofStep (step : StepResult) (maxIterations : Quantity) : Report :=
  ⟨step.iteration, maxIterations, step.accepted, step.current.key, step.currentScore,
    step.best.key, step.bestScore⟩

/-- What a run has found. -/
structure SearchResult where
  best : String
  bestScore : Option Score
  iterations : Nat
  status : Phase
  /-- Seconds from the start of the run to its end. -/
  elapsed : Float
deriving Inhabited

/-- The fields of a result as it is saved. -/
def SearchResult.fields (r : SearchResult) : List (String × Json) :=
  [("best_expr", .str r.best), ("best_score", Score.toJson? r.bestScore),
    ("iterations", .int r.iterations), ("status", .str r.status.name),
    ("elapsed", .real r.elapsed)]

/-- A result as it is saved. -/
def SearchResult.toJson (r : SearchResult) : Json := .obj r.fields

/-- Total of the best score, if there is one. -/
def SearchResult.bestTotal (r : SearchResult) : Option Float := r.bestScore.map (·.total)

/-- A measure of time that advances a little whenever it is read. -/
structure Stopwatch where
  /-- Seconds. -/
  time : Float
  /-- Seconds between two readings. -/
  tick : Float
  /-- All pauses in seconds, latest first. -/
  pauses : List Float

namespace Stopwatch

/-- Read the time. -/
def read (w : Stopwatch) : Float × Stopwatch :=
  let time := w.time + w.tick
  (time, { w with time })

/-- Let time pass. -/
def pause (w : Stopwatch) (seconds : Float) : Stopwatch :=
  { w with time := w.time + seconds, pauses := seconds :: w.pauses }

end Stopwatch

/-- A run: its plan, its search, and when it was started. -/
structure Run (σ : Type) where
  plan : Plan σ
  strategy : Strategy
  startedAt : Float

/-- A controller runs at most one search at a time. -/
structure Controller (σ : Type) where
  phase : Phase
  /-- The latest run. -/
  latest : Option (Run σ)
  result : Option SearchResult
  stopRequested : Bool
  surroundings : Surroundings σ
  watch : Stopwatch

/-- Why a controller cannot do what it was asked for. -/
inductive ControllerError where
  | alreadyRunning
  /-- There is no evaluator for the settings. -/
  | evaluator (error : OracleError)
  | search (error : SearchError)

/-- Wording of a controller error. -/
def ControllerError.message : ControllerError → String
  | .alreadyRunning => "A search is already running; stop it first"
  | .evaluator error => error.message
  | .search error => error.message

/-- How a controller gets an evaluator for a mode and a sample size. -/
abbrev EvaluatorSource (σ : Type) :=
  Mode → Quantity → ExceptT OracleError (StateM (Surroundings σ)) (Evaluator σ)

namespace Controller

variable {σ : Type}

/-- A controller that has not run anything. -/
def new (w : Surroundings σ) (watch : Stopwatch) : Controller σ :=
  ⟨.idle, none, none, false, w, watch⟩

/-- Whether a run is going on. -/
def isRunning (c : Controller σ) : Bool := c.phase = .running

/-- Begin a run. -/
def start (evaluators : EvaluatorSource σ) (config : SearchConfig) (c : Controller σ) :
    Except ControllerError Unit × Controller σ :=
  if c.isRunning then (.error .alreadyRunning, c)
  else
    match (evaluators config.mode config.sampleSize.given).run.run c.surroundings with
    | (.error e, w) => (.error (.evaluator e), { c with surroundings := w })
    | (.ok evaluator, w) =>
        let plan : Plan σ := ⟨config, evaluator⟩
        match Strategy.begin plan w with
        | (.error e, w) => (.error (.search e), { c with surroundings := w })
        | (.ok strategy, w) =>
            let (startedAt, watch) := c.watch.read
            (.ok (), {
              phase := .running
              latest := some ⟨plan, strategy, startedAt⟩
              result := none
              stopRequested := false
              surroundings := w
              watch })

/-- Ask the run to stop.  Without a run there is nothing to stop. -/
def stop (c : Controller σ) : Controller σ :=
  if c.isRunning then { c with stopRequested := true } else c

/-- End a run. -/
def finish (run : Run σ) (phase : Phase) (c : Controller σ) : Controller σ :=
  let (now, watch) := c.watch.read
  { c with
    phase
    result := some ⟨run.strategy.best.key, run.strategy.bestScore, run.strategy.iteration,
      phase, now - run.startedAt⟩
    watch }

/-- Take one step, or end the run if a stop was asked for or no step is left. -/
def tick (c : Controller σ) : Except ControllerError (Option Report) × Controller σ :=
  match c.phase, c.latest with
  | .running, some run =>
      if c.stopRequested then (.ok none, c.finish run .stopped)
      else if run.strategy.isFinished run.plan.config then (.ok none, c.finish run .completed)
      else
        let (outcome, strategy, w) := run.strategy.step run.plan c.surroundings
        let c := { c with latest := some { run with strategy }, surroundings := w }
        match outcome with
        | .ok step => (.ok (some (Report.ofStep step run.plan.config.maxIterations.given)), c)
        | .error e => (.error (.search e), c)
  | _, _ => (.ok none, c)

/-- Pause between two ticks, if a pause is wanted. -/
def rest (seconds : Float) (c : Controller σ) : Controller σ :=
  if 0.0 < seconds then { c with watch := c.watch.pause seconds } else c

/-- Tick until the run has ended.  An observer is shown every report and says whether to
stop; it keeps what it likes. -/
def drive {α : Type} (observe : Report → StateM α Bool) (interval : Float) :
    Nat → Controller σ → StateM α (Except ControllerError Unit × Controller σ)
  | 0, c => return (.ok (), c)
  | ticks + 1, c => do
      if c.isRunning then
        match c.tick with
        | (.error e, c) => return (.error e, c)
        | (.ok none, c) => drive observe interval ticks c
        | (.ok (some report), c) =>
            let halt ← observe report
            let c := if halt then c.stop else c
            drive observe interval ticks (c.rest interval)
      else return (.ok (), c)

/-- Begin a run and tick it to its end: one tick for every step, and one to end it. -/
def run {α : Type} (evaluators : EvaluatorSource σ) (config : SearchConfig)
    (observe : Report → StateM α Bool) (interval : Float) (c : Controller σ) :
    StateM α (Except ControllerError Unit × Controller σ) :=
  match c.start evaluators config with
  | (.error e, c) => return (.error e, c)
  | (.ok (), c) => drive observe interval (config.maxIterations.value + 1) c

/-- Run a search to its end and announce its result. -/
def conduct {α : Type} (evaluators : EvaluatorSource σ) (config : SearchConfig)
    (observe : Report → StateM α Bool) (announce : Option SearchResult → StateM α Unit)
    (interval : Float) (c : Controller σ) :
    StateM α (Except ControllerError (Option SearchResult) × Controller σ) := do
  match ← c.run evaluators config observe interval with
  | (.error e, c) => return (.error e, c)
  | (.ok (), c) =>
      announce c.result
      return (.ok c.result, c)

end Controller

end PrimeSearch
