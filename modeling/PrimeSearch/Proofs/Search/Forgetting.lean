/-
Module: PrimeSearch.Proofs.Search.Forgetting
Purpose: What the oracle remembers has no influence on a run: not on its reports, not on its result,
  and not on any score.
Main exports: Oracle.BothReachable, makeEvaluator_agrees, Controller.Alike, Controller.drive_alike,
  Controller.Asks.afterAll, Controller.run_forgets
-/
import PrimeSearch.Proofs.Search.Driving

namespace PrimeSearch

/-! ### Evaluators -/

/-- Two oracles that were asked for any things, each for its own. -/
def Oracle.BothReachable (o o' : Oracle) : Prop := o.Reachable ∧ o'.Reachable

open Oracle (BothReachable Forgetful)

/-- Forgetful work has the same answer in both. -/
theorem Oracle.Forgetful.agrees {α : Type} {work : Oracle → α × Oracle}
    (forgetful : Forgetful work) {o o' : Oracle} (both : BothReachable o o') :
    (work o).1 = (work o').1 ∧ BothReachable (work o).2 (work o').2 := by
  obtain ⟨reachable, reachable'⟩ := both
  obtain ⟨after, same⟩ := forgetful o reachable
  exact ⟨same o' reachable', after, (forgetful o' reachable').1⟩

theorem PrimeShare.countPrimes_forgetful (numbers : List Nat) :
    Forgetful (countPrimes numbers) := by
  induction numbers with
  | nil => exact .pure 0
  | cons n numbers ih =>
      exact .bind (f := fun answer o => (if answer then (countPrimes numbers o).1 + 1
        else (countPrimes numbers o).1, (countPrimes numbers o).2)) (Oracle.isPrime_forgetful n)
        fun answer => ih.map fun count => if answer then count + 1 else count

theorem PrimeShare.score_forgetful (share : PrimeShare) (t : Expr) :
    Forgetful fun o => (share.score t).run o := by
  intro o reachable
  obtain ⟨after, same⟩ := countPrimes_forgetful (magnitudes (share.values t)) o reachable
  refine ⟨after, fun o' reachable' => ?_⟩
  simp only [score, StateT.run_bind, StateT.run_modifyGet, same o' reachable', pure_bind,
    StateT.run_pure]
  rfl

theorem PrimeShare.evaluator_agrees (share : PrimeShare) :
    share.evaluator.Agrees BothReachable share.evaluator where
  mode := rfl
  score c w v related := by
    obtain ⟨same, both⟩ := (share.score_forgetful c.f).agrees related.memory
    exact ⟨same, related.source, both⟩

theorem unscorable_agrees : unscorable.Agrees BothReachable unscorable where
  mode := rfl
  score _ _ _ related := ⟨rfl, related⟩

/-- Folds are scored without the oracle. -/
theorem FoldTest.evaluator_agrees {σ τ : Type} {R : σ → τ → Prop} (test : FoldTest) :
    (test.evaluator : Evaluator σ).Agrees R (test.evaluator : Evaluator τ) where
  mode := rfl
  score c w v related := by
    obtain ⟨source, memory⟩ := w
    obtain ⟨_, memory'⟩ := v
    obtain ⟨rfl, both⟩ := related
    cases c with
    | single f => exact ⟨rfl, rfl, both⟩
    | pair f g => exact ⟨rfl, rfl, both⟩

/-- Whatever the oracles were asked before, the same evaluator is made, or none for the same reason;
and it scores alike. -/
theorem makeEvaluator_agrees (fitness : FitnessConfig) (mode : Mode) (size : Quantity)
    {w v : Surroundings Oracle} (related : w.Matches BothReachable v) :
    ((makeEvaluator fitness mode size).run.run w).1 =
        ((makeEvaluator fitness mode size).run.run v).1 ∧
      ((makeEvaluator fitness mode size).run.run w).2.Matches BothReachable
        ((makeEvaluator fitness mode size).run.run v).2 ∧
      ∀ e, ((makeEvaluator fitness mode size).run.run w).1 = .ok e → e.Agrees BothReachable e := by
  have alike : ((makeEvaluator fitness mode size).run.run w).1 =
      ((makeEvaluator fitness mode size).run.run v).1 ∧
        ((makeEvaluator fitness mode size).run.run w).2.Matches BothReachable
          ((makeEvaluator fitness mode size).run.run v).2 := by
    cases mode with
    | primeGen =>
        rw [makeEvaluator]
        split
        · exact ⟨rfl, related⟩
        · exact ⟨rfl, related⟩
    | primeFold =>
        obtain ⟨same, both⟩ := (Oracle.samplesFor_forgetful size).agrees related.memory
        exact ⟨congrArg (Except.map _) same, related.source, both⟩
  refine ⟨alike.1, alike.2, fun e made => ?_⟩
  obtain ⟨-, ⟨share, rfl⟩ | rfl | ⟨test, rfl⟩⟩ := makeEvaluator_eq_ok (Prod.ext made rfl)
  · exact share.evaluator_agrees
  · exact unscorable_agrees
  · exact test.evaluator_agrees

/-! ### Controllers -/

/-- A result without the time that the run took. -/
def SearchResult.untimed (r : SearchResult) : SearchResult := { r with elapsed := 0.0 }

/-- Results that are the same without their times differ in their times only. -/
theorem SearchResult.eq_of_untimed {r r' : SearchResult} (same : r'.untimed = r.untimed) :
    r' = { r with elapsed := r'.elapsed } := by
  obtain ⟨best, bestScore, iterations, status, elapsed⟩ := r
  obtain ⟨_, _, _, _, elapsed'⟩ := r'
  cases same
  rfl

/-- The same plan and search, whenever they were started, with an evaluator that does not show what
the oracle remembers. -/
structure Run.Alike (run run' : Run Oracle) : Prop where
  plan : run.plan = run'.plan
  strategy : run.strategy = run'.strategy
  evaluator : run.plan.evaluator.Agrees BothReachable run.plan.evaluator

namespace Controller

/-- Two controllers whose latest runs stand alike, but for the time and for what the oracles
remember. -/
structure Alike (c c' : Controller Oracle) : Prop where
  phase : c.phase = c'.phase
  stopRequested : c.stopRequested = c'.stopRequested
  surroundings : c.surroundings.Matches BothReachable c'.surroundings
  result : c.result.map SearchResult.untimed = c'.result.map SearchResult.untimed
  latest : ∃ run run', c.latest = some run ∧ c'.latest = some run' ∧ run.Alike run'

section
variable {c c' : Controller Oracle}

/-- Runs that are started with matching surroundings begin alike, or do not begin for the same
reason. -/
theorem start_alike (fitness : FitnessConfig) (config : SearchConfig) (free : c.phase ≠ .running)
    (free' : c'.phase ≠ .running) (related : c.surroundings.Matches BothReachable c'.surroundings) :
    (c.start (makeEvaluator fitness) config).1 = (c'.start (makeEvaluator fitness) config).1 ∧
      (c.start (makeEvaluator fitness) config).2.surroundings.Matches BothReachable
        (c'.start (makeEvaluator fitness) config).2.surroundings ∧
      ((c.start (makeEvaluator fitness) config).1 = .ok () →
        Alike (c.start (makeEvaluator fitness) config).2
          (c'.start (makeEvaluator fitness) config).2) := by
  obtain ⟨sameMade, related, agrees⟩ :=
    makeEvaluator_agrees fitness config.mode config.sampleSize.given related
  have idle : c.isRunning = false := decide_eq_false free
  have idle' : c'.isRunning = false := decide_eq_false free'
  simp only [start, idle, idle', Bool.false_eq_true, if_false]
  generalize (makeEvaluator fitness config.mode config.sampleSize.given).run.run c.surroundings =
    made at sameMade related agrees ⊢
  generalize (makeEvaluator fitness config.mode config.sampleSize.given).run.run c'.surroundings =
    made' at sameMade related ⊢
  obtain ⟨evaluator, w⟩ := made
  obtain ⟨_, v⟩ := made'
  obtain rfl := sameMade
  cases evaluator with
  | error e => exact ⟨rfl, related, fun impossible => by cases impossible⟩
  | ok evaluator =>
      have evaluatorAgrees := agrees evaluator rfl
      obtain ⟨sameBegun, related⟩ : (Strategy.begin ⟨config, evaluator⟩ w).1 =
          (Strategy.begin ⟨config, evaluator⟩ v).1 ∧
            (Strategy.begin ⟨config, evaluator⟩ w).2.Matches BothReachable
              (Strategy.begin ⟨config, evaluator⟩ v).2 :=
        Strategy.begin_agrees evaluatorAgrees related
      dsimp only
      generalize Strategy.begin ⟨config, evaluator⟩ w = begun at sameBegun related ⊢
      generalize Strategy.begin ⟨config, evaluator⟩ v = begun' at sameBegun related ⊢
      obtain ⟨strategy, w⟩ := begun
      obtain ⟨_, v⟩ := begun'
      obtain rfl := sameBegun
      cases strategy with
      | error e => exact ⟨rfl, related, fun impossible => by cases impossible⟩
      | ok strategy =>
          refine ⟨rfl, related, fun _ => ⟨rfl, rfl, related, rfl, _, _, rfl, rfl, ?_⟩⟩
          exact ⟨rfl, rfl, evaluatorAgrees⟩

theorem Alike.isRunning (alike : Alike c c') : c.isRunning = c'.isRunning := by
  rw [Controller.isRunning, Controller.isRunning, alike.phase]

theorem stop_alike (alike : Alike c c') : Alike c.stop c'.stop := by
  unfold stop
  rw [← alike.isRunning]
  split
  · exact ⟨alike.phase, rfl, alike.surroundings, alike.result, alike.latest⟩
  · exact alike

theorem rest_alike (alike : Alike c c') (seconds : Float) :
    Alike (c.rest seconds) (c'.rest seconds) := by
  unfold rest
  split
  · exact ⟨alike.phase, alike.stopRequested, alike.surroundings, alike.result, alike.latest⟩
  · exact alike

/-- Runs that stand alike end alike. -/
theorem finish_alike (alike : Alike c c') {run run' : Run Oracle} (runs : run.Alike run')
    (phase : Phase) : Alike (c.finish run phase) (c'.finish run' phase) := by
  refine ⟨rfl, alike.stopRequested, alike.surroundings, ?_, alike.latest⟩
  simp only [finish, Option.map_some, SearchResult.untimed, runs.strategy]

/-- A step of runs that stand alike leads to the same, and they stand alike afterwards. -/
theorem stepped_alike (alike : Alike c c') {run run' : Run Oracle} (runs : run.Alike run') :
    c.outcome run = c'.outcome run' ∧ Alike (c.stepped run) (c'.stepped run') := by
  obtain ⟨plan, strategy, startedAt⟩ := run
  obtain ⟨_, _, startedAt'⟩ := run'
  obtain ⟨rfl, rfl, agrees⟩ := runs
  obtain ⟨same, sameStrategy, related⟩ : (strategy.step plan c.surroundings).1 =
      (strategy.step plan c'.surroundings).1 ∧ (strategy.step plan c.surroundings).2.1 =
        (strategy.step plan c'.surroundings).2.1 ∧
          (strategy.step plan c.surroundings).2.2.Matches BothReachable
            (strategy.step plan c'.surroundings).2.2 :=
    Strategy.step_agrees agrees strategy alike.surroundings
  refine ⟨?_, alike.phase, alike.stopRequested, related, alike.result, _, _, rfl, rfl, ?_⟩
  · unfold outcome
    rw [same]
  · exact ⟨rfl, sameStrategy, agrees⟩

/-- A tick takes the same step in both, or ends both runs. -/
theorem tick_alike (alike : Alike c c') : c.tick.1 = c'.tick.1 ∧ Alike c.tick.2 c'.tick.2 := by
  obtain ⟨run, run', latest, latest', runs⟩ := alike.latest
  by_cases running : c.phase = .running
  · have running' : c'.phase = .running := alike.phase.symm.trans running
    cases asked : c.stopRequested with
    | true =>
        have asked' : c'.stopRequested = true := alike.stopRequested.symm.trans asked
        rw [tick_of_stop running latest asked, tick_of_stop running' latest' asked']
        exact ⟨rfl, finish_alike alike runs .stopped⟩
    | false =>
        have free' : c'.stopRequested = false := alike.stopRequested.symm.trans asked
        have sameEnd : run.strategy.isFinished run.plan.config =
            run'.strategy.isFinished run'.plan.config := by rw [runs.strategy, runs.plan]
        cases finished : run.strategy.isFinished run.plan.config with
        | true =>
            rw [tick_of_finished running latest asked finished,
              tick_of_finished running' latest' free' (sameEnd ▸ finished)]
            exact ⟨rfl, finish_alike alike runs .completed⟩
        | false =>
            rw [tick_of_step running latest asked finished,
              tick_of_step running' latest' free' (sameEnd ▸ finished)]
            obtain ⟨same, stepped⟩ := stepped_alike alike runs
            exact ⟨congrArg (Except.map some) same, stepped⟩
  · have other : c'.phase ≠ .running := fun running' => running (alike.phase.trans running')
    rw [tick_of_not_running running, tick_of_not_running other]
    exact ⟨rfl, alike⟩

/-- Runs that stand alike are driven to the same end, and their observers are shown the same. -/
theorem drive_alike {α : Type} (observe : Report → StateM α Bool) (interval : Float) (ticks : Nat)
    (alike : Alike c c') (kept : α) :
    ((drive observe interval ticks c).run kept).1.1 =
        ((drive observe interval ticks c').run kept).1.1 ∧
      ((drive observe interval ticks c).run kept).2 =
        ((drive observe interval ticks c').run kept).2 ∧
      Alike ((drive observe interval ticks c).run kept).1.2
        ((drive observe interval ticks c').run kept).1.2 := by
  induction ticks generalizing c c' kept with
  | zero => exact ⟨rfl, rfl, alike⟩
  | succ ticks ih =>
      unfold drive
      rw [← alike.isRunning]
      cases c.isRunning with
      | false => exact ⟨rfl, rfl, alike⟩
      | true =>
          obtain ⟨sameTick, ticked⟩ := tick_alike alike
          simp only [if_true]
          generalize c.tick = after at sameTick ticked ⊢
          generalize c'.tick = after' at sameTick ticked ⊢
          obtain ⟨outcome, c⟩ := after
          obtain ⟨_, c'⟩ := after'
          obtain rfl := sameTick
          rcases outcome with e | _ | report
          · exact ⟨rfl, rfl, ticked⟩
          · exact ih ticked kept
          · -- The observer has kept the same so far, so it asks for the same.
            apply ih (rest_alike _ interval)
            split
            · exact stop_alike ticked
            · exact ticked

end

/-! ### Calls -/

/-- The oracle of a controller was asked for some things, and so it will be by a run that is going
on, which stands like itself. -/
structure Asks (c : Controller Oracle) : Prop where
  memory : c.surroundings.memory.Reachable
  running : c.phase = .running → Alike c c

theorem Asks.start {c : Controller Oracle} (asks : Asks c) (fitness : FitnessConfig)
    (config : SearchConfig) : Asks (c.start (makeEvaluator fitness) config).2 := by
  by_cases running : c.phase = .running
  · rw [start_of_running running]
    exact asks
  · obtain ⟨-, related, begins⟩ := start_alike fitness config running running
      ⟨rfl, asks.memory, asks.memory⟩
    refine ⟨related.memory.1, fun going => ?_⟩
    cases outcome : (c.start (makeEvaluator fitness) config).1 with
    | ok _ => exact begins outcome
    | error e =>
        obtain ⟨w, same⟩ := start_eq_error (Prod.ext outcome rfl)
        exact absurd ((congrArg Controller.phase same).symm.trans going) running

theorem Asks.stop {c : Controller Oracle} (asks : Asks c) : Asks c.stop := by
  by_cases running : c.phase = .running
  · have alike := stop_alike (asks.running running)
    exact ⟨alike.surroundings.memory.1, fun _ => alike⟩
  · rw [stop_of_not_running running]
    exact asks

theorem Asks.tick {c : Controller Oracle} (asks : Asks c) : Asks c.tick.2 := by
  by_cases running : c.phase = .running
  · obtain ⟨-, alike⟩ := tick_alike (asks.running running)
    exact ⟨alike.surroundings.memory.1, fun _ => alike⟩
  · rw [tick_of_not_running running]
    exact asks

/-- Whatever a controller is called for, its oracle is only ever asked for more. -/
theorem Asks.afterAll (fitness : FitnessConfig) {a : Account Oracle} (asks : Asks a.controller)
    (calls : List Call) : Asks (a.afterAll (makeEvaluator fitness) calls).controller := by
  unfold Account.afterAll
  induction calls generalizing a with
  | nil => exact asks
  | cons call calls ih =>
      apply ih
      rw [Account.controller_after]
      cases call with
      | start config => exact asks.start fitness config
      | stop => exact asks.stop
      | tick => exact asks.tick

/-! ### Runs -/

/-- What the oracle remembers has no influence.  Take two controllers without a run going on, whose
sources are the same and whose oracles were asked for anything, each for its own.  For all settings a
run is refused by both for the same reason, or it shows the same reports to its observer, and ends
with the same result but for the time, or with the same error.  An evaluator that is made in both
scores every candidate alike, whatever the oracles are asked in the meantime.  All that runs do with
an oracle is to ask it for things, so this includes oracles that were left behind by earlier runs. -/
theorem run_forgets (fitness : FitnessConfig) {c c' : Controller Oracle}
    (free : c.phase ≠ .running) (free' : c'.phase ≠ .running)
    (source : c.surroundings.source = c'.surroundings.source)
    (reachable : c.surroundings.memory.Reachable) (reachable' : c'.surroundings.memory.Reachable) :
    (∀ (config : SearchConfig) (α : Type) (observe : Report → StateM α Bool) (interval : Float)
        (kept : α),
      let ended := (c.run (makeEvaluator fitness) config observe interval).run kept
      let ended' := (c'.run (makeEvaluator fitness) config observe interval).run kept
      ended.1.1 = ended'.1.1 ∧ ended.2 = ended'.2 ∧
        ended.1.2.surroundings.Matches BothReachable ended'.1.2.surroundings ∧
        (ended.1.1 = .ok () → ∃ r r', ended.1.2.result = some r ∧ ended'.1.2.result = some r' ∧
          r' = { r with elapsed := r'.elapsed })) ∧
      (∀ mode size,
        let made := (makeEvaluator fitness mode size).run.run c.surroundings
        let made' := (makeEvaluator fitness mode size).run.run c'.surroundings
        made.1 = made'.1 ∧ made.2.Matches BothReachable made'.2 ∧
          ∀ e, made.1 = .ok e → ∀ (w w' : Surroundings Oracle), w.Matches BothReachable w' →
            ∀ candidate, ((e.evaluate candidate).run.run w).1 =
                ((e.evaluate candidate).run.run w').1 ∧
              ((e.evaluate candidate).run.run w).2.Matches BothReachable
                ((e.evaluate candidate).run.run w').2) ∧
      ∀ calls, (Account.afterAll (makeEvaluator fitness) ⟨c, []⟩
        calls).controller.surroundings.memory.Reachable := by
  have related : c.surroundings.Matches BothReachable c'.surroundings :=
    ⟨source, reachable, reachable'⟩
  refine ⟨?_, ?_, fun calls => ?_⟩
  · intro config α observe interval kept
    obtain ⟨same, surroundings, begins⟩ := start_alike fitness config free free' related
    unfold run
    generalize started : c.start (makeEvaluator fitness) config = start at same surroundings begins
    generalize c'.start (makeEvaluator fitness) config = start' at same surroundings begins
    obtain ⟨outcome, d⟩ := start
    obtain ⟨_, d'⟩ := start'
    obtain rfl := same
    cases outcome with
    | error e => exact ⟨rfl, rfl, surroundings, fun impossible => by cases impossible⟩
    | ok _ =>
        obtain ⟨sameOutcome, sameKept, ends⟩ := drive_alike observe interval
          (config.maxIterations.value + 1) (begins rfl) kept
        refine ⟨sameOutcome, sameKept, ends.surroundings, fun succeeds => ?_⟩
        obtain ⟨-, found⟩ := drive_ends observe interval (.start started) kept succeeds
        obtain ⟨r, result⟩ := Option.isSome_iff_exists.mp found
        have sameResult := ends.result
        rw [result] at sameResult
        obtain ⟨r', result', untimed⟩ := Option.map_eq_some_iff.mp sameResult.symm
        exact ⟨r, r', result, result', SearchResult.eq_of_untimed untimed⟩
  · intro mode size made made'
    obtain ⟨same, surroundings, agrees⟩ := makeEvaluator_agrees fitness mode size related
    refine ⟨same, surroundings, fun e evaluator w w' matching candidate => ?_⟩
    exact (agrees e evaluator).evaluate candidate matching
  · have asks : Asks c := ⟨reachable, fun running => absurd running free⟩
    exact (asks.afterAll fitness calls (a := ⟨c, []⟩)).memory

/-- A run of two steps, after nothing and after some questions to a smaller memory.  Both show the
same two reports and end with the same result. -/
theorem run_forgets_questions :
    let config : SearchConfig :=
      { maxIterations := .ofNat 2, maxDepth := .ofNat 0, sampleSize := .ofNat 3 }
    let source : Source := ⟨[0.5], 7, 0⟩
    let asked := (Oracle.empty 50).run [.isPrime 41, .preCache 10, .isPrime 42]
    let c := new ⟨source, .empty 1000⟩ ⟨0.0, 0.25, []⟩
    let c' := new ⟨source, asked⟩ ⟨0.0, 0.25, []⟩
    let collect (report : Report) : StateM (List Report) Bool :=
      fun reports => (false, reports ++ [report])
    let ended := (c.run (makeEvaluator default) config collect 0.0).run []
    let ended' := (c'.run (makeEvaluator default) config collect 0.0).run []
    asked.primes.toList = [2, 3, 5, 7, 41] ∧ ended.2.map (·.iteration) = [1, 2] ∧
      ended.2 = ended'.2 ∧
        ∃ r r', ended.1.2.result = some r ∧ ended'.1.2.result = some r' ∧
          r' = { r with elapsed := r'.elapsed } := by
  intro config source asked c c' collect ended ended'
  have reachable : (Oracle.empty 1000).Reachable := ⟨1000, [], by decide, by decide, rfl⟩
  have reachable' : asked.Reachable := ⟨50, _, by decide, by decide, rfl⟩
  obtain ⟨known, succeeds, reported⟩ : asked.primes.toList = [2, 3, 5, 7, 41] ∧
      ended.1.1.toBool = true ∧ ended.2.map (·.iteration) = [1, 2] := by
    decide +kernel
  have forgets := (@run_forgets default c c' (fun running => by cases running)
    (fun running => by cases running) rfl reachable reachable').1 config (List Report) collect
      0.0 []
  have first : (c.run (makeEvaluator default) config collect 0.0).run [] = ended := rfl
  have second : (c'.run (makeEvaluator default) config collect 0.0).run [] = ended' := rfl
  simp only [first, second] at forgets
  clear_value ended ended'
  obtain ⟨-, same, -, results⟩ := forgets
  refine ⟨known, reported, same, results ?_⟩
  cases outcome : ended.1.1 with
  | ok _ => rfl
  | error e =>
      rw [outcome] at succeeds
      cases succeeds

end Controller

end PrimeSearch
