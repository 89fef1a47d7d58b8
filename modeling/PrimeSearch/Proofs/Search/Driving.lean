/-
Module: PrimeSearch.Proofs.Search.Driving
Purpose: With settings in whole numbers a search begins, unless something is too long to be laid out,
  and once begun it is driven to its end without an error.
Main exports: Mode.sizeFault, makeEvaluator_whole, SearchConfig.Whole, SearchConfig.startFault,
  Controller.EndsWithin, Controller.drive_ends, Controller.Steady, Controller.drive_succeeds,
  Controller.start_whole
-/
import PrimeSearch.Proofs.Prime.Memory
import PrimeSearch.Proofs.Search.Protocol

namespace PrimeSearch

/-!
Two things can be too long: the table of marks that the samples of two functions are taken from, and the
history of late acceptance.  Neither is checked with the settings.  Everything else that could go
wrong later is ruled out by the settings, or by the evaluator being of the mode of the search.
-/

variable {σ α : Type}

/-! ### Evaluators -/

/-- Why there is no evaluator for samples of a whole size. -/
def Mode.sizeFault (mode : Mode) (n : Int) : Option OracleError :=
  if n < 1 then some (.sampleSize (.whole n))
  else if mode = .primeFold ∧ largestBound < 5 * n then some (.misfit .tableTooLong)
  else none

/-- Samples of a whole size are found, or refused for what is wrong with it. -/
theorem Oracle.Reliable.samplesFor_whole {o : Oracle} (reliable : o.Reliable) (n : Int) :
    match Mode.primeFold.sizeFault n with
    | some e => (o.samplesFor (.whole n)).1 = .error e
    | none => ∃ samples, (o.samplesFor (.whole n)).1 = .ok samples := by
  unfold Mode.sizeFault
  by_cases long : largestBound < 5 * n
  · have positive : ¬n < 1 := by
      simp only [largestBound] at long
      omega
    have whole : (Quantity.whole n).whole? = some n := rfl
    have refused : boundFor (5 * n) = .error (.misfit .tableTooLong) := if_pos long
    rw [if_neg positive, if_pos ⟨rfl, long⟩, reliable.samplesFor_tooLong whole refused]
  · have bounded : boundFor (5 * n) = .ok (5 * n).toNat := if_neg long
    have asked : o.samplesFor (.whole n) = o.sampleData n := by
      unfold Oracle.samplesFor
      dsimp only [Quantity.whole?]
      rw [bounded]
    have short : ¬(Mode.primeFold = .primeFold ∧ largestBound < 5 * n) := fun both => long both.2
    rw [asked, Oracle.sampleData]
    by_cases small : n < 1
    · rw [if_pos small, if_pos small]
    · rw [if_neg small, if_neg short, if_neg small]
      exact ⟨_, rfl⟩

/-- There is an evaluator for samples of a whole size, unless something is wrong with it. -/
theorem makeEvaluator_whole (fitness : FitnessConfig) (mode : Mode) (n : Int)
    {w : Surroundings Oracle} (reliable : w.memory.Reliable) :
    match mode.sizeFault n with
    | some e => ∃ v, (makeEvaluator fitness mode (.whole n)).run.run w = (.error e, v)
    | none => ∃ evaluator v,
        (makeEvaluator fitness mode (.whole n)).run.run w = (.ok evaluator, v) := by
  cases mode with
  | primeGen =>
      unfold Mode.sizeFault makeEvaluator
      by_cases small : n < 1
      · have below : (Quantity.whole n).isBelow 1 = true := decide_eq_true small
        rw [if_pos small, below]
        exact ⟨w, rfl⟩
      · have enough : (Quantity.whole n).isBelow 1 = false := decide_eq_false small
        have short : ¬(Mode.primeGen = .primeFold ∧ largestBound < 5 * n) := fun both => nomatch both.1
        rw [if_neg small, if_neg short, enough]
        exact ⟨_, w, rfl⟩
  | primeFold =>
      have run : (makeEvaluator fitness .primeFold (.whole n)).run.run w =
          ((w.memory.samplesFor (.whole n)).1.map fun samples =>
            (FoldTest.mk (samples.1.map Int.ofNat) (samples.2.map Int.ofNat) fitness).evaluator,
            { w with memory := (w.memory.samplesFor (.whole n)).2 }) := rfl
      have asked := reliable.samplesFor_whole n
      rw [run]
      revert asked
      cases Mode.primeFold.sizeFault n with
      | some e => exact fun asked => ⟨_, by rw [asked]; rfl⟩
      | none => exact fun ⟨samples, asked⟩ => ⟨_, _, by rw [asked]; rfl⟩

/-! ### Searches that begin -/

/-- Settings in whole numbers, and a search that can make its steps with them. -/
structure SearchConfig.Whole (c : SearchConfig) : Prop extends c.Proper where
  size : c.sampleSize.given = .whole c.sampleSize.value
  history : c.historyLength.isWhole = true

/-- Why no search begins with settings in whole numbers. -/
def SearchConfig.startFault (c : SearchConfig) : Option ControllerError :=
  match c.mode.sizeFault c.sampleSize.value with
  | some e => some (.evaluator e)
  | none =>
      if c.algorithm = .lateAcceptance ∧ Strategy.longestHistory < c.historyLength.value then
        some (.search (.misfit .tooLong))
      else none

namespace Strategy

variable {ε : Type} {p : Plan σ}

/-- What an algorithm begins with is no reason to fail for an evaluator of its mode. -/
theorem split_succeeds (fits : p.Fits) (wrap : Progress ε → Strategy)
    {begun : Except SearchError Unit × Search σ ε}
    (reason : ∀ e, begun.1 = .error e → p.Mismatches (fun c => c.mode = p.config.mode) e) :
    ∃ s, (split wrap begun).1 = .ok s := by
  obtain ⟨outcome, s⟩ := begun
  cases outcome with
  | ok _ => exact ⟨_, rfl⟩
  | error e => exact absurd (reason e rfl) fits.not_mismatches

/-- A search with a history of whole length begins, unless that is too great. -/
theorem begin_whole (fits : p.Fits) (whole : p.config.historyLength.isWhole = true)
    (w : Surroundings σ) :
    if p.config.algorithm = .lateAcceptance ∧ longestHistory < p.config.historyLength.value then
      (begin p w).1 = .error (.misfit .tooLong)
    else ∃ s, (begin p w).1 = .ok s := by
  unfold begin
  cases p.config.algorithm with
  | lateAcceptance =>
      obtain ⟨s, begun⟩ : ∃ s, (split .lateAcceptance (LateAcceptance.begin p w)).1 = .ok s :=
        split_succeeds fits .lateAcceptance (p.closed_inMode.begin (fun _ => []) _ rfl trivial).2
      have counted : ¬(!p.config.historyLength.isWhole) = true := by simp [whole]
      dsimp only
      rw [requireLength, if_neg counted]
      by_cases long : longestHistory < p.config.historyLength.value
      · rw [if_pos ⟨rfl, long⟩, if_pos long]
        rw [begun]
        rfl
      · rw [if_neg fun tooLong => long tooLong.2, if_neg long]
        exact ⟨s, begun⟩
  | genetic =>
      rw [if_neg fun tooLong => nomatch tooLong.1]
      exact split_succeeds fits .genetic (Genetic.begin_holds p.closed_inMode trivial).2
  | annealing =>
      rw [if_neg fun tooLong => nomatch tooLong.1]
      exact split_succeeds fits .annealing
        (p.closed_inMode.begin (fun _ => []) _ rfl trivial).2

end Strategy

/-! ### Driving a search -/

namespace Controller

variable {c d : Controller σ} {ticks : Nat} {run : Run σ}

/-- A run has ended, or it ends within so many ticks: a tick for every step that is left, and one to
end it. -/
structure EndsWithin (ticks : Nat) (c : Controller σ) : Prop where
  running : c.phase = .running → ∃ run count, c.latest = some run ∧ run.Counted count ∧
    run.plan.config.maxIterations.value < count + ticks
  ended : c.phase ≠ .running → c.result.isSome

/-- A run takes no more steps than were asked for, so without ticks it has ended. -/
theorem EndsWithin.over (within : EndsWithin 0 c) : c.phase ≠ .running ∧ c.result.isSome := by
  have other : c.phase ≠ .running := by
    intro running
    obtain ⟨run, count, -, counted, left⟩ := within.running running
    exact absurd left (Nat.not_lt.mpr counted.bounded)
  exact ⟨other, within.ended other⟩

theorem EndsWithin.stop (within : EndsWithin ticks c) : EndsWithin ticks c.stop := by
  unfold Controller.stop
  split
  · exact ⟨within.running, within.ended⟩
  · exact within

theorem EndsWithin.rest (within : EndsWithin ticks c) (seconds : Float) :
    EndsWithin ticks (c.rest seconds) := by
  unfold Controller.rest
  split
  · exact ⟨within.running, within.ended⟩
  · exact within

theorem EndsWithin.start {evaluators : EvaluatorSource σ} {config : SearchConfig}
    (started : c.start evaluators config = (.ok (), d)) :
    EndsWithin (config.maxIterations.value + 1) d := by
  obtain ⟨run, running, latest, -, -, rfl, w, v, -, begun⟩ := start_eq_ok started
  constructor
  · intro _
    refine ⟨run, 0, latest, ⟨Strategy.begin_counts begun, Nat.zero_le _⟩, ?_⟩
    rw [Nat.zero_add]
    exact Nat.lt_succ_self _
  · intro other
    exact absurd running other

theorem EndsWithin.finish {phase : Phase} (ends : phase = .stopped ∨ phase = .completed) :
    EndsWithin ticks (c.finish run phase) where
  running going := by
    obtain rfl : phase = .running := going
    rcases ends with ends | ends <;> cases ends
  ended _ := rfl

/-- A step is counted, so there is one tick less to wait for. -/
theorem EndsWithin.stepped (running : c.phase = .running) {count : Nat}
    (counted : run.Counted count)
    (left : run.strategy.iteration < run.plan.config.maxIterations.value)
    (enough : run.plan.config.maxIterations.value < count + (ticks + 1)) :
    EndsWithin ticks (c.stepped run) := by
  obtain ⟨rfl, -⟩ := counted
  constructor
  · intro _
    refine ⟨_, run.strategy.iteration + 1, rfl, ⟨?_, left⟩, ?_⟩
    · exact (Strategy.step_counts run.plan run.strategy c.surroundings).1
    · rw [Nat.add_right_comm]
      exact enough
  · intro other
    exact absurd running other

/-- A run that is driven without an error has ended. -/
theorem drive_ends (observe : Report → StateM α Bool) (interval : Float)
    (within : EndsWithin ticks c) (kept : α)
    (succeeds : ((drive observe interval ticks c).run kept).1.1 = .ok ()) :
    ((drive observe interval ticks c).run kept).1.2.phase ≠ .running ∧
      ((drive observe interval ticks c).run kept).1.2.result.isSome := by
  -- Every tick ends the run or counts a step, and both leave one tick less to wait for.
  induction ticks generalizing c kept with
  | zero => exact within.over
  | succ ticks ih =>
      unfold drive at succeeds ⊢
      cases running : c.isRunning with
      | false =>
          have other : c.phase ≠ .running := of_decide_eq_false running
          exact ⟨other, within.ended other⟩
      | true =>
          have going : c.phase = .running := isRunning_iff.mp running
          obtain ⟨run, count, latest, counted, enough⟩ := within.running going
          simp only [running, if_true] at succeeds ⊢
          rcases tick_cases fun _ => latest with ⟨other, -⟩ | ⟨-, phase, ends, tick⟩ |
            ⟨-, left, tick⟩
          · exact absurd going other
          · rw [tick] at succeeds ⊢
            exact ih (.finish ends) kept succeeds
          · rw [tick] at succeeds ⊢
            cases outcome : c.outcome run with
            | error e =>
                rw [outcome] at succeeds
                cases succeeds
            | ok report =>
                rw [outcome] at succeeds
                refine ih (.rest ?_ interval) _ succeeds
                have stepped := EndsWithin.stepped going counted left enough
                split
                · exact stepped.stop
                · exact stepped

/-- The search of the latest run can make its steps, and a result is that of a search that was
stopped or completed. -/
structure Steady (c : Controller σ) : Prop where
  able : ∀ run, c.latest = some run →
    run.plan.Fits ∧ run.plan.config.Proper ∧ run.strategy.InMode run.plan.config.mode
  settled : ∀ r, c.result = some r → r.status = .stopped ∨ r.status = .completed

theorem Steady.stop (steady : Steady c) : Steady c.stop := by
  unfold Controller.stop
  split
  next => exact ⟨steady.able, steady.settled⟩
  next => exact steady

theorem Steady.rest (steady : Steady c) (seconds : Float) : Steady (c.rest seconds) := by
  unfold Controller.rest
  split
  next => exact ⟨steady.able, steady.settled⟩
  next => exact steady

theorem Steady.finish (steady : Steady c) {run : Run σ} {phase : Phase}
    (ends : phase = .stopped ∨ phase = .completed) : Steady (c.finish run phase) := by
  refine ⟨steady.able, fun r result => ?_⟩
  obtain rfl := Option.some.inj result
  exact ends

/-- A step of a search that can make its steps leads to a report. -/
theorem Steady.stepped (steady : Steady c) {run : Run σ} (latest : c.latest = some run) :
    (∃ report, c.outcome run = .ok report) ∧ Steady (c.stepped run) := by
  obtain ⟨fits, proper, inMode⟩ := steady.able run latest
  obtain ⟨⟨r, succeeds⟩, after⟩ := Strategy.step_succeeds fits proper inMode c.surroundings
  refine ⟨⟨_, by rw [outcome, succeeds]⟩, fun run' latest' => ?_, steady.settled⟩
  obtain rfl := Option.some.inj latest'
  exact ⟨fits, proper, after⟩

/-- A tick of a search that can make its steps does not fail. -/
theorem Steady.tick (steady : Steady c) :
    (∃ report, c.tick.1 = .ok report) ∧ Steady c.tick.2 := by
  cases latest : c.latest with
  | none =>
      have nothing : c.tick = (.ok none, c) := by
        unfold Controller.tick
        split
        next found => cases latest.symm.trans found
        next => rfl
      rw [nothing]
      exact ⟨⟨none, rfl⟩, steady⟩
  | some run =>
      rcases tick_cases fun _ => latest with ⟨-, tick⟩ | ⟨-, phase, ends, tick⟩ | ⟨-, -, tick⟩
      next => rw [tick]; exact ⟨⟨none, rfl⟩, steady⟩
      next => rw [tick]; exact ⟨⟨none, rfl⟩, steady.finish ends⟩
      next =>
        obtain ⟨⟨report, led⟩, after⟩ := steady.stepped latest
        rw [tick, led]
        exact ⟨⟨some report, rfl⟩, after⟩

/-- A search that can make its steps is driven without an error, and what the observer keeps true of
what it keeps stays true. -/
theorem drive_succeeds {I : α → Prop} {observe : Report → StateM α Bool}
    (observed : ∀ r kept, I kept → I ((observe r).run kept).2) (interval : Float) (ticks : Nat)
    (steady : Steady c) (kept : α) (holds : I kept) :
    ((drive observe interval ticks c).run kept).1.1 = .ok () ∧
      ((drive observe interval ticks c).run kept).1.2.Steady ∧
      I ((drive observe interval ticks c).run kept).2 := by
  induction ticks generalizing c kept with
  | zero => exact ⟨rfl, steady, holds⟩
  | succ ticks ih =>
      unfold drive
      cases running : c.isRunning with
      | false => exact ⟨rfl, steady, holds⟩
      | true =>
          obtain ⟨⟨report, ticked⟩, after⟩ := steady.tick
          generalize c.tick = outcome at ticked after
          obtain ⟨answer, c'⟩ := outcome
          obtain rfl : answer = .ok report := ticked
          cases report with
          | none => exact ih after kept holds
          | some report =>
              refine ih (Steady.rest ?_ interval) _ (observed report kept holds)
              split
              next => exact after.stop
              next => exact after

/-- With settings in whole numbers a run begins that can make its steps, unless something is too
long. -/
theorem start_whole (fitness : FitnessConfig) {config : SearchConfig} (whole : config.Whole)
    {c : Controller Oracle} (free : c.phase ≠ .running)
    (reliable : c.surroundings.memory.Reliable) :
    match config.startFault with
    | some e => ∃ d, c.start (makeEvaluator fitness) config = (.error e, d)
    | none => ∃ d, c.start (makeEvaluator fitness) config = (.ok (), d) ∧ d.Steady := by
  have made := makeEvaluator_whole fitness config.mode config.sampleSize.value reliable
  rw [← whole.size] at made
  have idle : ¬c.isRunning = true := fun running => free (isRunning_iff.mp running)
  unfold SearchConfig.startFault
  unfold start
  rw [if_neg idle]
  cases fault : config.mode.sizeFault config.sampleSize.value with
  | some e =>
      rw [fault] at made
      obtain ⟨v, made⟩ := made
      rw [made]
      exact ⟨_, rfl⟩
  | none =>
      rw [fault] at made
      obtain ⟨evaluator, v, made⟩ := made
      rw [made]
      have fits : Plan.Fits ⟨config, evaluator⟩ := makeEvaluator_fits fitness _ _ _ _ _ made
      have begun := Strategy.begin_whole fits whole.history v
      generalize outcome : Strategy.begin ⟨config, evaluator⟩ v = began at begun
      obtain ⟨answer, w⟩ := began
      dsimp only at begun ⊢
      split at begun
      next tooLong =>
        rw [if_pos tooLong, outcome]
        obtain rfl : answer = _ := begun
        exact ⟨_, rfl⟩
      next within =>
        obtain ⟨strategy, succeeded⟩ := begun
        obtain rfl : answer = .ok strategy := succeeded
        rw [if_neg within, outcome]
        refine ⟨_, rfl, fun run latest => ?_, fun r ended => nomatch ended⟩
        obtain rfl := Option.some.inj latest
        exact ⟨fits, whole.toProper, Strategy.begin_inMode outcome⟩

end Controller

end PrimeSearch
