/-
Module: PrimeSearch.Proofs.Search.Concluding
Purpose: What a whole run amounts to: a report for every step, shown in order until a stop is asked
  for, and one result that is announced.
Main exports: Rises, Strategy.step_rises, Steps, Shown, Controller.Driven, Controller.drive_driven,
  Controller.Concludes, Controller.conduct_concludes
-/
import PrimeSearch.Proofs.Search.Driving

namespace PrimeSearch

/-!
A controller that drives a search keeps three things in step: the search, what its observer keeps, and
the ticks that are left.  A run is told by its steps and by what the observer has made of their reports.
If the observer asks for a stop, the report at which it does is the last one, for the next tick ends
the run, also when that step was the last that was allowed.
-/

variable {σ ε α : Type}

/-! ### Best scores -/

/-- A best score that is as it was, or has become greater. -/
def Rises (before after : Option Score) : Prop :=
  after = before ∨ effective before < effective after

namespace Rises

variable {a b c : Option Score}

theorem refl (a : Option Score) : Rises a a := .inl rfl

theorem trans (first : Rises a b) (second : Rises b c) : Rises a c := by
  rcases second with rfl | second
  · exact first
  rcases first with rfl | first
  · exact .inr second
  · exact .inr (Binary64.lt_of_le_of_lt (Binary64.le_of_lt first) second)

end Rises

/-- The best score has risen since it was a given one. -/
def Search.HasRisen (since : Option Score) (s : Search σ ε) : Prop := Rises since s.bestScore

theorem Plan.neutral_rises (p : Plan σ) (since : Option Score) :
    p.Neutral (Search.HasRisen (ε := ε) since) where
  quiet := by
    rintro s t holds ⟨source, -, rfl⟩
    exact holds
  best _ _ _ holds better := holds.trans (.inr better)
  current _ _ _ holds := holds
  own _ _ holds := holds
  scored s c holds _ := by
    apply (p.evaluate_ends c s).mono
    · rintro _ _ ⟨-, rfl⟩
      exact holds
    · rintro _ rfl
      exact holds

namespace Strategy

theorem run_rises {wrap : Progress ε → Strategy} {move : Move σ ε StepResult}
    (told : ∀ s, (wrap s).bestScore = s.bestScore) (s : Progress ε) (w : Surroundings σ)
    (finishes : Move.FinishesStep (Search.HasRisen s.bestScore) move) :
    Rises s.bestScore (run wrap move s w).2.1.bestScore ∧
      ∀ r, (run wrap move s w).1 = .ok r → r.bestScore = (run wrap move s w).2.1.bestScore := by
  obtain ⟨t, left, risen, describes⟩ := run_finishes wrap finishes s w (.refl _)
  have best : (wrap t.toProgress).bestScore = t.bestScore := told _
  rw [left, best]
  exact ⟨risen, fun r succeeds => (describes r succeeds).2.2.2.2⟩

/-- In a step the best score rises, and the result of the step tells the best score. -/
theorem step_rises (p : Plan σ) (s : Strategy) (w : Surroundings σ) :
    Rises s.bestScore (step p s w).2.1.bestScore ∧
      ∀ r, (step p s w).1 = .ok r → r.bestScore = (step p s w).2.1.bestScore := by
  unfold step
  split
  · cases s <;> exact ⟨.refl _, fun r succeeds => by cases succeeds⟩
  · cases s with
    | lateAcceptance s =>
        exact run_rises (fun _ => rfl) s w (LateAcceptance.step_finishes (p.neutral_rises _))
    | genetic s => exact run_rises (fun _ => rfl) s w (Genetic.step_finishes (p.neutral_rises _))
    | annealing s =>
        exact run_rises (fun _ => rfl) s w (Annealing.step_finishes (p.neutral_rises _))

end Strategy

/-! ### Steps and their reports -/

/-- Steps of a search that succeed, one after the other, with a report of each. -/
inductive Steps (p : Plan σ) :
    Strategy → Surroundings σ → List Report → Strategy → Surroundings σ → Prop where
  | none (s : Strategy) (w : Surroundings σ) : Steps p s w [] s w
  | more {s t u : Strategy} {w v x : Surroundings σ} {r : StepResult} {reports : List Report}
      (step : s.step p w = (.ok r, t, v)) (rest : Steps p t v reports u x) :
      Steps p s w (.ofStep r p.config.maxIterations.given :: reports) u x

namespace Steps

variable {p : Plan σ} {s t : Strategy} {w v : Surroundings σ} {reports : List Report}

/-- The reports are numbered on from the steps that were taken before. -/
theorem counts (steps : Steps p s w reports t v) :
    reports.map (·.iteration) = List.range' (s.iteration + 1) reports.length ∧
      t.iteration = s.iteration + reports.length := by
  induction steps with
  | none => exact ⟨rfl, rfl⟩
  | @more s t u w v x r reports step _ ih =>
      obtain ⟨counted, told⟩ := Strategy.step_counts p s w
      rw [step] at counted told
      obtain ⟨numbered, last⟩ := ih
      rw [counted] at numbered last
      constructor
      · rw [List.map_cons, numbered, List.length_cons, List.range'_succ]
        exact congrArg (· :: _) (told r rfl)
      · rw [last, List.length_cons, Nat.add_right_comm, Nat.add_assoc]

/-- The best scores rise from report to report. -/
theorem rises (steps : Steps p s w reports t v) :
    (∀ report ∈ reports, Rises s.bestScore report.bestScore) ∧
      reports.Pairwise fun early late => Rises early.bestScore late.bestScore := by
  induction steps with
  | none => exact ⟨List.forall_mem_nil _, .nil⟩
  | @more s t u w v x r reports step _ ih =>
      obtain ⟨risen, told⟩ := Strategy.step_rises p s w
      rw [step] at risen told
      obtain ⟨since, between⟩ := ih
      have best : r.bestScore = t.bestScore := told r rfl
      have after : ∀ report ∈ reports, Rises r.bestScore report.bestScore := best ▸ since
      refine ⟨?_, .cons after between⟩
      intro report listed
      rcases List.mem_cons.mp listed with rfl | later
      · have here : Rises s.bestScore r.bestScore := best ▸ risen
        exact here
      · exact risen.trans (since report later)

end Steps

/-- Reports are shown one after the other, until a stop is asked for at one of them. -/
inductive Shown (observe : Report → StateM α Bool) :
    α → List Report → Option Report → α → Prop where
  | all (kept : α) : Shown observe kept [] none kept
  | stops {kept kept' : α} {report : Report} (asked : (observe report).run kept = (true, kept')) :
      Shown observe kept [report] (some report) kept'
  | goesOn {kept kept' kept'' : α} {report : Report} {reports : List Report} {stop : Option Report}
      (silent : (observe report).run kept = (false, kept'))
      (rest : Shown observe kept' reports stop kept'') :
      Shown observe kept (report :: reports) stop kept''

/-- The report at which a stop is asked for is the last one. -/
theorem Shown.last {observe : Report → StateM α Bool} {kept kept' : α} {reports : List Report}
    {report : Report} (shown : Shown observe kept reports (some report) kept') :
    reports.getLast? = some report := by
  generalize last : some report = stop at shown
  induction shown with
  | all => cases last
  | stops =>
      cases last
      rfl
  | goesOn _ _ ih =>
      rw [List.getLast?_cons, ih last, ← last]
      rfl

/-! ### Driving -/

/-- How a run goes on that is driven in some surroundings: all its steps are reported and shown, and it
fails at a step, or it has stopped where its observer asked for that, or it has taken every step. -/
inductive Driven (observe : Report → StateM α Bool) (run : Run σ) (w : Surroundings σ) (kept : α) :
    (Except ControllerError Unit × Controller σ) × α → Prop where
  | failed {s : Strategy} {v : Surroundings σ} {reports : List Report} {kept' : α}
      {e : SearchError} {d : Controller σ} (steps : Steps run.plan run.strategy w reports s v)
      (shown : Shown observe kept reports none kept')
      (left : s.iteration < run.plan.config.maxIterations.value)
      (fails : (s.step run.plan v).1 = .error e) :
      Driven observe run w kept ((.error (.search e), d), kept')
  | ended {s : Strategy} {v : Surroundings σ} {reports : List Report} {stop : Option Report}
      {kept' : α} {r : SearchResult} {d : Controller σ}
      (steps : Steps run.plan run.strategy w reports s v)
      (shown : Shown observe kept reports stop kept')
      (bounded : s.iteration ≤ run.plan.config.maxIterations.value)
      (left : d.latest = some { run with strategy := s } ∧ d.surroundings = v)
      (result : d.result = some r)
      (tells : r.Tells { run with strategy := s } d.phase s.iteration)
      (completed : stop = none → d.phase = .completed ∧
        s.iteration = run.plan.config.maxIterations.value)
      (stopped : stop ≠ none → d.phase = .stopped) :
      Driven observe run w kept ((.ok (), d), kept')

namespace Driven

variable {observe : Report → StateM α Bool} {run : Run σ} {w v : Surroundings σ} {kept kept' : α}
  {t : Strategy} {r : StepResult} {out : (Except ControllerError Unit × Controller σ) × α}

/-- A step that is shown without being asked to stop comes before the others. -/
theorem more (step : run.strategy.step run.plan w = (.ok r, t, v))
    (silent : (observe (.ofStep r run.plan.config.maxIterations.given)).run kept = (false, kept'))
    (driven : Driven observe { run with strategy := t } v kept' out) :
    Driven observe run w kept out := by
  cases driven with
  | failed steps shown left fails =>
      exact .failed (.more step steps) (.goesOn silent shown) left fails
  | ended steps shown bounded left result tells completed stopped =>
      exact .ended (.more step steps) (.goesOn silent shown) bounded left result tells completed
        stopped

end Driven

namespace Controller

variable {c d : Controller σ} {run : Run σ} {ticks : Nat}

/-- A run is going on, and no stop was asked for. -/
structure Going (c : Controller σ) (run : Run σ) : Prop where
  running : c.phase = .running
  latest : c.latest = some run
  free : c.stopRequested = false

/-- A pause changes the time and nothing else. -/
theorem rest_eq (c : Controller σ) (seconds : Float) :
    ∃ watch, c.rest seconds = { c with watch } := by
  unfold Controller.rest
  split
  · exact ⟨_, rfl⟩
  · exact ⟨c.watch, rfl⟩

theorem drive_of_not_running (other : c.phase ≠ .running) (observe : Report → StateM α Bool)
    (interval : Float) (ticks : Nat) (kept : α) :
    (drive observe interval ticks c).run kept = ((.ok (), c), kept) := by
  cases ticks with
  | zero => rfl
  | succ ticks =>
      have idle : c.isRunning = false := decide_eq_false other
      unfold drive
      rw [idle]
      rfl

/-- A tick that ends the run is the last one. -/
theorem drive_of_end (running : c.phase = .running) (tick : c.tick = (.ok none, d))
    (ended : d.phase ≠ .running) (observe : Report → StateM α Bool) (interval : Float)
    (ticks : Nat) (kept : α) :
    (drive observe interval (ticks + 1) c).run kept = ((.ok (), d), kept) := by
  unfold drive
  rw [isRunning_iff.mpr running, tick]
  exact drive_of_not_running ended observe interval ticks kept

theorem drive_of_error {e : ControllerError} (running : c.phase = .running)
    (tick : c.tick = (.error e, d)) (observe : Report → StateM α Bool) (interval : Float)
    (ticks : Nat) (kept : α) :
    (drive observe interval (ticks + 1) c).run kept = ((.error e, d), kept) := by
  unfold drive
  rw [isRunning_iff.mpr running, tick]
  rfl

/-- A report is shown, and what the observer says about it comes before the next tick. -/
theorem drive_of_report {report : Report} {observe : Report → StateM α Bool} {kept kept' : α}
    {halt : Bool} (running : c.phase = .running) (tick : c.tick = (.ok (some report), d))
    (shown : (observe report).run kept = (halt, kept')) (interval : Float) (ticks : Nat) :
    (drive observe interval (ticks + 1) c).run kept =
      (drive observe interval ticks ((if halt then d.stop else d).rest interval)).run kept' := by
  have observed : ∀ rest : Bool → StateM α (Except ControllerError Unit × Controller σ),
      (observe report >>= rest).run kept = (rest halt).run kept' := by
    intro rest
    rw [StateT.run_bind, shown]
    rfl
  rw [drive, if_pos (isRunning_iff.mpr running), tick]
  exact observed _

namespace Going

theorem rest (going : c.Going run) (seconds : Float) :
    (c.rest seconds).Going run ∧ (c.rest seconds).surroundings = c.surroundings := by
  obtain ⟨watch, rests⟩ := c.rest_eq seconds
  rw [rests]
  exact ⟨⟨going.running, going.latest, going.free⟩, rfl⟩

/-- If a step is left, a tick takes it: it fails with the step, or reports on it and goes on. -/
theorem tick (going : c.Going run) (left : run.strategy.isFinished run.plan.config = false) :
    (∃ e d, (run.strategy.step run.plan c.surroundings).1 = .error e ∧
      c.tick = (.error (.search e), d)) ∨
    ∃ r t d, run.strategy.step run.plan c.surroundings = (.ok r, t, d.surroundings) ∧
      c.tick = (.ok (some (.ofStep r run.plan.config.maxIterations.given)), d) ∧
      d.Going { run with strategy := t } := by
  have tick := tick_of_step going.running going.latest going.free left
  rw [outcome] at tick
  cases answer : (run.strategy.step run.plan c.surroundings).1 with
  | error e =>
      rw [answer] at tick
      exact .inl ⟨e, _, rfl, tick⟩
  | ok r =>
      rw [answer] at tick
      exact .inr ⟨r, _, c.stepped run, Prod.ext answer rfl, tick, going.running, rfl, going.free⟩

/-- Once a stop is asked for, one more tick ends the run. -/
theorem drive_stop (going : c.Going run) (observe : Report → StateM α Bool) (interval : Float)
    (ticks : Nat) (kept : α) :
    ∃ watch, (drive observe interval (ticks + 1) (c.stop.rest interval)).run kept =
      ((.ok (), finish run .stopped { c with stopRequested := true, watch }), kept) := by
  obtain ⟨watch, rests⟩ := c.stop.rest_eq interval
  rw [rests, stop_of_running going.running]
  have running : phase { c with stopRequested := true, watch } = .running := going.running
  have tick := tick_of_stop running going.latest rfl
  exact ⟨watch, drive_of_end running tick (by rintro ⟨⟩) observe interval ticks kept⟩

end Going

/-- A run is driven to its end with a tick for every step that is left and one to end it. -/
theorem drive_driven (observe : Report → StateM α Bool) (interval : Float) (going : c.Going run)
    (bounded : run.strategy.iteration ≤ run.plan.config.maxIterations.value)
    (enough : run.plan.config.maxIterations.value < run.strategy.iteration + ticks) (kept : α) :
    Driven observe run c.surroundings kept ((drive observe interval ticks c).run kept) := by
  -- Each step that is shown leaves one tick less, and a search that has counted it.
  induction ticks generalizing c run kept with
  | zero => exact absurd enough (Nat.not_lt.mpr bounded)
  | succ ticks ih =>
      cases finished : run.strategy.isFinished run.plan.config with
      | true =>
          have tick := tick_of_finished going.running going.latest going.free finished
          have last := of_decide_eq_true finished
          rw [drive_of_end going.running tick (by rintro ⟨⟩) observe interval ticks kept]
          exact .ended (.none _ _) (.all kept) bounded ⟨going.latest, rfl⟩ rfl
            ⟨rfl, rfl, rfl, rfl⟩ (fun _ => ⟨rfl, Nat.le_antisymm bounded last⟩)
            (fun stop => absurd rfl stop)
      | false =>
          have left := Nat.lt_of_not_le (of_decide_eq_false finished)
          rcases going.tick finished with ⟨e, d, fails, tick⟩ | ⟨r, t, d, step, tick, goes⟩
          · rw [drive_of_error going.running tick observe interval ticks kept]
            exact .failed (.none _ _) (.all kept) left fails
          have counted := (Strategy.step_counts run.plan run.strategy c.surroundings).1
          rw [step] at counted
          have within : t.iteration ≤ run.plan.config.maxIterations.value := by
            rw [counted]
            exact left
          rcases shown : (observe (.ofStep r run.plan.config.maxIterations.given)).run kept with
            ⟨halt, kept'⟩
          rw [drive_of_report going.running tick shown]
          cases halt with
          | false =>
              obtain ⟨rested, same⟩ := goes.rest interval
              have driven := ih rested within (by simp only at counted ⊢; omega) kept'
              rw [same] at driven
              exact driven.more step shown
          | true =>
              -- A step that was allowed has left a tick for the stop.
              obtain ⟨more, rfl⟩ : ∃ more, ticks = more + 1 := by
                refine Nat.exists_eq_add_one.mpr ?_
                simp only at counted within
                omega
              obtain ⟨watch, stops⟩ := goes.drive_stop observe interval more kept'
              rw [if_pos rfl, stops]
              exact .ended (.more step (.none _ _)) (.stops shown) within ⟨goes.latest, rfl⟩ rfl
                ⟨rfl, rfl, rfl, rfl⟩ (fun none => by cases none) (fun _ => rfl)

/-! ### Whole runs -/

/-- The reports of the steps that a run takes to a search in some surroundings. -/
structure Reported (run : Run σ) (w : Surroundings σ) (reports : List Report) (s : Strategy)
    (v : Surroundings σ) : Prop where
  /-- Every step is reported, and in order. -/
  steps : Steps run.plan run.strategy w reports s v
  numbered : reports.map (·.iteration) = List.range' 1 reports.length
  rising : reports.Pairwise fun early late => Rises early.bestScore late.bestScore
  bounded : reports.length ≤ run.plan.config.maxIterations.value

/-- What a run amounts to that is started, driven to its end and announced. -/
inductive Concludes (evaluators : EvaluatorSource σ) (config : SearchConfig)
    (observe : Report → StateM α Bool) (announce : Option SearchResult → StateM α Unit)
    (c : Controller σ) (kept : α) :
    (Except ControllerError (Option SearchResult) × Controller σ) × α → Prop where
  /-- No search begins, and nothing is shown or announced. -/
  | refused {e : ControllerError} {d : Controller σ}
      (start : c.start evaluators config = (.error e, d)) :
      Concludes evaluators config observe announce c kept ((.error e, d), kept)
  /-- A step fails before the last one and before any stop, and nothing is announced. -/
  | failed {begun d : Controller σ} {run : Run σ} {reports : List Report} {s : Strategy}
      {v : Surroundings σ} {kept' : α} {e : SearchError}
      (start : c.start evaluators config = (.ok (), begun)) (latest : begun.latest = some run)
      (settings : run.plan.config = config)
      (reported : Reported run begun.surroundings reports s v)
      (shown : Shown observe kept reports none kept')
      (left : reports.length < config.maxIterations.value)
      (fails : (s.step run.plan v).1 = .error e) :
      Concludes evaluators config observe announce c kept ((.error (.search e), d), kept')
  /-- All steps succeed and are shown, no other is taken, and the result is announced at the end. -/
  | ended {begun d : Controller σ} {run : Run σ} {reports : List Report} {s : Strategy}
      {v : Surroundings σ} {stop : Option Report} {kept' : α} {r : SearchResult}
      (start : c.start evaluators config = (.ok (), begun)) (latest : begun.latest = some run)
      (settings : run.plan.config = config)
      (reported : Reported run begun.surroundings reports s v)
      (shown : Shown observe kept reports stop kept')
      (left : d.latest = some { run with strategy := s } ∧ d.surroundings = v)
      (result : d.result = some r)
      (tells : r.Tells { run with strategy := s } d.phase reports.length)
      (completed : stop = none →
        r.status = .completed ∧ config.maxIterations.given = .whole r.iterations)
      (stopped : ∀ report, stop = some report →
        r.status = .stopped ∧ r.iterations = report.iteration) :
      Concludes evaluators config observe announce c kept
        ((.ok (some r), d), ((announce (some r)).run kept').2)

/-- The last report has the number of reports. -/
theorem Reported.last {w v : Surroundings σ} {reports : List Report} {s : Strategy}
    (reported : Reported run w reports s v) {report : Report}
    (last : reports.getLast? = some report) : report.iteration = reports.length := by
  have numbers := congrArg List.getLast? reported.numbered
  rw [List.getLast?_map, last, List.getLast?_range', Option.map_some] at numbers
  split at numbers
  next => cases numbers
  next =>
    have number := Option.some.inj numbers
    omega

/-- The reports of a search that has just begun. -/
theorem reported_of_steps {reports : List Report} {s : Strategy} {w v : Surroundings σ}
    (steps : Steps run.plan run.strategy w reports s v) (fresh : run.strategy.iteration = 0)
    (bounded : s.iteration ≤ run.plan.config.maxIterations.value) :
    s.iteration = reports.length ∧ Reported run w reports s v := by
  obtain ⟨numbered, counted⟩ := steps.counts
  rw [fresh, Nat.zero_add] at numbered counted
  exact ⟨counted, steps, numbered, steps.rises.2, counted ▸ bounded⟩

section
variable {evaluators : EvaluatorSource σ} {config : SearchConfig} {e : ControllerError}

theorem run_of_refused (start : c.start evaluators config = (.error e, d))
    (observe : Report → StateM α Bool) (interval : Float) (kept : α) :
    (c.run evaluators config observe interval).run kept = ((.error e, d), kept) := by
  rw [Controller.run, start]
  rfl

theorem run_of_begun (start : c.start evaluators config = (.ok (), d))
    (observe : Report → StateM α Bool) (interval : Float) :
    c.run evaluators config observe interval =
      drive observe interval (config.maxIterations.value + 1) d := by
  rw [Controller.run, start]

theorem conduct_of_error {observe : Report → StateM α Bool} {interval : Float} {kept kept' : α}
    (ran : (c.run evaluators config observe interval).run kept = ((.error e, d), kept'))
    (announce : Option SearchResult → StateM α Unit) :
    (c.conduct evaluators config observe announce interval).run kept = ((.error e, d), kept') := by
  rw [conduct, StateT.run_bind, ran]
  rfl

theorem conduct_of_ok {observe : Report → StateM α Bool} {interval : Float} {kept kept' : α}
    (ran : (c.run evaluators config observe interval).run kept = ((.ok (), d), kept'))
    (announce : Option SearchResult → StateM α Unit) :
    (c.conduct evaluators config observe announce interval).run kept =
      ((.ok d.result, d), ((announce d.result).run kept').2) := by
  rw [conduct, StateT.run_bind, ran]
  rfl

end

/-- A run concludes, whatever its evaluators. -/
theorem conduct_concludes (evaluators : EvaluatorSource σ) {config : SearchConfig}
    (iterations : config.maxIterations.given = .whole config.maxIterations.value)
    (observe : Report → StateM α Bool) (announce : Option SearchResult → StateM α Unit)
    (interval : Float) (c : Controller σ) (kept : α) :
    Concludes evaluators config observe announce c kept
      ((c.conduct evaluators config observe announce interval).run kept) := by
  generalize start : c.start evaluators config = begun
  obtain ⟨answer, begun⟩ := begun
  cases answer with
  | error e =>
      rw [conduct_of_error (run_of_refused start observe interval kept)]
      exact .refused start
  | ok _ =>
      obtain ⟨run, running, latest, -, free, rfl, w, v, -, first⟩ := start_eq_ok start
      have fresh := Strategy.begin_counts first
      have bounded : run.strategy.iteration ≤ run.plan.config.maxIterations.value := by
        rw [fresh]
        exact Nat.zero_le _
      have driven := @drive_driven _ _ _ _ (run.plan.config.maxIterations.value + 1) observe interval
        ⟨running, latest, free⟩ bounded (by omega) kept
      rw [← run_of_begun start] at driven
      generalize ran : (c.run evaluators run.plan.config observe interval).run kept = out at driven
      cases driven with
      | failed steps shown left fails =>
          obtain ⟨counted, reported⟩ := reported_of_steps steps fresh (Nat.le_of_lt left)
          rw [conduct_of_error ran]
          exact .failed start latest rfl reported shown (counted ▸ left) fails
      | ended steps shown within left result tells completed stopped =>
          obtain ⟨counted, reported⟩ := reported_of_steps steps fresh within
          rw [conduct_of_ok ran, result]
          rw [counted] at tells completed
          refine .ended start latest rfl reported shown left result tells ?_ ?_
          · intro none
            obtain ⟨phase, every⟩ := completed none
            exact ⟨tells.status.trans phase, by rw [iterations, tells.iterations, every]⟩
          · rintro report rfl
            exact ⟨tells.status.trans (stopped (by rintro ⟨⟩)),
              tells.iterations.trans (reported.last shown.last).symm⟩

/-- A run that gives an answer gives a result. -/
theorem Concludes.found {evaluators : EvaluatorSource σ} {config : SearchConfig}
    {observe : Report → StateM α Bool} {announce : Option SearchResult → StateM α Unit} {kept : α}
    {out : (Except ControllerError (Option SearchResult) × Controller σ) × α}
    (concludes : Concludes evaluators config observe announce c kept out)
    {answer : Option SearchResult} (succeeds : out.1.1 = .ok answer) : ∃ r, answer = some r := by
  cases concludes with
  | refused => cases succeeds
  | failed => cases succeeds
  | ended =>
      cases succeeds
      exact ⟨_, rfl⟩

/-- With settings in whole numbers a run succeeds, unless something is too long to begin with. -/
theorem run_of_whole (fitness : FitnessConfig) {config : SearchConfig} (whole : config.Whole)
    {c : Controller Oracle} (free : c.phase ≠ .running)
    (reliable : c.surroundings.memory.Reliable) (observe : Report → StateM α Bool)
    (interval : Float) (kept : α) :
    match config.startFault with
    | some e =>
        ∃ d, (c.run (makeEvaluator fitness) config observe interval).run kept = ((.error e, d), kept)
    | none => ∃ d kept',
        (c.run (makeEvaluator fitness) config observe interval).run kept = ((.ok (), d), kept') := by
  have begins := start_whole fitness whole free reliable
  cases fault : config.startFault with
  | some e =>
      rw [fault] at begins
      obtain ⟨d, start⟩ := begins
      exact ⟨d, run_of_refused start observe interval kept⟩
  | none =>
      rw [fault] at begins
      obtain ⟨d, start, steady⟩ := begins
      have succeeds := (@drive_succeeds _ _ _ (fun _ => True) observe (fun _ _ _ => trivial) interval
        (config.maxIterations.value + 1) steady kept trivial).1
      rw [← run_of_begun start] at succeeds
      exact ⟨_, _, Prod.ext (Prod.ext succeeds rfl) rfl⟩

/-- A run always ends, and tells faithfully what it has done.  Its steps are reported in order, not more of
them than were asked for, and their best scores rise; each report is shown until a stop is asked for.  A
run that does not fail announces its result once, which it gives: it is completed with all
iterations, or it was stopped at the report at which its observer has asked for that.  With settings
in whole numbers no run fails but one that does not begin, because something is too long. -/
theorem conduct_faithful (fitness : FitnessConfig) {config : SearchConfig}
    (iterations : config.maxIterations.given = .whole config.maxIterations.value)
    {c : Controller Oracle} (free : c.phase ≠ .running)
    (reachable : c.surroundings.memory.Reachable) (observe : Report → StateM α Bool)
    (announce : Option SearchResult → StateM α Unit) (interval : Float) (kept : α) :
    let conducted :=
      (c.conduct (makeEvaluator fitness) config observe announce interval).run kept
    Concludes (makeEvaluator fitness) config observe announce c kept conducted ∧
      (config.Whole → match config.startFault with
        | some e => conducted.1.1 = .error e ∧ conducted.2 = kept
        | none => ∃ r, conducted.1.1 = .ok (some r)) := by
  intro conducted
  have concludes : Concludes _ config observe announce c kept conducted :=
    conduct_concludes (makeEvaluator fitness) iterations observe announce interval c kept
  refine ⟨concludes, fun whole => ?_⟩
  have ran := run_of_whole fitness whole free reachable.reliable observe interval kept
  cases fault : config.startFault with
  | some e =>
      rw [fault] at ran
      obtain ⟨d, refused⟩ := ran
      have given : conducted = ((.error e, d), kept) := conduct_of_error refused announce
      rw [given]
      exact ⟨rfl, rfl⟩
  | none =>
      rw [fault] at ran
      obtain ⟨d, kept', succeeds⟩ := ran
      have given : conducted.1.1 = .ok d.result :=
        congrArg (·.1.1) (conduct_of_ok succeeds announce)
      obtain ⟨r, result⟩ := concludes.found given
      exact ⟨r, given.trans (congrArg _ result)⟩

/-- An observer that keeps the numbers of the reports, counts the announcements and asks for a stop at one
report. -/
def stopAt (iteration : Nat) (report : Report) : StateM (List Nat × Nat) Bool :=
  fun (shown, announced) => (report.iteration == iteration, shown ++ [report.iteration], announced)

/-- Count an announcement. -/
def countAnnouncement (_ : Option SearchResult) : StateM (List Nat × Nat) Unit :=
  fun (shown, announced) => ((), shown, announced + 1)

/-- A run that is asked to stop at the last of its two reports: it has been stopped, and that is announced
once. -/
theorem conduct_faithful_last_report :
    let config : SearchConfig :=
      { maxIterations := .ofNat 2, maxDepth := .ofNat 0, sampleSize := .ofNat 1 }
    let conducted := (conduct (makeEvaluator default) config (stopAt 2) countAnnouncement 0.0
      (new ⟨⟨[0.5], 7, 0⟩, .empty 1000⟩ ⟨0.0, 0.25, []⟩)).run ([], 0)
    conducted.2 = ([1, 2], 1) ∧
      ∃ r, conducted.1.1 = .ok (some r) ∧ r.status = .stopped ∧ r.iterations = 2 := by
  intro config conducted
  have reachable : (Oracle.empty 1000).Reachable := ⟨1000, [], by decide, by decide, rfl⟩
  have whole : config.Whole := ⟨by decide, rfl, rfl⟩
  obtain ⟨kept, told⟩ : conducted.2 = ([1, 2], 1) ∧
      (conducted.1.1.toOption.join.map fun r => (r.status, r.iterations)) =
        some (.stopped, 2) := by
    decide +kernel
  have fault : config.startFault = none := Option.isNone_iff_eq_none.mp (by decide +kernel)
  have faithful := (@conduct_faithful _ default config rfl
    (new ⟨⟨[0.5], 7, 0⟩, .empty 1000⟩ ⟨0.0, 0.25, []⟩) (by rintro ⟨⟩) reachable (stopAt 2)
    countAnnouncement 0.0 ([], 0)).2 whole
  have same : (conduct (makeEvaluator default) config (stopAt 2) countAnnouncement 0.0
    (new ⟨⟨[0.5], 7, 0⟩, .empty 1000⟩ ⟨0.0, 0.25, []⟩)).run ([], 0) = conducted := rfl
  rw [fault, same] at faithful
  clear_value conducted
  obtain ⟨r, succeeds⟩ := faithful
  rw [succeeds] at told
  obtain ⟨status, iterations⟩ := Prod.mk.inj (Option.some.inj told)
  exact ⟨kept, r, succeeds, status, iterations⟩

/-- Settings that are accepted and fail: a history that is too long to be begun with, and an open rate and a
temperature beyond the doubles, each of which fails a step.  Nothing is shown or announced. -/
theorem conduct_of_accepted_fails :
    let tooLong : SearchRequest := {
      historyLength := .int 9223372036854775808, maxIterations := .int 0, sampleSize := .int 3
      maxDepth := .int 0 }
    let openRate : SearchRequest := {
      algorithm := .str "ga", maxIterations := .int 1, sampleSize := .int 3, maxDepth := .int 0
      populationSize := .int 2, randomRate := .real 0.0, mutationRate := .null }
    let tooHot : SearchRequest := {
      algorithm := .str "sa", maxIterations := .int 1, sampleSize := .int 3, maxDepth := .int 0
      startTemperature := .int (10 ^ 200 * 10 ^ 200) }
    ∃ config config' config'', tooLong.check = .ok config ∧ openRate.check = .ok config' ∧
      tooHot.check = .ok config'' ∧
      let conducted (config : SearchConfig) :=
        (conduct (makeEvaluator default) config (stopAt 0) countAnnouncement 0.0
          (new ⟨⟨[0.0, 0.9], 7, 0⟩, .empty 1000⟩ ⟨0.0, 0.25, []⟩)).run ([], 0)
      (conducted config).1.1.toBool = false ∧ (conducted config).2 = ([], 0) ∧
        (conducted config').1.1.toBool = false ∧ (conducted config').2 = ([], 0) ∧
        (conducted config'').1.1.toBool = false ∧ (conducted config'').2 = ([], 0) := by
  intro tooLong openRate tooHot
  refine ⟨_, _, _, rfl, rfl, rfl, ?_⟩
  decide +kernel

end Controller

end PrimeSearch
