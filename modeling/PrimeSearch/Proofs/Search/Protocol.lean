/-
Module: PrimeSearch.Proofs.Search.Protocol
Purpose: What a controller keeps to, for whatever calls in whatever order.
Main exports: Call, Account, Account.after, account, Account.Lawful, Account.Smooth,
  Account.after_lawful, account_protocol
-/
import PrimeSearch.Search.Controller
import PrimeSearch.Proofs.Search.Counting
import PrimeSearch.Proofs.Search.Modes

namespace PrimeSearch

variable {σ : Type} {evaluators : EvaluatorSource σ}

/-!
A controller is called to start a run, to stop it and to take a step.  Beside the controller we
keep what the steps of its latest run have led to: a report each, or an error where a step has
failed.  Both have been counted by the search, so the number of steps in the account is the number
of iterations of the search, and where no step fails it is the number of reports.
-/

/-- A call of a controller. -/
inductive Call where
  | start (config : SearchConfig)
  | stop
  | tick

/-- A controller, with what the steps of its latest run have led to. -/
structure Account (σ : Type) where
  controller : Controller σ
  steps : List (Except ControllerError Report)

/-- The account after one more call.  A run that begins begins a new list of steps. -/
def Account.after (evaluators : EvaluatorSource σ) (a : Account σ) : Call → Account σ
  | .start config =>
      match a.controller.start evaluators config with
      | (.ok (), c) => ⟨c, []⟩
      | (.error _, c) => ⟨c, a.steps⟩
  | .stop => ⟨a.controller.stop, a.steps⟩
  | .tick =>
      match a.controller.tick with
      | (.ok none, c) => ⟨c, a.steps⟩
      | (.ok (some report), c) => ⟨c, a.steps ++ [.ok report]⟩
      | (.error e, c) => ⟨c, a.steps ++ [.error e]⟩

/-- The account after more calls. -/
def Account.afterAll (evaluators : EvaluatorSource σ) (a : Account σ) (calls : List Call) :
    Account σ := calls.foldl (Account.after evaluators) a

/-- The controller of an account is called as the account is. -/
theorem Account.controller_after (evaluators : EvaluatorSource σ) (a : Account σ) (call : Call) :
    (a.after evaluators call).controller = match call with
      | .start config => (a.controller.start evaluators config).2
      | .stop => a.controller.stop
      | .tick => a.controller.tick.2 := by
  cases call with
  | start config =>
      rw [Account.after]
      split
      next outcome => exact (congrArg Prod.snd outcome).symm
      next outcome => exact (congrArg Prod.snd outcome).symm
  | stop => rfl
  | tick =>
      rw [Account.after]
      split
      next outcome => exact (congrArg Prod.snd outcome).symm
      next outcome => exact (congrArg Prod.snd outcome).symm
      next outcome => exact (congrArg Prod.snd outcome).symm

/-- The account of the calls of a new controller. -/
def account (evaluators : EvaluatorSource σ) (w : Surroundings σ) (watch : Stopwatch)
    (calls : List Call) : Account σ := Account.afterAll evaluators ⟨.new w watch, []⟩ calls

/-! ### Single calls -/

namespace Controller

variable {c d : Controller σ} {config : SearchConfig} {run : Run σ}

theorem isRunning_iff : c.isRunning = true ↔ c.phase = .running := decide_eq_true_iff

theorem start_of_running (running : c.phase = .running) (config : SearchConfig) :
    c.start evaluators config = (.error .alreadyRunning, c) := by
  rw [start, if_pos (isRunning_iff.mpr running)]

/-- A run that begins is of its settings, and its search has just begun. -/
theorem start_eq_ok (started : c.start evaluators config = (.ok (), d)) :
    ∃ run, d.phase = .running ∧ d.latest = some run ∧ d.result = none ∧
      d.stopRequested = false ∧ run.plan.config = config ∧
        ∃ w v, (evaluators config.mode config.sampleSize.given).run.run c.surroundings =
            (.ok run.plan.evaluator, w) ∧
          Strategy.begin run.plan w = (.ok run.strategy, v) := by
  unfold start at started
  split at started
  · cases (Prod.mk.inj started).1
  split at started
  · cases (Prod.mk.inj started).1
  next evaluator w made =>
    dsimp only at started
    split at started
    · cases (Prod.mk.inj started).1
    next strategy v begun =>
      obtain rfl := (Prod.mk.inj started).2
      exact ⟨_, rfl, rfl, rfl, rfl, rfl, w, v, made, begun⟩

/-- A run that does not begin leaves everything as it was but the surroundings. -/
theorem start_eq_error {e : ControllerError}
    (failed : c.start evaluators config = (.error e, d)) :
    ∃ w, d = { c with surroundings := w } := by
  unfold start at failed
  split at failed
  · exact ⟨c.surroundings, (Prod.mk.inj failed).2.symm⟩
  split at failed
  next w _ => exact ⟨w, (Prod.mk.inj failed).2.symm⟩
  · dsimp only at failed
    split at failed
    next w _ => exact ⟨w, (Prod.mk.inj failed).2.symm⟩
    · cases (Prod.mk.inj failed).1

theorem stop_of_running (running : c.phase = .running) :
    c.stop = { c with stopRequested := true } := by
  rw [stop, if_pos (isRunning_iff.mpr running)]

theorem stop_of_not_running (other : c.phase ≠ .running) : c.stop = c := by
  rw [stop, if_neg fun running => other (isRunning_iff.mp running)]

theorem tick_of_not_running (other : c.phase ≠ .running) : c.tick = (.ok none, c) := by
  unfold tick
  split
  next running _ => exact absurd running other
  · rfl

theorem tick_of_stop (running : c.phase = .running) (latest : c.latest = some run)
    (asked : c.stopRequested = true) : c.tick = (.ok none, c.finish run .stopped) := by
  simp only [tick, running, latest, asked, if_true]

theorem tick_of_finished (running : c.phase = .running) (latest : c.latest = some run)
    (free : c.stopRequested = false) (finished : run.strategy.isFinished run.plan.config = true) :
    c.tick = (.ok none, c.finish run .completed) := by
  simp only [tick, running, latest, free, finished, if_true, Bool.false_eq_true, if_false]

/-- The controller after a step of its run. -/
def stepped (c : Controller σ) (run : Run σ) : Controller σ :=
  { c with
    latest := some { run with strategy := (run.strategy.step run.plan c.surroundings).2.1 }
    surroundings := (run.strategy.step run.plan c.surroundings).2.2 }

/-- What a step of a run leads to. -/
def outcome (c : Controller σ) (run : Run σ) : Except ControllerError Report :=
  match (run.strategy.step run.plan c.surroundings).1 with
  | .ok step => .ok (Report.ofStep step run.plan.config.maxIterations.given)
  | .error e => .error (.search e)

theorem tick_of_step (running : c.phase = .running) (latest : c.latest = some run)
    (free : c.stopRequested = false) (left : run.strategy.isFinished run.plan.config = false) :
    c.tick = ((c.outcome run).map some, c.stepped run) := by
  simp only [tick, running, latest, free, left, Bool.false_eq_true, if_false, outcome, stepped]
  cases (run.strategy.step run.plan c.surroundings).1 <;> rfl

/-- What a tick can be: nothing without a run, the end of a run, or a step. -/
theorem tick_cases (standing : c.phase = .running → c.latest = some run) :
    (c.phase ≠ .running ∧ c.tick = (.ok none, c)) ∨
      (c.phase = .running ∧ ∃ phase, (phase = .stopped ∨ phase = .completed) ∧
        c.tick = (.ok none, c.finish run phase)) ∨
      (c.phase = .running ∧ run.strategy.iteration < run.plan.config.maxIterations.value ∧
        c.tick = ((c.outcome run).map some, c.stepped run)) := by
  by_cases running : c.phase = .running
  · right
    have latest := standing running
    cases asked : c.stopRequested with
    | true => exact .inl ⟨running, .stopped, .inl rfl, tick_of_stop running latest asked⟩
    | false =>
        cases finished : run.strategy.isFinished run.plan.config with
        | true =>
            exact .inl ⟨running, .completed, .inr rfl,
              tick_of_finished running latest asked finished⟩
        | false =>
            have left := of_decide_eq_false finished
            exact .inr ⟨running, Nat.lt_of_not_le left, tick_of_step running latest asked finished⟩
  · exact .inl ⟨running, tick_of_not_running running⟩

end Controller

/-! ### What holds after any calls -/

/-- The result tells how a run has ended and what its search has found in so many steps. -/
structure SearchResult.Tells (r : SearchResult) (run : Run σ) (phase : Phase) (steps : Nat) :
    Prop where
  status : r.status = phase
  best : r.best = run.strategy.best.key
  bestScore : r.bestScore = run.strategy.bestScore
  iterations : r.iterations = steps

/-- The search of a run has counted so many steps, and not more than were asked for. -/
structure Run.Counted (run : Run σ) (steps : Nat) : Prop where
  counted : run.strategy.iteration = steps
  bounded : steps ≤ run.plan.config.maxIterations.value

namespace Account

/-- The reports of the latest run are numbered by the steps; there is a result when and only when a
run has ended. -/
structure Lawful (a : Account σ) : Prop where
  numbered : ∀ (i : Nat) report, a.steps[i]? = some (.ok report) → report.iteration = i + 1
  idle : a.controller.phase = .idle →
    a.controller.latest = none ∧ a.controller.result = none ∧ a.steps = []
  running : a.controller.phase = .running → a.controller.result = none ∧
    ∃ run, a.controller.latest = some run ∧ run.Counted a.steps.length
  ended : a.controller.phase ≠ .idle → a.controller.phase ≠ .running →
    ∃ run r, a.controller.latest = some run ∧ run.Counted a.steps.length ∧
      a.controller.result = some r ∧ r.Tells run a.controller.phase a.steps.length

variable {a : Account σ}

theorem new_lawful (w : Surroundings σ) (watch : Stopwatch) :
    Lawful (⟨.new w watch, []⟩ : Account σ) where
  numbered i report found := by cases found
  idle _ := ⟨rfl, rfl, rfl⟩
  running running := by cases running
  ended started := absurd rfl started

/-- A run that has begun has taken no step. -/
theorem start_lawful (lawful : a.Lawful) (config : SearchConfig) :
    (a.after evaluators (.start config)).Lawful := by
  rw [after]
  split
  next c started =>
    obtain ⟨run, running, latest, result, -, -, w, v, -, begun⟩ :=
      Controller.start_eq_ok started
    constructor
    · intro i report found
      cases found
    · intro idle
      rw [running] at idle
      cases idle
    · intro _
      exact ⟨result, run, latest, Strategy.begin_counts begun, Nat.zero_le _⟩
    · intro _ other
      exact absurd running other
  next c failed =>
    obtain ⟨w, rfl⟩ := Controller.start_eq_error failed
    exact ⟨lawful.numbered, lawful.idle, lawful.running, lawful.ended⟩

theorem stop_lawful (lawful : a.Lawful) : (a.after evaluators .stop).Lawful := by
  rw [after, Controller.stop]
  split
  · exact ⟨lawful.numbered, lawful.idle, lawful.running, lawful.ended⟩
  · exact lawful

theorem after_tick_of_step {run : Run σ}
    (step : a.controller.tick = ((a.controller.outcome run).map some, a.controller.stepped run)) :
    a.after evaluators .tick =
      ⟨a.controller.stepped run, a.steps ++ [a.controller.outcome run]⟩ := by
  rw [after, step]
  cases a.controller.outcome run <;> rfl

/-- A step is counted, and its report tells its number. -/
theorem step_lawful (lawful : a.Lawful) {run : Run σ} (running : a.controller.phase = .running)
    (counted : run.Counted a.steps.length)
    (left : run.strategy.iteration < run.plan.config.maxIterations.value) :
    Lawful ⟨a.controller.stepped run, a.steps ++ [a.controller.outcome run]⟩ := by
  obtain ⟨counts, told⟩ := Strategy.step_counts run.plan run.strategy a.controller.surroundings
  constructor
  · intro i report found
    rw [List.getElem?_append] at found
    split at found
    · exact lawful.numbered i report found
    next late =>
      obtain ⟨last, same⟩ : i = a.steps.length ∧ a.controller.outcome run = .ok report := by
        rw [List.getElem?_singleton] at found
        split at found
        next first => exact ⟨by omega, Option.some.inj found⟩
        · cases found
      unfold Controller.outcome at same
      split at same
      next r succeeds =>
        obtain rfl := Except.ok.inj same
        rw [last, ← counted.counted]
        exact told r succeeds
      · cases same
  · intro idle
    rw [show (a.controller.stepped run).phase = .running from running] at idle
    cases idle
  · intro _
    refine ⟨(lawful.running running).1, _, rfl, ?_, ?_⟩
    · rw [List.length_append, List.length_singleton, ← counted.counted]
      exact counts
    · rw [List.length_append, List.length_singleton, ← counted.counted]
      exact left
  · intro _ other
    exact absurd running other

theorem tick_lawful (lawful : a.Lawful) : (a.after evaluators .tick).Lawful := by
  by_cases running : a.controller.phase = .running
  · obtain ⟨result, run, latest, counted⟩ := lawful.running running
    rcases Controller.tick_cases fun _ => latest with ⟨other, -⟩ | ⟨-, phase, ended, tick⟩ |
      ⟨-, left, tick⟩
    · exact absurd running other
    · rw [after, tick]
      constructor
      · exact lawful.numbered
      · rintro rfl
        rcases ended with ended | ended <;> cases ended
      · rintro rfl
        rcases ended with ended | ended <;> cases ended
      · intro _ _
        exact ⟨run, _, latest, counted, rfl, rfl, rfl, rfl, counted.counted⟩
    · rw [after_tick_of_step tick]
      exact step_lawful lawful running counted left
  · rw [after, Controller.tick_of_not_running running]
    exact lawful

/-- Whatever the call, the account stays lawful. -/
theorem after_lawful (lawful : a.Lawful) (call : Call) : (a.after evaluators call).Lawful := by
  cases call with
  | start config => exact start_lawful lawful config
  | stop => exact stop_lawful lawful
  | tick => exact tick_lawful lawful

end Account

/-- What a new account is like, and every call preserves, holds after any calls. -/
theorem account_invariant {I : Account σ → Prop} {w : Surroundings σ} {watch : Stopwatch}
    (start : I ⟨.new w watch, []⟩) (kept : ∀ a call, I a → I (a.after evaluators call))
    (calls : List Call) : I (account evaluators w watch calls) := by
  unfold account Account.afterAll
  generalize (⟨.new w watch, []⟩ : Account σ) = a at start ⊢
  induction calls generalizing a with
  | nil => exact start
  | cons call calls ih => exact ih _ (kept a call start)

theorem account_lawful (w : Surroundings σ) (watch : Stopwatch) (calls : List Call) :
    (account evaluators w watch calls).Lawful :=
  account_invariant (Account.new_lawful w watch) (fun _ call lawful => Account.after_lawful lawful call)
    calls

/-! ### Steps that do not fail -/

/-- An evaluator is of the mode that it was asked for. -/
def EvaluatorsFit (evaluators : EvaluatorSource σ) : Prop :=
  ∀ mode size w e v, (evaluators mode size).run.run w = (.ok e, v) → e.mode = mode

namespace Account

variable {a : Account σ}

/-- The evaluator of the latest run is of its mode, and with proper settings every step has led to a
report. -/
def Smooth (a : Account σ) : Prop :=
  ∀ run, a.controller.latest = some run → run.plan.Fits ∧
    (run.plan.config.Proper → run.strategy.InMode run.plan.config.mode ∧
      ∀ step ∈ a.steps, ∃ report, step = .ok report)

theorem start_smooth (fit : EvaluatorsFit evaluators) (smooth : a.Smooth)
    (config : SearchConfig) : (a.after evaluators (.start config)).Smooth := by
  rw [after]
  split
  next c started =>
    obtain ⟨run, -, latest, -, -, rfl, w, v, made, begun⟩ := Controller.start_eq_ok started
    intro run' latest'
    rw [latest] at latest'
    obtain rfl := Option.some.inj latest'
    have fits : run.plan.Fits := fit _ _ _ _ _ made
    refine ⟨fits, fun _ => ⟨Strategy.begin_inMode begun, ?_⟩⟩
    intro step listed
    cases listed
  next c failed =>
    obtain ⟨w, rfl⟩ := Controller.start_eq_error failed
    exact smooth

theorem stop_smooth (smooth : a.Smooth) : (a.after evaluators .stop).Smooth := by
  rw [after, Controller.stop]
  split
  · exact smooth
  · exact smooth

/-- With proper settings a step leads to a report. -/
theorem step_smooth (smooth : a.Smooth) {run : Run σ} (latest : a.controller.latest = some run) :
    Smooth ⟨a.controller.stepped run, a.steps ++ [a.controller.outcome run]⟩ := by
  obtain ⟨fits, steady⟩ := smooth run latest
  intro run' latest'
  obtain rfl := Option.some.inj latest'
  refine ⟨fits, fun proper => ?_⟩
  obtain ⟨inMode, reported⟩ := steady proper
  obtain ⟨⟨r, succeeds⟩, after⟩ :=
    Strategy.step_succeeds fits proper inMode a.controller.surroundings
  refine ⟨after, fun step listed => ?_⟩
  rcases List.mem_append.mp listed with early | late
  · exact reported step early
  · obtain rfl := List.mem_singleton.mp late
    exact ⟨_, by rw [Controller.outcome, succeeds]⟩

theorem tick_smooth (lawful : a.Lawful) (smooth : a.Smooth) :
    (a.after evaluators .tick).Smooth := by
  by_cases running : a.controller.phase = .running
  · obtain ⟨-, run, latest, -⟩ := lawful.running running
    rcases Controller.tick_cases fun _ => latest with ⟨other, -⟩ | ⟨-, phase, -, tick⟩ |
      ⟨-, -, tick⟩
    · exact absurd running other
    · rw [after, tick]
      exact smooth
    · rw [after_tick_of_step tick]
      exact step_smooth smooth latest
  · rw [after, Controller.tick_of_not_running running]
    exact smooth

theorem after_smooth (fit : EvaluatorsFit evaluators) (lawful : a.Lawful) (smooth : a.Smooth)
    (call : Call) : (a.after evaluators call).Smooth := by
  cases call with
  | start config => exact start_smooth fit smooth config
  | stop => exact stop_smooth smooth
  | tick => exact tick_smooth lawful smooth

end Account

theorem account_smooth (fit : EvaluatorsFit evaluators) (w : Surroundings σ) (watch : Stopwatch)
    (calls : List Call) : (account evaluators w watch calls).Smooth := by
  have start : Account.Smooth (⟨.new w watch, []⟩ : Account σ) := by
    intro run latest
    cases latest
  have both := account_invariant (I := fun a => a.Lawful ∧ a.Smooth)
    ⟨Account.new_lawful w watch, start⟩
    (fun a call both => ⟨Account.after_lawful both.1 call, Account.after_smooth fit both.1 both.2 call⟩)
    calls
  exact both.2

/-! ### Stopping -/

namespace Account

variable {a b : Account σ}

/-- Once a run was asked to stop, no call but a tick changes anything. -/
theorem after_of_stopping (running : a.controller.phase = .running)
    (asked : a.controller.stopRequested = true) {call : Call} (noTick : call ≠ .tick) :
    a.after evaluators call = a := by
  obtain ⟨c, steps⟩ := a
  cases call with
  | start config => rw [after, Controller.start_of_running running]
  | stop =>
      rw [after, Controller.stop_of_running running]
      exact congrArg (fun asked => Account.mk { c with stopRequested := asked } steps) asked.symm
  | tick => exact absurd rfl noTick

/-- The tick that follows a request to stop ends the run, whatever is called in between. -/
theorem stop_ends (running : a.controller.phase = .running) {run : Run σ}
    (latest : a.controller.latest = some run) {more : List Call} (noTick : .tick ∉ more) :
    ∃ d, (a.afterAll evaluators (.stop :: more)).controller.tick = (.ok none, d) ∧
      d.phase = .stopped ∧ d.latest = a.controller.latest := by
  have stopping : a.after evaluators .stop = ⟨a.controller.stop, a.steps⟩ := rfl
  rw [Controller.stop_of_running running] at stopping
  have rests (b : Account σ) (running : b.controller.phase = .running)
      (asked : b.controller.stopRequested = true) : b.afterAll evaluators more = b := by
    induction more with
    | nil => rfl
    | cons call more ih =>
        rw [List.mem_cons, not_or] at noTick
        rw [afterAll, List.foldl_cons, after_of_stopping running asked (Ne.symm noTick.1)]
        exact ih noTick.2
  change ∃ d, ((a.after evaluators .stop).afterAll evaluators more).controller.tick = _ ∧ _
  rw [stopping, rests ⟨{ a.controller with stopRequested := true }, a.steps⟩ running rfl]
  exact ⟨_, Controller.tick_of_stop running latest rfl, rfl, rfl⟩

/-- The same account but for a request to stop that is left over from an earlier run. -/
structure SameRun (a b : Account σ) : Prop where
  steps : b.steps = a.steps
  controller : ∃ asked, b.controller = { a.controller with stopRequested := asked }
  running : a.controller.phase = .running → b = a

theorem SameRun.refl (a : Account σ) : SameRun a a := ⟨rfl, ⟨_, rfl⟩, fun _ => rfl⟩

/-- A left over request has no effect on any call. -/
theorem SameRun.after (same : SameRun a b) (call : Call) :
    SameRun (a.after evaluators call) (b.after evaluators call) := by
  by_cases running : a.controller.phase = .running
  · rw [same.running running]
    exact .refl _
  obtain ⟨c, steps⟩ := a
  obtain ⟨d, steps'⟩ := b
  obtain ⟨sameSteps, ⟨asked, left⟩, -⟩ := same
  dsimp only at sameSteps left
  subst sameSteps left
  cases call with
  | start config =>
      have other : c.phase ≠ .running := running
      simp only [Account.after, Controller.start, Controller.isRunning, other, decide_false,
        Bool.false_eq_true, if_false]
      generalize (evaluators config.mode config.sampleSize.given).run.run c.surroundings = made
      obtain ⟨outcome, w⟩ := made
      cases outcome with
      | error e => exact ⟨rfl, ⟨asked, rfl⟩, fun running' => absurd running' running⟩
      | ok evaluator =>
          dsimp only
          generalize Strategy.begin ⟨config, evaluator⟩ w = begun
          obtain ⟨outcome, v⟩ := begun
          cases outcome with
          | error e => exact ⟨rfl, ⟨asked, rfl⟩, fun running' => absurd running' running⟩
          | ok strategy => exact .refl _
  | stop =>
      simp only [Account.after, Controller.stop_of_not_running running]
      rw [Controller.stop_of_not_running (c := { c with stopRequested := asked }) running]
      exact ⟨rfl, ⟨asked, rfl⟩, fun running' => absurd running' running⟩
  | tick =>
      simp only [Account.after, Controller.tick_of_not_running running]
      rw [Controller.tick_of_not_running (c := { c with stopRequested := asked }) running]
      exact ⟨rfl, ⟨asked, rfl⟩, fun running' => absurd running' running⟩

theorem SameRun.afterAll (same : SameRun a b) (more : List Call) :
    SameRun (a.afterAll evaluators more) (b.afterAll evaluators more) := by
  induction more generalizing a b with
  | nil => exact same
  | cons call more ih => exact ih (same.after call)

end Account

/-! ### The protocol -/

namespace Account.Lawful

variable {a : Account σ}

/-- A run that has been started has a counted search. -/
theorem bounded (lawful : a.Lawful) {run : Run σ} (latest : a.controller.latest = some run) :
    a.steps.length ≤ run.plan.config.maxIterations.value := by
  by_cases running : a.controller.phase = .running
  · obtain ⟨-, run', latest', counted⟩ := lawful.running running
    rw [latest] at latest'
    exact Option.some.inj latest' ▸ counted.bounded
  · by_cases idle : a.controller.phase = .idle
    · rw [(lawful.idle idle).1] at latest
      cases latest
    · obtain ⟨run', -, latest', counted, -⟩ := lawful.ended idle running
      rw [latest] at latest'
      exact Option.some.inj latest' ▸ counted.bounded

/-- There is no result before a run has ended. -/
theorem result_eq_none_iff (lawful : a.Lawful) :
    a.controller.result = none ↔ a.controller.phase = .idle ∨ a.controller.phase = .running := by
  constructor
  · intro noResult
    by_contra other
    rw [not_or] at other
    obtain ⟨run, r, -, -, result, -⟩ := lawful.ended other.1 other.2
    rw [noResult] at result
    cases result
  · rintro (idle | running)
    · exact (lawful.idle idle).2.1
    · exact (lawful.running running).1

/-- A result is that of the latest run. -/
theorem tells (lawful : a.Lawful) {r : SearchResult} (result : a.controller.result = some r) :
    ∃ run, a.controller.latest = some run ∧
      r.Tells run a.controller.phase a.steps.length := by
  have ended : ¬(a.controller.phase = .idle ∨ a.controller.phase = .running) := by
    intro other
    rw [lawful.result_eq_none_iff.mpr other] at result
    cases result
  rw [not_or] at ended
  obtain ⟨run, r', latest, -, result', tells⟩ := lawful.ended ended.1 ended.2
  rw [result] at result'
  exact ⟨run, latest, Option.some.inj result' ▸ tells⟩

/-- A tick without a report takes no step. -/
theorem silent (lawful : a.Lawful) {d : Controller σ}
    (tick : a.controller.tick = (.ok none, d)) :
    d.latest = a.controller.latest ∧ d.surroundings = a.controller.surroundings := by
  by_cases running : a.controller.phase = .running
  · obtain ⟨-, run, latest, -⟩ := lawful.running running
    rcases Controller.tick_cases fun _ => latest with ⟨-, same⟩ | ⟨-, phase, -, same⟩ |
      ⟨-, -, same⟩
    · rw [same] at tick
      obtain rfl := (Prod.mk.inj tick).2
      exact ⟨rfl, rfl⟩
    · rw [same] at tick
      obtain rfl := (Prod.mk.inj tick).2
      exact ⟨rfl, rfl⟩
    · rw [same] at tick
      have reported := (Prod.mk.inj tick).1
      cases outcome : a.controller.outcome run with
      | ok report =>
          rw [outcome] at reported
          cases reported
      | error e =>
          rw [outcome] at reported
          cases reported
  · rw [Controller.tick_of_not_running running] at tick
    obtain rfl := (Prod.mk.inj tick).2
    exact ⟨rfl, rfl⟩

end Account.Lawful

theorem makeEvaluator_fits (fitness : FitnessConfig) : EvaluatorsFit (makeEvaluator fitness) := by
  intro mode size w e v made
  exact (makeEvaluator_eq_ok made).1

/-- Whatever a new controller was called for.  A run cannot be started while one is going on.  The
steps of the latest run are numbered from one on in their reports, there are not more of them than
were asked for, and with proper settings each has led to a report; a tick without a report takes no
step.  A request to stop ends the run at the next tick, and has no effect on any other run.  There
is a result when and only when a run has ended, and it tells how, and what the search of that run
has found in how many steps. -/
theorem account_protocol (fitness : FitnessConfig) (w : Surroundings Oracle) (watch : Stopwatch)
    (calls : List Call) :
    let evaluators := makeEvaluator fitness
    let a := account evaluators w watch calls
    let c := a.controller
    (c.phase = .running → ∀ config, c.start evaluators config = (.error .alreadyRunning, c)) ∧
      ((∀ (i : Nat) report, a.steps[i]? = some (.ok report) → report.iteration = i + 1) ∧
        (∀ run, c.latest = some run → a.steps.length ≤ run.plan.config.maxIterations.value ∧
          (run.plan.config.Proper → ∀ step ∈ a.steps, ∃ report, step = .ok report)) ∧
        ∀ d, c.tick = (.ok none, d) → d.latest = c.latest ∧ d.surroundings = c.surroundings) ∧
      ((c.phase = .running → ∀ more, .tick ∉ more → ∃ d,
          (account evaluators w watch (calls ++ .stop :: more)).controller.tick = (.ok none, d) ∧
            d.phase = .stopped ∧ d.latest = c.latest) ∧
        (c.phase ≠ .running → c.stop = c) ∧
        (c.phase ≠ .running → ∀ asked more,
          Account.SameRun (a.afterAll evaluators more)
            (Account.afterAll evaluators ⟨{ c with stopRequested := asked }, a.steps⟩ more))) ∧
      (c.result = none ↔ c.phase = .idle ∨ c.phase = .running) ∧
      ∀ r, c.result = some r → ∃ run, c.latest = some run ∧ r.Tells run c.phase a.steps.length := by
  intro evaluators a c
  have lawful : a.Lawful := account_lawful w watch calls
  have smooth : a.Smooth := account_smooth (makeEvaluator_fits fitness) w watch calls
  refine ⟨fun running => Controller.start_of_running running, ⟨lawful.numbered, ?_, ?_⟩,
    ⟨?_, Controller.stop_of_not_running, ?_⟩, lawful.result_eq_none_iff, ?_⟩
  · intro run latest
    exact ⟨lawful.bounded latest, fun proper => ((smooth run latest).2 proper).2⟩
  · intro d tick
    exact lawful.silent tick
  · intro running more noTick
    obtain ⟨-, run, latest, -⟩ := lawful.running running
    rw [account, Account.afterAll, List.foldl_append]
    exact Account.stop_ends running latest noTick
  · intro other asked more
    have same : Account.SameRun a ⟨{ c with stopRequested := asked }, a.steps⟩ :=
      ⟨rfl, ⟨asked, rfl⟩, fun running => absurd running other⟩
    exact same.afterAll more
  · intro r result
    exact lawful.tells result

/-- A run that is asked to stop after its last step: it has been stopped, with both steps reported
and counted. -/
theorem account_protocol_last_step :
    let config : SearchConfig :=
      { maxIterations := .ofNat 2, maxDepth := .ofNat 0, sampleSize := .ofNat 1 }
    let a := account (makeEvaluator default) ⟨⟨[0.5], 7, 0⟩, .empty 1000⟩ ⟨0.0, 0.25, []⟩
      [.start config, .tick, .tick, .stop, .tick]
    a.controller.phase = .stopped ∧ a.steps.length = 2 ∧
      (∀ step ∈ a.steps, ∃ report, step = .ok report) ∧
        ∃ r, a.controller.result = some r ∧ r.status = .stopped ∧ r.iterations = 2 := by
  intro config a
  have protocol := account_protocol default ⟨⟨[0.5], 7, 0⟩, .empty 1000⟩ ⟨0.0, 0.25, []⟩
    [.start config, .tick, .tick, .stop, .tick]
  obtain ⟨stopped, taken, settings⟩ : a.controller.phase = .stopped ∧ a.steps.length = 2 ∧
      a.controller.latest.all (fun run => decide run.plan.config.Proper) = true := by
    decide +kernel
  have same : account (makeEvaluator default) ⟨⟨[0.5], 7, 0⟩, .empty 1000⟩ ⟨0.0, 0.25, []⟩
    [.start config, .tick, .tick, .stop, .tick] = a := rfl
  simp only [same] at protocol
  clear_value a
  obtain ⟨-, ⟨-, smooth, -⟩, -, noResult, tells⟩ := protocol
  obtain ⟨r, result⟩ : ∃ r, a.controller.result = some r := by
    apply Option.ne_none_iff_exists'.mp
    rw [Ne, noResult, stopped]
    decide
  obtain ⟨run, latest, told⟩ := tells r result
  have proper : run.plan.config.Proper := by
    rw [latest] at settings
    exact of_decide_eq_true settings
  exact ⟨stopped, taken, (smooth run latest).2 proper, r, result, told.status.trans stopped,
    told.iterations.trans taken⟩

/-- Settings that are accepted although they are not proper.  Where a rate of the genetic algorithm
is left open, or annealing starts at a temperature beyond the doubles, a step fails that has been
counted, so a run without a report ends with one iteration.  A run of one and a half steps makes a
second one. -/
theorem account_of_improper :
    let openRate : SearchRequest := {
      algorithm := .str "ga", maxIterations := .int 1, sampleSize := .int 1, maxDepth := .int 0
      populationSize := .int 2, randomRate := .real 0.0, mutationRate := .null }
    let tooHot : SearchRequest := {
      algorithm := .str "sa", maxIterations := .int 1, sampleSize := .int 1, maxDepth := .int 0
      startTemperature := .int (10 ^ 200 * 10 ^ 200) }
    let half : SearchRequest := {
      maxIterations := .real 1.5, sampleSize := .int 1, maxDepth := .int 0 }
    ∃ config config' config'', openRate.check = .ok config ∧ tooHot.check = .ok config' ∧
      half.check = .ok config'' ∧
      let run (config : SearchConfig) (ticks : Nat) := account (makeEvaluator default)
        ⟨⟨[0.0, 0.9], 7, 0⟩, .empty 1000⟩ ⟨0.0, 0.25, []⟩
        (.start config :: List.replicate ticks .tick)
      (run config 2).controller.result.map (·.iterations) = some 1 ∧
        (run config 2).steps.filterMap (·.toOption.map (·.iteration)) = [] ∧
        (run config' 2).controller.result.map (·.iterations) = some 1 ∧
        (run config' 2).steps.filterMap (·.toOption.map (·.iteration)) = [] ∧
        (run config'' 2).steps.filterMap (·.toOption.map (·.iteration)) = [1, 2] ∧
          config''.maxIterations.given.isBelow 2 = true := by
  intro openRate tooHot half
  refine ⟨_, _, _, rfl, rfl, rfl, ?_⟩
  decide +kernel

end PrimeSearch
