/-
Module: PrimeSearch.Proofs.Cli.Searching
Purpose: A candidate that is scored and a search that is begun from the command line come to their
  end, unless they cannot begin or cannot be saved.
Main exports: Seeding.fault, SearchOptions.fault, ScoreOptions.fault, Task.observing_keeps,
  Task.runSearch_works, Task.SearchBreaks, Task.followSearch_works, Task.searchWith_concludes,
  Task.scoreCandidate_works
-/
import PrimeSearch.Cli.Inspect
import PrimeSearch.Proofs.Cli.Saving
import PrimeSearch.Proofs.Search.Driving

namespace PrimeSearch

/-! ### Faults -/

/-- Why no source starts from a seed. -/
def Seeding.fault (seeding : Seeding) (seed : Json) : Option SeedError :=
  match seeding (seedNumber? seed) with
  | .ok _ => none
  | .error e => some e

/-- Why a search with accepted settings cannot be made: its source is started before the search is
begun. -/
def SearchOptions.fault (o : SearchOptions) (seeding : Seeding) (config : SearchConfig) :
    Option CommandError :=
  match seeding.fault o.seed with
  | some e => some (.seed e)
  | none => config.startFault.map .search

/-- Why a candidate of a mode cannot be scored with samples of a whole size: the source is started
before the samples are laid out. -/
def ScoreOptions.fault (o : ScoreOptions) (seeding : Seeding) (mode : Mode) (n : Int) :
    Option CommandError :=
  match seeding.fault o.seed with
  | some e => some (.seed e)
  | none => (mode.sizeFault n).map .oracle

namespace Task

variable {α β : Type} {run : Option SavedRun} {F : CommandError → Prop}

/-- The oracle of a new context can be relied on. -/
theorem oracle_reliable (bound : Int) : (Context.oracle bound).Reliable := by
  have start : Oracle.Reliable (.empty Oracle.defaultLimit) :=
    ⟨Oracle.sound_empty (by decide), by decide⟩
  unfold Context.oracle
  dsimp only
  split
  next => exact start.after (.preCache bound)
  next => exact start

/-- A context is opened with an oracle that can be relied on, unless its seed is refused. -/
theorem openContext_works (seeding : Seeding) (seed : Json) (fitness : FitnessConfig) :
    Works run (openContext seeding seed fitness)
      (fun context => seeding.fault seed = none ∧ context.surroundings.memory.Reliable)
      fun e => ∃ why, seeding.fault seed = some why ∧ e = .seed why := by
  unfold openContext Seeding.fault
  have reliable := oracle_reliable Context.defaultPreCache
  generalize Context.oracle Context.defaultPreCache = oracle at reliable
  refine .bind (logSievings_works _) fun _ _ => ?_
  cases seeding (seedNumber? seed) with
  | ok source => exact .pure ⟨rfl, reliable⟩
  | error why => exact .throw ⟨why, rfl, rfl⟩

/-! ### Observing a search -/

/-- Progress is shown, and a checkpoint is saved for a run. -/
theorem follow_works {o : SearchOptions} (interval : (Quantity.ofJson? o.tickInterval).isSome = true)
    (r : Report) : Works run (follow o run r) (fun _ => True) (TooLong run) := by
  have spaced : ¬(Quantity.ofJson? o.tickInterval).isNone = true := by
    rw [← Option.not_isSome, interval]
    decide
  unfold follow
  rw [if_neg spaced]
  cases run with
  | none =>
      dsimp only
      exact .ite (fun _ => .bind (say_works _) fun _ _ => .pure trivial) fun _ => .pure trivial
  | some run =>
      have saved := saveCheckpoint_works (r := run) (checkpointJson r) r.iteration
      dsimp only
      generalize filing (run.saveCheckpoint (checkpointJson r) (checkpointName r.iteration)) = save
        at saved ⊢
      have due : Works (some run)
          (if isDue o.checkpointInterval r.iteration then save >>= fun _ => Pure.pure ()
            else Pure.pure ()) (fun _ => True) (TooLong (some run)) :=
        .ite (fun _ => .bind saved fun _ _ => .pure trivial) fun _ => .pure trivial
      exact .ite (fun _ => .bind (say_works _) fun _ _ => due) fun _ => due

theorem run_observing (observe : Report → Task Unit) (r : Report) (s : Session)
    (failure : Option CommandError) :
    (observing observe r).run (s, failure) =
      match ((observe r).run.run s : Except CommandError Unit × Session) with
      | (.ok _, t) => (false, t, failure)
      | (.error e, t) => (true, t, some e) := by
  unfold observing
  cases run : ((observe r).run.run s : Except CommandError Unit × Session) with
  | mk outcome t =>
      dsimp only [StateT.run] at run ⊢
      rw [run]
      cases outcome with | ok | error => rfl

/-- An observer goes on quietly, and if it breaks off it is for one of its reasons. -/
theorem observing_keeps {observe : Report → Task Unit} {r : Report}
    (observed : Works run (observe r) (fun _ => True) F) (s : Session)
    (kept : Session × Option CommandError) (goes : s.Goes run kept.1 ∧ ∀ e ∈ kept.2, F e) :
    s.Goes run ((observing observe r).run kept).2.1 ∧
      ∀ e ∈ ((observing observe r).run kept).2.2, F e := by
  obtain ⟨t, failure⟩ := kept
  have concludes := observed t goes.1.holds
  rw [run_observing]
  split
  next u run => exact ⟨goes.1.trans (concludes.of_run run).1, goes.2⟩
  next e u run =>
    obtain ⟨after, reason⟩ := concludes.of_failure run
    refine ⟨goes.1.trans after, fun e' broke => ?_⟩
    obtain rfl := Option.some.inj broke
    exact reason

/-- A search that can make its steps is driven quietly to its result, unless its observer breaks off. -/
theorem drive_observing {observe : Report → Task Unit}
    (observed : ∀ r, Works run (observe r) (fun _ => True) F) {c : Controller Oracle}
    (steady : c.Steady) {ticks : Nat} (within : c.EndsWithin ticks) (interval : Float) {s : Session}
    (holds : s.Holds run) :
    ∃ c' result t failure, (c.drive (observing observe) interval ticks).run (s, none) =
        ((.ok (), c'), t, failure) ∧
      c'.result = some result ∧ (result.status = .stopped ∨ result.status = .completed) ∧
      s.Goes run t ∧ ∀ e ∈ failure, F e := by
  have goes : s.Goes run s ∧ ∀ e ∈ (none : Option CommandError), F e :=
    ⟨.refl holds, fun e broke => nomatch broke⟩
  obtain ⟨driven, after, ends⟩ := Controller.drive_succeeds
    (fun r => observing_keeps (observed r) s) interval ticks steady (s, none) goes
  obtain ⟨-, found⟩ := Controller.drive_ends (observing observe) interval within (s, none) driven
  generalize (c.drive (observing observe) interval ticks).run (s, none) = outcome
    at driven after ends found ⊢
  obtain ⟨⟨answer, c'⟩, t, failure⟩ := outcome
  obtain rfl : answer = .ok () := driven
  obtain ⟨result, found⟩ := Option.isSome_iff_exists.mp found
  exact ⟨c', result, t, failure, rfl, found, after.settled result found, ends⟩

/-! ### Searching -/

/-- A search with settings in whole numbers ends with a result that can be recorded, unless it cannot
begin or its observer breaks off. -/
theorem runSearch_works {context : Context} (reliable : context.surroundings.memory.Reliable)
    {config : SearchConfig} (whole : config.Whole) {observe : Report → Task Unit}
    (observed : ∀ r, Works run (observe r) (fun _ => True) F) (interval : Float) :
    Works run (runSearch context config observe interval)
      (fun (result, _) => config.startFault = none ∧ runStatuses.contains result.status.name = true)
      fun e => F e ∨ ∃ why, config.startFault = some why ∧ e = .search why := by
  unfold runSearch
  refine .bind (log_works _) fun _ _ => .bind (log_works _) fun _ _ => .get_bind fun s => ?_
  have free : (Controller.new context.surroundings s.watch).phase ≠ .running := by
    intro running
    cases running
  have started := Controller.start_whole context.fitness whole free reliable
  generalize begins : (Controller.new context.surroundings s.watch).start _ _ = start at started ⊢
  obtain ⟨begun, c⟩ := start
  refine .bind (logSievings_works _) fun _ _ => ?_
  cases fault : config.startFault with
  | some why =>
      rw [fault] at started
      obtain ⟨d, begins⟩ := started
      obtain rfl := (Prod.mk.inj begins).1
      exact .throw (.inr ⟨why, rfl, rfl⟩)
  | none =>
      rw [fault] at started
      obtain ⟨d, same, steady⟩ := started
      obtain ⟨rfl, rfl⟩ := Prod.mk.inj same
      intro t holds
      obtain ⟨c', result, u, failure, driven, found, settled, goes, reasons⟩ :=
        drive_observing observed steady (.start begins) interval holds
      refine .get_bind ?_
      rw [driven]
      have watched : t.Goes run { u with watch := c'.watch } :=
        ⟨⟨goes.complaints, goes.places⟩, goes.holds.same rfl rfl⟩
      have counted : (set { u with watch := c'.watch } : Task Unit).run.run t =
          (.ok (), { u with watch := c'.watch }) := rfl
      cases failure with
      | some e => exact .ok_bind counted (.throw ⟨watched, .inl (reasons e rfl)⟩)
      | none =>
          have known : runStatuses.contains (c'.result.getD default).status.name = true := by
            rw [found]
            rcases settled with stopped | completed
            · rw [Option.getD_some, stopped]; decide
            · rw [Option.getD_some, completed]; decide
          exact .ok_bind counted
            (Works.after (.bind (log_works _) fun _ _ => .pure ⟨rfl, known⟩) watched)

/-- Why a search with accepted settings breaks off: it cannot be saved, or it cannot be made. -/
def SearchBreaks (seeding : Seeding) (o : SearchOptions) (config : SearchConfig) (s : Site)
    (e : CommandError) : Prop :=
  (∃ a, e = .archive a ∧ o.Unsaved s a) ∨ o.fault seeding config = some e

/-- A run is made if the search is to be saved. -/
theorem savedRun_concludes (seeding : Seeding) {o : SearchOptions} {s : Session}
    (sound : o.save = true → s.site.Sound) (config : SearchConfig) (fitness : FitnessConfig) :
    Concludes (if o.save then some <$> newRun o config fitness else Pure.pure none) s
      (fun run t => s.Quiet run.isSome t ∧ run.isSome = o.save ∧
        ∀ r ∈ run, ∃ a root, r.Kept a root t.site)
      fun e t => s.Quiet o.save t ∧ SearchBreaks seeding o config s.site e := by
  refine .ite (fun saves => ?_) fun unsaved => ?_
  · refine Concludes.bind ((newRun_concludes (sound saves) o config fitness).mono (fun _ _ => id) ?_) ?_
    · rintro e t ⟨quiet, a, rfl, why⟩
      exact ⟨saves ▸ quiet, .inl ⟨a, rfl, saves, why⟩⟩
    · rintro r t ⟨quiet, kept⟩
      refine .pure ⟨quiet, saves.symm, fun r' same => ?_⟩
      obtain rfl := Option.some.inj same
      exact kept
  · exact .pure ⟨.refl _ s, (Bool.eq_false_iff.mpr unsaved).symm, fun r none => nomatch none⟩

/-- Once its context is open, a search is only kept from being made if it cannot begin. -/
theorem openSearch_works (seeding : Seeding) (o : SearchOptions) (config : SearchConfig)
    (fitness : FitnessConfig) :
    Works run (openContext seeding o.seed fitness)
      (fun context => o.fault seeding config = config.startFault.map .search ∧
        context.surroundings.memory.Reliable)
      fun e => o.fault seeding config = some e := by
  refine (openContext_works seeding o.seed fitness).mono ?_ ?_
  · rintro context ⟨seeded, reliable⟩
    exact ⟨by rw [SearchOptions.fault, seeded], reliable⟩
  · rintro e ⟨why, fault, rfl⟩
    rw [SearchOptions.fault, fault]

/-- A search is followed to its end, if it can be made and its checkpoints can be saved. -/
theorem followSearch_works {seeding : Seeding} {o : SearchOptions} {config : SearchConfig}
    {context : Context} (whole : config.Whole)
    (interval : (Quantity.ofJson? o.tickInterval).isSome = true)
    (reliable : context.surroundings.memory.Reliable)
    (begins : o.fault seeding config = config.startFault.map .search) :
    Works run (runSearch context config (follow o run) (pauseOf o.tickInterval))
      (fun (result, _) => o.fault seeding config = none ∧
        runStatuses.contains result.status.name = true)
      fun e => TooLong run e ∨ o.fault seeding config = some e := by
  rw [begins]
  refine (runSearch_works reliable whole (follow_works interval) _).mono ?_ ?_
  · rintro ⟨result, _⟩ ⟨faultless, known⟩
    exact ⟨congrArg (Option.map CommandError.search) faultless, known⟩
  · rintro e (long | ⟨why, fault, rfl⟩)
    · exact .inl long
    · exact .inr (congrArg (Option.map CommandError.search) fault)

/-- A search with accepted settings ends with the exit code zero. -/
theorem searchWith_concludes (seeding : Seeding) {o : SearchOptions} {config : SearchConfig}
    (whole : config.Whole) (interval : (Quantity.ofJson? o.tickInterval).isSome = true)
    (fitness : FitnessConfig) {s : Session} (sound : o.save = true → s.site.Sound) :
    Concludes (searchWith seeding o config fitness) s
      (fun code t => s.Quiet o.save t ∧ code = 0 ∧ o.fault seeding config = none)
      fun e t => s.Quiet o.save t ∧ SearchBreaks seeding o config s.site e := by
  unfold searchWith
  refine Concludes.ite_bind (savedRun_concludes seeding sound config fitness) ?_
  rintro run t ⟨quiet, saving, kept⟩
  have unsaved {e : CommandError} (long : TooLong run e) :
      SearchBreaks seeding o config s.site e := by
    obtain ⟨saved, a, rfl, long⟩ := long
    exact .inl ⟨a, rfl, saving ▸ saved, .inl long⟩
  have fails (e : CommandError) (u : Session) (goes : t.Goes run u)
      (why : TooLong run e ∨ o.fault seeding config = some e) :
      s.Quiet run.isSome u ∧ SearchBreaks seeding o config s.site e :=
    ⟨quiet.trans goes.toQuiet, why.elim unsaved .inr⟩
  rw [← saving]
  refine Concludes.bind ((startLog_concludes kept o.verbose).mono (fun _ _ => id)
    fun e u ⟨after, long⟩ => ⟨quiet.trans after, unsaved long⟩) fun _ u goes => ?_
  refine ((openSearch_works seeding o config fitness).mono (fun _ => id) fun _ => .inr).step goes
    (fun context u goes ⟨begins, reliable⟩ => ?_) fails
  refine (say_works _).step goes (fun _ u goes _ => ?_) fails
  refine (followSearch_works whole interval reliable begins).step goes
    (fun (result, oracle) u goes ⟨begun, known⟩ => ?_) fails
  refine (sayAll_works _).step goes (fun _ u goes _ => ?_) fails
  refine (log_works _).step goes (fun _ u goes _ => ?_) fails
  dsimp only
  cases run with
  | none => exact .pure ⟨quiet.trans goes.toQuiet, rfl, begun⟩
  | some run =>
      refine (saveResults_works _).or.step goes (fun _ u goes _ => ?_) fails
      refine Concludes.bind ((complete_concludes goes.holds known _).mono (fun _ _ => id)
        fun _ _ => False.elim) fun _ v recorded => ?_
      -- The notes in memory are those of before, so the run is no longer kept as it is known here.
      have said : Works none (sayWhere run) (fun _ => True) fun _ => False :=
        .get_bind fun _ => sayAll_works _
      refine said.step (.refl trivial) (fun _ w shown _ => ?_) fun _ _ _ => False.elim
      have after := recorded.trans (shown.toQuiet.weaken true)
      exact .pure ⟨(quiet.trans goes.toQuiet).trans after, rfl, begun⟩

/-! ### Scoring -/

/-- A candidate is scored, unless there is something wrong with the seed or with the size of the
sample. -/
theorem scoreCandidate_works (seeding : Seeding) {o : ScoreOptions} {n : Int}
    (size : o.sampleSize = .int n) (c : Candidate) (fitness : FitnessConfig) :
    Works none (scoreCandidate seeding o c fitness)
      (fun code => code = 0 ∧ o.fault seeding c.mode n = none)
      fun e => o.fault seeding c.mode n = some e := by
  unfold scoreCandidate
  have silent : Works none (startLog none o.verbose) (fun _ => True) fun e =>
      o.fault seeding c.mode n = some e :=
    .modify fun _ _ => ⟨⟨rfl, fun _ => .refl _⟩, trivial⟩
  refine .bind silent fun _ _ => ?_
  refine .bind ((openContext_works seeding o.seed fitness).mono (fun _ => id) ?_)
    fun context ⟨seeded, reliable⟩ => .bind (log_works _) fun _ _ => ?_
  · rintro e ⟨why, fault, rfl⟩
    rw [ScoreOptions.fault, fault]
  rw [ScoreOptions.fault, seeded]
  have wanted : evaluatorFor fitness c.mode o.sampleSize =
      makeEvaluator fitness c.mode (.whole n) := by
    rw [size]
    rfl
  have made := makeEvaluator_whole fitness c.mode n reliable
  rw [wanted]
  dsimp only
  generalize (makeEvaluator fitness c.mode (.whole n)).run.run context.surroundings = outcome
    at made ⊢
  obtain ⟨evaluator, w⟩ := outcome
  refine .bind (logSievings_works _) fun _ _ => ?_
  cases fault : c.mode.sizeFault n with
  | some why =>
      rw [fault] at made
      obtain ⟨v, made⟩ := made
      obtain rfl := (Prod.mk.inj made).1
      exact .throw rfl
  | none =>
      rw [fault] at made
      obtain ⟨evaluator', v, made⟩ := made
      obtain rfl := (Prod.mk.inj made).1
      exact .bind (sayAll_works _) fun _ _ => .pure ⟨rfl, rfl⟩

end Task

end PrimeSearch
