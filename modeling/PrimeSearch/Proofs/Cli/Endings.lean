/-
Module: PrimeSearch.Proofs.Cli.Endings
Purpose: How a command line that scores a candidate or runs a search ends, whatever its options, its
  candidate and its fitness configuration are.
Main exports: Verdict, ScoreOptions.verdict, SearchOptions.verdict, CommandError.Unguarded,
  Verdict.Explained, Session.Ends, Task.score_ends, Task.search_ends, Session.perform_ends
-/
import PrimeSearch.Cli.Perform
import PrimeSearch.Proofs.Cli.Searching
import PrimeSearch.Proofs.Cli.Settings
import PrimeSearch.Proofs.Fitness.Settings

namespace PrimeSearch

/-!
What a score or a search comes to is settled by its candidate, its configuration, its seed and its
settings alone: nothing that happens later while candidates are drawn and scored can end it otherwise.
The verdict says what it is.  Four errors are not guarded against on the way: configurations of an
unforeseen form, seeds that the source of randomness refuses, samples of a size that has no table or,
for a score, is not positive, and histories that are too long.  Only a search that is to be saved may
besides fail at its archive.
-/

/-! ### Verdicts -/

/-- What a command comes to before it works. -/
inductive Verdict where
  | clear
  /-- It is said what is wrong. -/
  | problem (text : String)
  | broken (error : CommandError)

/-- The fitness configuration of a file, or what a command with it comes to. -/
def Site.fitness (s : Site) : Option String → Except Verdict FitnessConfig
  | none => .ok .default
  | some path =>
      match (s.find (.asWritten path)).bind s.files.read with
      | .error fault => .error (.problem ("Invalid configuration: " ++ fault.message path))
      | .ok text =>
          match FitnessConfig.ofText text with
          | .ok config => .ok config
          | .error e =>
              .error (if e.isExpected then .problem ("Invalid configuration: " ++ e.message)
                else .broken (.config e))

/-- What scoring a candidate with samples of a whole size comes to. -/
def ScoreOptions.verdict (o : ScoreOptions) (seeding : Seeding) (n : Int) (s : Site) : Verdict :=
  match Candidate.parse o.candidate with
  | .error e => .problem ("Parse error: " ++ e.message)
  | .ok c =>
      match s.fitness o.fitnessConfig with
      | .error v => v
      | .ok _ =>
          match o.fault seeding c.mode n with
          | some e => .broken e
          | none => .clear

/-- What a search comes to. -/
def SearchOptions.verdict (o : SearchOptions) (seeding : Seeding) (s : Site) : Verdict :=
  match s.fitness o.fitnessConfig with
  | .error v => v
  | .ok _ =>
      match o.request.check with
      | .error e => .problem ("Invalid configuration: " ++ e.message)
      | .ok config =>
          match o.fault seeding config with
          | some e => .broken e
          | none => .clear

/-- The errors that nothing on the way to a score or a search guards against. -/
inductive CommandError.Unguarded : CommandError → Prop where
  | form {j : Json} {e : ConfigError} (unforeseen : FitnessConfig.Unforeseen j e) :
      Unguarded (.config e)
  | seed (e : SeedError) : Unguarded (.seed e)
  | size {n : Int} (small : n < 1) : Unguarded (.oracle (.sampleSize (.whole n)))
  | table : Unguarded (.oracle (.misfit .tableTooLong))
  | searchTable : Unguarded (.search (.evaluator (.misfit .tableTooLong)))
  | history : Unguarded (.search (.search (.misfit .tooLong)))

/-- An error that a verdict names is one that is not guarded against. -/
def Verdict.Explained (v : Verdict) : Prop := ∀ e, v = .broken e → e.Unguarded

theorem Site.fitness_explained {s : Site} {path : Option String} {v : Verdict}
    (failed : s.fitness path = .error v) : v.Explained := by
  cases path with
  | none => cases failed
  | some path =>
      dsimp only [Site.fitness] at failed
      split at failed
      next =>
        obtain rfl := Except.error.inj failed
        exact fun _ => nofun
      next text _ =>
        split at failed
        next => cases failed
        next e refused =>
          obtain rfl := Except.error.inj failed
          split
          next => exact fun _ => nofun
          next unexpected =>
            intro e' broken
            obtain rfl := Verdict.broken.inj broken
            unfold FitnessConfig.ofText at refused
            split at refused
            next j _ =>
              have why := FitnessConfig.ofJson_unexpected_iff.mp
                ⟨refused, Bool.eq_false_iff.mpr unexpected⟩
              exact .form why
            next =>
              obtain rfl := Except.error.inj refused
              exact absurd rfl unexpected

theorem Mode.sizeFault_eq_some {mode : Mode} {n : Int} {e : OracleError}
    (fault : mode.sizeFault n = some e) :
    n < 1 ∧ e = .sampleSize (.whole n) ∨ e = .misfit .tableTooLong := by
  unfold Mode.sizeFault at fault
  split at fault
  next small => exact .inl ⟨small, (Option.some.inj fault).symm⟩
  next =>
    split at fault
    next => exact .inr (Option.some.inj fault).symm
    next => cases fault

/-- Nothing guards against what keeps a candidate from being scored. -/
theorem ScoreOptions.fault_explained {o : ScoreOptions} {seeding : Seeding} {mode : Mode} {n : Int}
    {e : CommandError} (fault : o.fault seeding mode n = some e) : e.Unguarded := by
  unfold ScoreOptions.fault at fault
  split at fault
  next =>
    obtain rfl := Option.some.inj fault
    exact .seed _
  next =>
    obtain ⟨why, unsized, rfl⟩ := Option.map_eq_some_iff.mp fault
    rcases Mode.sizeFault_eq_some unsized with ⟨small, rfl⟩ | rfl
    · exact .size small
    · exact .table

theorem ScoreOptions.verdict_explained (o : ScoreOptions) (seeding : Seeding) (n : Int) (s : Site) :
    (o.verdict seeding n s).Explained := by
  unfold ScoreOptions.verdict
  split
  next => exact fun _ => nofun
  next c _ =>
    split
    next failed => exact Site.fitness_explained failed
    next =>
      split
      next fault =>
        intro e broken
        obtain rfl := Verdict.broken.inj broken
        exact fault_explained fault
      next => exact fun _ => nofun

/-- Nothing guards against what keeps a search from beginning.  Its samples are not empty, so they can
only be too long. -/
theorem SearchConfig.startFault_explained {config : SearchConfig} {why : ControllerError}
    (fault : config.startFault = some why) : CommandError.Unguarded (.search why) := by
  unfold SearchConfig.startFault at fault
  split at fault
  next unsized =>
    obtain rfl := Option.some.inj fault
    have positive := config.sampleSize.least_le
    rcases Mode.sizeFault_eq_some unsized with ⟨small, -⟩ | rfl
    · omega
    · exact .searchTable
  next =>
    split at fault
    next =>
      obtain rfl := Option.some.inj fault
      exact .history
    next => cases fault

/-- Nothing guards against what keeps a search from being made. -/
theorem SearchOptions.fault_explained {o : SearchOptions} {seeding : Seeding} {config : SearchConfig}
    {e : CommandError} (fault : o.fault seeding config = some e) : e.Unguarded := by
  unfold SearchOptions.fault at fault
  split at fault
  next =>
    obtain rfl := Option.some.inj fault
    exact .seed _
  next =>
    obtain ⟨why, unbegun, rfl⟩ := Option.map_eq_some_iff.mp fault
    exact SearchConfig.startFault_explained unbegun

theorem SearchOptions.verdict_explained (o : SearchOptions) (seeding : Seeding) (s : Site) :
    (o.verdict seeding s).Explained := by
  unfold SearchOptions.verdict
  split
  next failed => exact Site.fitness_explained failed
  next =>
    split
    next => exact fun _ => nofun
    next config _ =>
      split
      next fault =>
        intro e broken
        obtain rfl := Verdict.broken.inj broken
        exact fault_explained fault
      next => exact fun _ => nofun

/-! ### Endings -/

/-- How a command ends after a verdict.  A run is saved only by a search that was asked to, and only
once its settings were accepted; if that fails, it is for one of the reasons that `unsaved` lists. -/
inductive Session.Ends (s : Session) (saving : Bool) (unsaved : ArchiveError → Prop) :
    Verdict → Ending → Session → Prop where
  | well {t : Session} (quiet : s.fresh.Quiet saving t) : s.Ends saving unsaved .clear (.exit 0) t
  | refused {text : String} {t : Session} (told : t.complaints = [text])
      (places : s.site.files.SamePlaces t.site.files) :
      s.Ends saving unsaved (.problem text) (.exit 1) t
  | broken {e : CommandError} {t : Session} (quiet : s.fresh.Quiet saving t) :
      s.Ends saving unsaved (.broken e) (.failed e) t
  | unsaved {v : Verdict} {a : ArchiveError} {t : Session} (lost : unsaved a)
      (accepted : ∀ text, v ≠ .problem text) (quiet : s.fresh.Quiet saving t) :
      s.Ends saving unsaved v (.failed (.archive a)) t

namespace Session.Ends

variable {s t : Session} {saving : Bool} {unsaved : ArchiveError → Prop} {ending : Ending}
  {text : String} {e : CommandError}

theorem of_clear (ends : s.Ends saving unsaved .clear ending t) :
    ending = .exit 0 ∨ ∃ a, unsaved a ∧ ending = .failed (.archive a) := by
  cases ends with
  | well => exact .inl rfl
  | unsaved lost => exact .inr ⟨_, lost, rfl⟩

theorem of_problem (ends : s.Ends saving unsaved (.problem text) ending t) :
    ending = .exit 1 ∧ t.complaints = [text] ∧ s.site.files.SamePlaces t.site.files := by
  cases ends with
  | refused told places => exact ⟨rfl, told, places⟩
  | unsaved _ accepted => exact absurd rfl (accepted text)

theorem of_broken (ends : s.Ends saving unsaved (.broken e) ending t) :
    ending = .failed e ∨ ∃ a, unsaved a ∧ ending = .failed (.archive a) := by
  cases ends with
  | broken => exact .inl rfl
  | unsaved lost => exact .inr ⟨_, lost, rfl⟩

end Session.Ends

namespace Task

variable {s : Session} {saving : Bool} {unsaved : ArchiveError → Prop}

/-- What loading a fitness configuration from a file does. -/
theorem run_loadFitness_file (path : String) (s : Session) :
    (loadFitness (some path)).run.run s =
      match (s.site.find (.asWritten path)).bind s.site.files.read with
      | .error fault => (.ok (.error (fault.message path)), s)
      | .ok text =>
          match FitnessConfig.ofText text with
          | .ok config => (.ok (.ok config), s)
          | .error e =>
              (if e.isExpected then .ok (.error e.message) else .error (.config e), s) := by
  unfold loadFitness
  rw [run_bind_ok (m := get) (s := s) (t := s) (a := s) rfl]
  cases (s.site.find (.asWritten path)).bind s.site.files.read with
  | error fault => rfl
  | ok text =>
      dsimp only
      cases FitnessConfig.ofText text with
      | ok config => rfl
      | error e =>
          dsimp only
          split
          next => rfl
          next => rfl

/-- A fitness configuration is read, or it is settled what a command with it comes to. -/
theorem run_loadFitness (path : Option String) (s : Session) :
    match s.site.fitness path with
    | .ok config => (loadFitness path).run.run s = (.ok (.ok config), s)
    | .error v =>
        (∃ problem, v = .problem ("Invalid configuration: " ++ problem) ∧
          (loadFitness path).run.run s = (.ok (.error problem), s)) ∨
        ∃ e, v = .broken e ∧ (loadFitness path).run.run s = (.error e, s) := by
  cases path with
  | none => exact rfl
  | some path =>
      dsimp only [Site.fitness]
      rw [run_loadFitness_file path s]
      cases (s.site.find (.asWritten path)).bind s.site.files.read with
      | error fault => exact .inl ⟨_, rfl, rfl⟩
      | ok text =>
          dsimp only
          cases FitnessConfig.ofText text with
          | ok config => exact rfl
          | error e =>
              dsimp only
              split
              next => exact .inl ⟨_, rfl, rfl⟩
              next => exact .inr ⟨_, rfl, rfl⟩

/-- A command that is refused makes one complaint. -/
theorem complain_ends {text : String} {t : Session} (quiet : s.fresh.Quiet false t) :
    Concludes (complain text >>= fun _ => return 1) t
      (fun code u => s.Ends saving unsaved (.problem text) (.exit code) u)
      fun e u => s.Ends saving unsaved (.problem text) (.failed e) u := by
  have told : (text :: t.complaints : List String) = [text] := by rw [quiet.complaints]; rfl
  have places : s.site.files.SamePlaces t.site.files := quiet.places rfl
  exact .ok (t := { t with complaints := text :: t.complaints }) rfl (.refused told places)

/-- A command that has no fitness configuration to work with ends as it is settled. -/
theorem unloaded_ends {path : Option String} {v : Verdict} (failed : s.site.fitness path = .error v)
    {rest : Except String FitnessConfig → Task Nat}
    (complains : ∀ problem, rest (.error problem) =
      (complain ("Invalid configuration: " ++ problem) >>= fun _ => return 1)) :
    Concludes (loadFitness path >>= rest) s.fresh
      (fun code t => s.Ends saving unsaved v (.exit code) t)
      fun e t => s.Ends saving unsaved v (.failed e) t := by
  have loaded := run_loadFitness path s.fresh
  rw [show s.fresh.site = s.site from rfl, failed] at loaded
  rcases loaded with ⟨problem, rfl, run⟩ | ⟨e, rfl, run⟩
  · refine .ok_bind run ?_
    rw [complains]
    exact complain_ends (.refl false s.fresh)
  · exact .error_bind run (.broken (.refl saving s.fresh))

theorem logUnparsable_works {F : CommandError → Prop} (text : String) :
    Works none (logUnparsable text) (fun _ => True) F := by
  unfold logUnparsable
  split
  next => exact log_works _
  next => exact .pure trivial

theorem score_ends (seeding : Seeding) {o : ScoreOptions} {n : Int} (size : o.sampleSize = .int n) :
    Concludes (score seeding o) s.fresh
      (fun code t => s.Ends false (fun _ => False) (o.verdict seeding n s.site) (.exit code) t)
      fun e t => s.Ends false (fun _ => False) (o.verdict seeding n s.site) (.failed e) t := by
  unfold score ScoreOptions.verdict
  cases Candidate.parse o.candidate with
  | error e =>
      dsimp only
      split
      next text _ =>
        have logged : Works none (logUnparsable text) (fun _ => True) fun _ => False :=
          logUnparsable_works text
        exact logged.step (.refl trivial) (fun _ t goes _ => complain_ends goes.toQuiet)
          fun _ _ _ => False.elim
      next => exact complain_ends (.refl false s.fresh)
  | ok c =>
      dsimp only
      cases fitness : s.site.fitness o.fitnessConfig with
      | error v => exact unloaded_ends fitness fun _ => rfl
      | ok config =>
          have loaded := run_loadFitness o.fitnessConfig s.fresh
          rw [show s.fresh.site = s.site from rfl, fitness] at loaded
          refine .ok_bind loaded ?_
          refine (scoreCandidate_works seeding size c config s.fresh trivial).mono ?_ ?_
          · rintro code t ⟨goes, rfl, faultless⟩
            rw [faultless]
            exact .well goes.toQuiet
          · rintro e t ⟨goes, fault⟩
            rw [fault]
            exact .broken goes.toQuiet

theorem search_ends (seeding : Seeding) {o : SearchOptions} (numeric : o.request.Numeric)
    (interval : (Quantity.ofJson? o.tickInterval).isSome = true)
    (sound : o.save = true → s.site.Sound) :
    Concludes (search seeding o) s.fresh
      (fun code t => s.Ends o.save (o.Unsaved s.site) (o.verdict seeding s.site) (.exit code) t)
      fun e t => s.Ends o.save (o.Unsaved s.site) (o.verdict seeding s.site) (.failed e) t := by
  unfold search SearchOptions.verdict
  cases fitness : s.site.fitness o.fitnessConfig with
  | error v => exact unloaded_ends fitness fun _ => rfl
  | ok config =>
      have loaded := run_loadFitness o.fitnessConfig s.fresh
      rw [show s.fresh.site = s.site from rfl, fitness] at loaded
      refine .ok_bind loaded ?_
      have accepts := numeric.check
      dsimp only
      cases check : o.request.check with
      | error e =>
          rw [check] at accepts
          cases e with
          | misfit m => exact absurd rfl (accepts m)
          | unexpectedField | invalidMode | unknownAlgorithm | tooSmall | boundless
          | temperatureNotPositive | coolingOutOfRange | rateOutOfRange =>
              exact complain_ends (.refl false s.fresh)
      | ok settings =>
          rw [check] at accepts
          dsimp only
          refine (searchWith_concludes seeding accepts interval config (s := s.fresh) sound).mono ?_ ?_
          · rintro code t ⟨quiet, rfl, faultless⟩
            rw [faultless]
            exact .well quiet
          · rintro e t ⟨quiet, ⟨a, rfl, lost⟩ | fault⟩
            · refine .unsaved lost ?_ quiet
              cases o.fault seeding settings with | some | none => exact fun _ => Verdict.noConfusion
            · rw [fault]
              exact .broken quiet

end Task

namespace Session

/-- A command line ends as the task of its command does. -/
theorem ends_of_read {s : Session} {arguments : List String} {seeding : Seeding} {command : Command}
    {saving : Bool} {unsaved : ArchiveError → Prop} {v : Verdict}
    (read : Command.read arguments = .ok command)
    (ends : Concludes (command.task seeding) s.fresh
      (fun code t => s.Ends saving unsaved v (.exit code) t)
      fun e t => s.Ends saving unsaved v (.failed e) t) :
    s.Ends saving unsaved v (s.perform arguments seeding).1 (s.perform arguments seeding).2 := by
  unfold perform
  rw [read]
  dsimp only
  split
  next run => exact ends.of_run run
  next run => exact ends.of_failure run

/-- However a command line is written that scores a candidate or searches, with numbers wherever they
are wanted, and whichever seeds the source of randomness refuses.  It ends as its verdict says, and an
error that the verdict names is one of those that are not guarded against.  Besides, a search that is to
be saved breaks off if its archive cannot be opened or something is too long. -/
theorem perform_ends (s : Session) (arguments : List String) (seeding : Seeding) :
    (∀ o, Command.read arguments = .ok (.score o) → o.sampleSize ≠ .arr [] →
      ∃ n, o.sampleSize = .int n ∧ (o.verdict seeding n s.site).Explained ∧
        s.Ends false (fun _ => False) (o.verdict seeding n s.site) (s.perform arguments seeding).1
          (s.perform arguments seeding).2) ∧
    ∀ o, Command.read arguments = .ok (.search o) → o.Filled → (o.save = true → s.site.Sound) →
      (o.verdict seeding s.site).Explained ∧
        s.Ends o.save (o.Unsaved s.site) (o.verdict seeding s.site) (s.perform arguments seeding).1
          (s.perform arguments seeding).2 := by
  constructor
  · intro o read filled
    obtain ⟨n, size⟩ := ScoreOptions.sampleSize_of_read read filled
    exact ⟨n, size, o.verdict_explained seeding n s.site,
      ends_of_read read (Task.score_ends seeding size)⟩
  · intro o read filled sound
    obtain ⟨numeric, x, interval⟩ := SearchOptions.numeric_of_read read filled
    have timed : (Quantity.ofJson? o.tickInterval).isSome = true := by
      rw [interval]
      rfl
    exact ⟨o.verdict_explained seeding s.site,
      ends_of_read read (Task.search_ends seeding numeric timed sound)⟩

/-- A session in an empty directory. -/
def bare : Session := .new default ⟨0.0, 0.25, []⟩

theorem bare_sound : bare.site.Sound := ⟨FileTree.rooted_of_entries (by decide), rfl⟩

theorem bare_opens : ∃ t, (Archive.open none).run.run bare.site = (.ok ⟨⟨"", ["output"]⟩⟩, t) := by
  have made : (Filing.makeDirectory (Location.child ⟨"", ["output"]⟩ "runs")).run.run bare.site = _ :=
    Filing.run_makeDirectory_new (d := ["output"]) rfl nofun rfl bare_sound.rooted (by decide)
      (by decide) (by decide) (by decide)
  exact ⟨_, run_bind_ok made⟩

/-- A score and a search that are told nothing end well, whatever numbers are drawn.  So does a search
that is saved, unless something is too long, and a search with empty samples is refused. -/
theorem perform_ends_bare :
    (∃ o, Command.read ["score", "n"] = .ok (.score o) ∧ o.sampleSize ≠ .arr [] ∧
      (bare.perform ["score", "n"] .natural).1 = .exit 0) ∧
    (∃ o, Command.read ["search"] = .ok (.search o) ∧ o.Filled ∧
      (bare.perform ["search"] .natural).1 = .exit 0) ∧
    (∃ o, Command.read ["search", "--save"] = .ok (.search o) ∧ o.Filled ∧ bare.site.Sound ∧
      ((bare.perform ["search", "--save"] .natural).1 = .exit 0 ∨
        ∃ path, (bare.perform ["search", "--save"] .natural).1 =
          .failed (.archive (.file .nameTooLong path)))) ∧
    ∃ o, Command.read ["search", "--sample-size", "0"] = .ok (.search o) ∧ o.Filled ∧
      (bare.perform ["search", "--sample-size", "0"] .natural).1 = .exit 1 ∧
      (bare.perform ["search", "--sample-size", "0"] .natural).2.complaints =
        ["Invalid configuration: sample_size must be >= 1, got 0"] := by
  refine ⟨?_, ?_, ?_, ?_⟩
  · have read : Command.read ["score", "n"] = .ok (.score ⟨"n", .int 200, none, .null, false⟩) := rfl
    obtain ⟨n, size, -, ends⟩ := (perform_ends bare ["score", "n"] .natural).1 _ read nofun
    obtain rfl := Json.int.inj size
    exact ⟨_, read, nofun, ends.of_clear.resolve_right fun ⟨_, never, _⟩ => never⟩
  · obtain ⟨o, read, filled, unsaved, clear⟩ : ∃ o, Command.read ["search"] = .ok (.search o) ∧
        o.Filled ∧ o.save = false ∧ o.verdict .natural bare.site = .clear :=
      ⟨_, rfl, ⟨nofun, nofun, nofun, nofun, nofun, nofun, nofun, nofun⟩, rfl, rfl⟩
    have ends := ((perform_ends bare ["search"] .natural).2 o read filled fun _ => bare_sound).2
    rw [clear] at ends
    refine ⟨o, read, filled, ends.of_clear.resolve_right fun ⟨_, lost, _⟩ => ?_⟩
    exact Bool.false_ne_true (unsaved.symm.trans lost.1)
  · obtain ⟨o, read, filled, place, clear⟩ : ∃ o,
        Command.read ["search", "--save"] = .ok (.search o) ∧ o.Filled ∧ o.outputDir = none ∧
        o.verdict .natural bare.site = .clear :=
      ⟨_, rfl, ⟨nofun, nofun, nofun, nofun, nofun, nofun, nofun, nofun⟩, rfl, rfl⟩
    have ends := ((perform_ends bare ["search", "--save"] .natural).2 o read filled fun _ => bare_sound).2
    rw [clear] at ends
    refine ⟨o, read, filled, bare_sound, ends.of_clear.imp_right fun ⟨a, lost, failed⟩ => ?_⟩
    rcases lost.2 with ⟨path, rfl⟩ | ⟨t, refused⟩
    · exact ⟨path, failed⟩
    · obtain ⟨u, opened⟩ := bare_opens
      rw [place] at refused
      exact nomatch (Prod.mk.inj (opened.symm.trans refused)).1
  · obtain ⟨o, read, filled, problem⟩ :
        ∃ o, Command.read ["search", "--sample-size", "0"] = .ok (.search o) ∧ o.Filled ∧
          o.verdict .natural bare.site =
            .problem "Invalid configuration: sample_size must be >= 1, got 0" :=
      ⟨_, rfl, ⟨nofun, nofun, nofun, nofun, nofun, nofun, nofun, nofun⟩, rfl⟩
    have ends := ((perform_ends bare ["search", "--sample-size", "0"] .natural).2 o read filled
      fun _ => bare_sound).2
    rw [problem] at ends
    exact ⟨o, read, filled, ends.of_problem.1, ends.of_problem.2.1⟩

/-- A score with empty samples is not refused, it breaks off, and so it does with a seed that is
refused. -/
theorem perform_breaks :
    (bare.perform ["score", "n", "--sample-size", "0"] .natural).1 =
        .failed (.oracle (.sampleSize (.whole 0))) ∧
      (bare.perform ["score", "n", "--seed", "-1"] .natural).1 = .failed (.seed {}) := by
  have empty : Command.read ["score", "n", "--sample-size", "0"] =
      .ok (.score ⟨"n", .int 0, none, .null, false⟩) := rfl
  have negative : Command.read ["score", "n", "--seed", "-1"] =
      .ok (.score ⟨"n", .int 200, none, .int (-1), false⟩) := rfl
  have ends {o : ScoreOptions} {n : Int} {arguments : List String} {e : CommandError}
      (read : Command.read arguments = .ok (.score o)) (size : o.sampleSize = .int n)
      (broken : o.verdict .natural n bare.site = .broken e) :
      (bare.perform arguments .natural).1 = .failed e := by
    have ends := ends_of_read (s := bare) read (Task.score_ends .natural size)
    rw [broken] at ends
    exact ends.of_broken.resolve_right fun ⟨_, never, _⟩ => never
  exact ⟨ends empty rfl rfl, ends negative rfl rfl⟩

end Session

end PrimeSearch
