/-
Module: PrimeSearch.Proofs.Cli.Saving
Purpose: What a search saves goes to its run, and why something cannot be saved.
Main exports: SearchOptions.Unsaved, Task.TooLong, Task.newRun_concludes, Task.startLog_concludes,
  Task.saveCheckpoint_works, Task.saveResults_works, Task.complete_concludes
-/
import PrimeSearch.Cli.Search
import PrimeSearch.Proofs.Archive.Creation
import PrimeSearch.Proofs.Cli.Tasks

namespace PrimeSearch

/-!
An archive may fail to open, for whatever is there in its place.  Once it is open, a run is made in a
new directory, and all that is saved later goes to files that nothing else stands in the way of.  So
then only paths that are too long keep something from being saved.
-/

/-- Why a search that was asked to save its run breaks off. -/
def SearchOptions.Unsaved (o : SearchOptions) (s : Site) (e : ArchiveError) : Prop :=
  o.save = true ∧
    (e.TooLong ∨ ∃ t, (Archive.open (o.outputDir.map .ofText)).run.run s = (.error e, t))

namespace Task

variable {α : Type} {run : Option SavedRun} {r : SavedRun} {s : Session}

/-- Something of the run that is being saved is too long. -/
def TooLong (run : Option SavedRun) (e : CommandError) : Prop :=
  run.isSome = true ∧ ∃ a : ArchiveError, e = .archive a ∧ a.TooLong

/-! ### Work on the files -/

/-- Work on the files leaves the rest of the session as it is. -/
theorem run_filing (f : Filing α) (s : Session) :
    (filing f).run.run s =
      (((f.run.run s.site).1 : Except ArchiveError α).mapError .archive,
        { s with site := (f.run.run s.site).2 }) := by
  unfold filing
  rw [run_bind_ok (m := get) (s := s) (t := s) (a := s) rfl]
  cases run : (f.run.run s.site : Except ArchiveError α × Site) with
  | mk outcome site =>
      cases outcome with | ok | error => simp only; rfl

theorem filing_concludes {f : Filing α} {Q : α → Site → Prop} {E : ArchiveError → Site → Prop}
    (concludes : Concludes f s.site Q E) :
    Concludes (filing f) s (fun a t => ∃ site, t = { s with site } ∧ Q a site)
      fun e t => ∃ a site, e = .archive a ∧ t = { s with site } ∧ E a site := by
  have run := run_filing f s
  cases concludes with
  | ok done result =>
      rw [done] at run
      exact .ok run ⟨_, rfl, result⟩
  | error done failure =>
      rw [done] at run
      exact .error run ⟨_, _, rfl, rfl, failure⟩

/-- Work on a run that is being saved. -/
theorem filing_works {f : Filing α}
    (works : ∀ {a root site}, r.Kept a root site → Concludes f site (fun _ t => r.Kept a root t)
      fun e t => r.Kept a root t ∧ e.TooLong) :
    Works (some r) (filing f) (fun _ => True) (TooLong (some r)) := by
  rintro s ⟨a, root, kept, file⟩
  have goes {site : Site} (kept : r.Kept a root site) : s.Goes (some r) { s with site } :=
    ⟨⟨rfl, fun never => nomatch never⟩, a, root, kept, file⟩
  refine (filing_concludes (works kept)).mono ?_ ?_
  · rintro _ t ⟨site, rfl, kept⟩
    exact ⟨goes kept, trivial⟩
  · rintro e t ⟨a', site, rfl, rfl, kept, long⟩
    exact ⟨goes kept, rfl, a', rfl, long⟩

/-! ### Beginning to save -/

/-- A new run is made for a search, or its archive cannot be opened, or something is too long. -/
theorem newRun_concludes (sound : s.site.Sound) (o : SearchOptions) (config : SearchConfig)
    (fitness : FitnessConfig) :
    Concludes (newRun o config fitness) s
      (fun r t => s.Quiet true t ∧ ∃ a root, r.Kept a root t.site)
      fun e t => s.Quiet true t ∧ ∃ a, e = .archive a ∧ (a.TooLong ∨
        ∃ site, (Archive.open (o.outputDir.map .ofText)).run.run s.site = (.error a, site)) := by
  have quiet (site : Site) : s.Quiet true { s with site } := ⟨rfl, fun never => nomatch never⟩
  have described : Writable (Archive.label (config.algorithm.name ++ "_" ++ config.mode.name)) := by
    apply Archive.writable_label
    cases config.algorithm with
    | lateAcceptance | genetic | annealing =>
        cases config.mode with | primeGen | primeFold => exact tame_of_all (by decide)
  refine (filing_concludes (Q := fun r t => ∃ a root, r.Kept a root t) (E := fun e _ => e.TooLong ∨
    ∃ site, (Archive.open (o.outputDir.map .ofText)).run.run s.site = (.error e, site)) ?_).mono ?_ ?_
  · cases opened : (Archive.open (o.outputDir.map .ofText)).run.run s.site with
    | mk outcome t =>
        cases outcome with
        | error e => exact .error_bind opened (.inr ⟨t, rfl⟩)
        | ok a =>
            obtain ⟨root, stands⟩ := Archive.open_stands sound opened
            refine .ok_bind opened ((Archive.create_concludes stands described .search _ _).mono ?_ ?_)
            · exact fun r _ made => ⟨a, root, made.1.kept⟩
            · intro e _ unmade
              obtain ⟨n, path, rfl, -⟩ := unmade.error
              exact .inl ⟨path, rfl⟩
  · rintro r t ⟨site, rfl, kept⟩
    exact ⟨quiet site, kept⟩
  · rintro e t ⟨a, site, rfl, rfl, why⟩
    exact ⟨quiet site, a, rfl, why⟩

/-- The log starts anew, in the file of a run if one is being saved. -/
theorem startLog_concludes (kept : ∀ r ∈ run, ∃ a root, r.Kept a root s.site) (verbose : Bool) :
    Concludes (startLog (run.map (·.logFile)) verbose) s (fun _ t => s.Goes run t)
      fun e t => s.Quiet run.isSome t ∧ TooLong run e := by
  cases run with
  | none => exact .ok rfl ⟨⟨rfl, fun _ => .refl _⟩, trivial⟩
  | some r =>
      obtain ⟨a, root, kept⟩ := kept r rfl
      refine Concludes.bind ((filing_concludes kept.openLog_concludes).mono (fun _ _ => id) ?_) ?_
      · rintro e t ⟨a', site, rfl, rfl, long⟩
        exact ⟨⟨rfl, fun never => nomatch never⟩, rfl, a', rfl, long⟩
      · rintro _ t ⟨site, rfl, kept, resolved⟩
        exact .ok rfl ⟨⟨rfl, fun never => nomatch never⟩, a, root, kept, congrArg some resolved⟩

/-! ### Saving -/

/-- There is nothing in the name of a checkpoint that may not stand in the name of a file. -/
theorem checkpointName_eq (iteration : Nat) :
    ∃ ds, Digits ds ∧ (checkpointName iteration).toList = "iter_".toList ++ ds :=
  ⟨_, digits_padded 6 iteration, String.toList_append⟩

theorem saveCheckpoint_works (data : Json) (iteration : Nat) :
    Works (some r) (filing (r.saveCheckpoint data (checkpointName iteration))) (fun _ => True)
      (TooLong (some r)) := by
  obtain ⟨ds, digits, name⟩ := checkpointName_eq iteration
  refine filing_works fun kept => kept.saveCheckpoint_concludes ?_ ?_ data
  · rw [name]
    simp [digits.not_mem]
  · apply writable_of_tame
    rw [String.toList_append, String.toList_append, name]
    intro c member
    simp only [List.mem_append] at member
    rcases member with (first | second | third) | last
    · exact tame_of_all (by decide) c first
    · exact tame_of_all (by decide) c second
    · exact digits.tame c third
    · exact tame_of_all (by decide) c last

/-- The results of a search are saved. -/
theorem saveResults_works (fields : List (String × Json)) :
    Works (some r) (filing (r.saveResults fields)) (fun _ => True) (TooLong (some r)) :=
  filing_works fun kept => by
    obtain ⟨t, saved, -, kept⟩ := kept.saveFields fields
    exact .ok saved kept

/-- The end of a run is recorded. -/
theorem complete_concludes (holds : s.Holds (some r)) {status : String}
    (known : runStatuses.contains status = true) (summary : Json) :
    Concludes (complete r status summary) s (fun _ t => s.Quiet true t) fun _ _ => False := by
  obtain ⟨a, root, kept, -⟩ := holds
  obtain ⟨t, recorded, -, -⟩ := kept.complete known summary
  generalize SavedRun.completed r.metadata status s.site.clock.upcoming summary = notes at recorded
  have lifted : (liftM (r.complete status summary) :
      Filing (Except ArchiveError Unit × SavedRun)).run.run s.site =
        (.ok (.ok (), { r with metadata := notes }), t) := by
    show (r.complete status summary >>= fun x => Pure.pure (Except.ok x)).run s.site = _
    rw [StateT.run_bind, recorded]
    rfl
  have done : Concludes (complete r status summary) s (fun _ t => ∃ site, t = { s with site } ∧ True)
      fun e t => ∃ a site, e = .archive a ∧ t = { s with site } ∧ False :=
    filing_concludes (.ok_bind lifted (.pure trivial))
  refine done.mono ?_ ?_
  · rintro _ t ⟨site, rfl, -⟩
    exact ⟨rfl, fun never => nomatch never⟩
  · rintro e t ⟨a', site, -, -, never⟩
    exact never

end Task

end PrimeSearch
