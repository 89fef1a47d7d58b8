/-
Module: PrimeSearch.Proofs.Archive.Runs
Purpose: Whatever is asked of an archive and of the runs made in it, every run is found as it is noted
  in memory, and work on one run leaves the others alone.
Main exports: Archive.Work, Archive.Request, Archive.Desk, Desk.answer, Desk.Orderly,
  Orderly.answer, Archive.runs_isolated
-/
import PrimeSearch.Proofs.Archive.Creation
import PrimeSearch.Proofs.Json.Equality
import PrimeSearch.Proofs.Json.RoundTrip

namespace PrimeSearch

namespace Archive

/-!
The runs that were made are numbered in memory, and each of them has its place among the runs.  All
work on a run happens at its place and below, and a new run gets a place where nothing is, so places
are never shared.  That the file of the notes agrees with the notes in memory is then a matter of one
run alone.
-/

/-! ### Requests -/

/-- Work on a saved run. -/
inductive Work where
  | complete (status summary : Json)
  | saveConfig (config : Json)
  | saveResults (results : Json)
  | saveCheckpoint (data : Json) (name : String)

namespace Work

/-- Do some work on a run.  The run comes back with its notes as they are in memory afterwards. -/
def run (r : SavedRun) : Work → StateM Site (Except ArchiveError Unit × SavedRun)
  | .complete status summary => r.completeFor status summary
  | .saveConfig config => return (← (r.saveConfig config).run, r)
  | .saveResults results => return (← (r.saveResultsFor results).run, r)
  | .saveCheckpoint data name => return ((← (r.saveCheckpoint data name).run).map fun _ => (), r)

/-- The notes about a run after some work on it: only a known status is noted. -/
def notes (w : Work) (m : RunMetadata) (time : DateTime) : RunMetadata :=
  match w with
  | .complete (.str status) summary =>
      if runStatuses.contains status then SavedRun.completed m status time summary else m
  | _ => m

end Work

/-- What is asked of an archive and of the runs made in it, which are numbered from zero. -/
inductive Request where
  | create (kind : RunKind) (description : String) (config tags : Json)
  | work (number : Nat) (work : Work)
  /-- Time passes, in whatever way. -/
  | wait (clock : Clock)

/-- A site, and the runs that were made there as they are noted in memory. -/
structure Desk where
  site : Site
  runs : List SavedRun

namespace Desk

/-- Answer a request. -/
def answer (a : Archive) (d : Desk) : Request → Except ArchiveError Unit × Desk
  | .create kind description config tags =>
      match (a.create (.str kind.name) description config tags).run.run d.site with
      | (.ok r, site) => (.ok (), ⟨site, d.runs ++ [r]⟩)
      | (.error e, site) => (.error e, { d with site })
  | .work number work =>
      match d.runs[number]? with
      | some r =>
          let ((outcome, r), site) := (work.run r).run d.site
          (outcome, ⟨site, d.runs.set number r⟩)
      | none => (.ok (), d)
  | .wait clock => (.ok (), { d with site := { d.site with clock } })

/-- Answer some requests, one after another. -/
def answerAll (a : Archive) (d : Desk) (requests : List Request) : Desk :=
  requests.foldl (fun d request => (d.answer a request).2) d

/-- Every run has a place of its own, and its notes are in their file. -/
structure Orderly (a : Archive) (root : TreePath) (d : Desk) : Prop where
  stands : a.Stands root d.site
  kept : ∀ r ∈ d.runs, r.Kept a root d.site
  distinct : (d.runs.map fun r => r.directory.name).Nodup

end Desk

variable {a : Archive} {root : TreePath} {d : Desk} {s : Site}

/-! ### Work on a run -/

/-- Work on a run happens in its place, and its notes are in their file afterwards. -/
theorem Work.run_kept {r : SavedRun} (kept : r.Kept a root s) (w : Work) :
    ∃ outcome t, (w.run r).run s =
        ((outcome, { r with metadata := w.notes r.metadata s.clock.upcoming }), t) ∧
      Site.WorkedIn (r.place root) s t ∧
      SavedRun.Kept { r with metadata := w.notes r.metadata s.clock.upcoming } a root t := by
  cases w with
  | complete status summary =>
      cases status with
      | null | bool | int | real | arr | obj => exact ⟨_, s, rfl, .refl _ s, kept⟩
      | str status =>
          cases known : runStatuses.contains status with
          | true =>
              have noted : notes (.complete (.str status) summary) r.metadata s.clock.upcoming =
                  SavedRun.completed r.metadata status s.clock.upcoming summary := if_pos known
              obtain ⟨t, run, worked, kept⟩ := kept.complete known summary
              rw [noted]
              exact ⟨.ok (), t, run, worked, kept⟩
          | false =>
              have noted : notes (.complete (.str status) summary) r.metadata s.clock.upcoming =
                  r.metadata := if_neg (Bool.eq_false_iff.mp known)
              rw [noted]
              exact ⟨_, s, SavedRun.Kept.complete_unknown known summary s, .refl _ s, kept⟩
  | saveConfig config =>
      obtain ⟨t, run, worked, kept⟩ := kept.saveConfig config
      refine ⟨.ok (), t, ?_, worked, kept⟩
      unfold Work.run
      rw [StateT.run_bind, run]
      rfl
  | saveResults results =>
      obtain ⟨outcome, t, run, worked, kept⟩ := kept.saveResults results
      refine ⟨outcome, t, ?_, worked, kept⟩
      unfold Work.run
      rw [StateT.run_bind, run]
      rfl
  | saveCheckpoint data name =>
      obtain ⟨outcome, t, run, worked, kept⟩ := kept.saveCheckpoint data name
      refine ⟨outcome.map fun _ => (), t, ?_, worked, kept⟩
      unfold Work.run
      rw [StateT.run_bind, run]
      rfl

/-- Only a status that is known is recorded. -/
theorem Work.run_unknown {status : Json} (unknown : ∀ name ∈ runStatuses, status ≠ .str name)
    (summary : Json) (r : SavedRun) (s : Site) :
    ((Work.complete status summary).run r).run s = ((.error (.unknownStatus status), r), s) := by
  cases status with
  | null | bool | int | real | arr | obj => rfl
  | str name =>
      have unlisted : runStatuses.contains name = false := by
        refine Bool.eq_false_iff.mpr fun listed => unknown name ?_ rfl
        exact List.contains_iff_mem.mp listed
      exact SavedRun.Kept.complete_unknown unlisted summary s

/-- A known status is recorded. -/
theorem Work.run_known {r : SavedRun} (kept : r.Kept a root s) {name : String}
    (known : name ∈ runStatuses) (summary : Json) :
    ∃ t, ((Work.complete (.str name) summary).run r).run s =
      ((.ok (), { r with
        metadata := SavedRun.completed r.metadata name s.clock.upcoming summary }), t) := by
  obtain ⟨t, run, -, -⟩ := kept.complete (List.contains_iff_mem.mpr known) summary
  exact ⟨t, run⟩

/-! ### Requests one after another -/

namespace Desk

/-- A place where nothing is belongs to none of the runs. -/
theorem Orderly.apart (orderly : Orderly a root d) {name : String}
    (absent : d.site.files.contains (root ++ [name]) = false) :
    ∀ r ∈ d.runs, name ≠ r.directory.name := by
  rintro r member rfl
  have there := FileTree.contains_of_isDirectory (orderly.kept r member).directory
  exact Bool.false_ne_true (absent.symm.trans there)

/-- A run that was made is one of the runs. -/
theorem Orderly.made (orderly : Orderly a root d) {wanted : String} {r : SavedRun} {t : Site}
    (made : Made a root wanted d.site r t) : Orderly a root ⟨t, d.runs ++ [r]⟩ := by
  have apart := orderly.apart made.new
  refine ⟨orderly.stands.worked made.worked, fun r' member => ?_, ?_⟩
  · rcases List.mem_append.mp member with old | new
    · exact (orderly.kept r' old).worked_elsewhere (apart r' old) made.worked
    · obtain rfl := List.mem_singleton.mp new
      exact made.kept
  · rw [List.map_append, List.map_singleton, List.nodup_append]
    refine ⟨orderly.distinct, List.nodup_singleton _, fun name old name' new => ?_⟩
    obtain ⟨r', member, rfl⟩ := List.mem_map.mp old
    obtain rfl := List.mem_singleton.mp new
    exact (apart r' member).symm

/-- Where no run could be made, those that there are stay. -/
theorem Orderly.unmade (orderly : Orderly a root d) {wanted : String} {e : ArchiveError} {t : Site}
    (unmade : Unmade a root wanted d.site e t) : Orderly a root { d with site := t } := by
  obtain ⟨n, absent, worked⟩ := unmade.elsewhere
  have apart := orderly.apart absent
  exact ⟨orderly.stands.worked worked,
    fun r member => (orderly.kept r member).worked_elsewhere (apart r member) worked,
    orderly.distinct⟩

theorem Orderly.elapse (orderly : Orderly a root d) (clock : Clock) :
    Orderly a root { d with site := { d.site with clock } } :=
  ⟨orderly.stands.worked (.elapse [] d.site clock),
    fun r member => (orderly.kept r member).elapse clock, orderly.distinct⟩

/-- Work on a run of the desk. -/
theorem Orderly.worked (orderly : Orderly a root d) {number : Nat} {r r' : SavedRun} {t : Site}
    (there : d.runs[number]? = some r) (same : r'.directory = r.directory)
    (worked : Site.WorkedIn (r.place root) d.site t) (kept : r'.Kept a root t) :
    Orderly a root ⟨t, d.runs.set number r'⟩ := by
  obtain ⟨bound, at_⟩ := List.getElem?_eq_some_iff.mp there
  have names : (d.runs.set number r').map (fun r => r.directory.name) =
      d.runs.map fun r => r.directory.name := by
    rw [List.map_set, same]
    refine List.ext_getElem (by simp) fun i _ _ => ?_
    rw [List.getElem_set]
    split
    next here =>
      subst here
      simp [at_]
    next => rfl
  refine ⟨orderly.stands.worked worked, fun other member => ?_, names ▸ orderly.distinct⟩
  obtain ⟨i, inside, rfl⟩ := List.mem_iff_getElem.mp member
  rw [List.length_set] at inside
  rw [List.getElem_set]
  split
  next => exact kept
  next elsewhere =>
    refine (orderly.kept _ (List.getElem_mem inside)).worked_elsewhere (fun equal => ?_) worked
    have bound' : number < (d.runs.map fun r => r.directory.name).length := by simpa using bound
    have inside' : i < (d.runs.map fun r => r.directory.name).length := by simpa using inside
    have place : (d.runs.map fun r => r.directory.name)[number] =
        (d.runs.map fun r => r.directory.name)[i] := by
      simp [at_, equal]
    exact elsewhere (orderly.distinct.getElem_inj_iff.mp place)

/-- A run is made and added to the others, or none is made. -/
theorem Orderly.create (orderly : Orderly a root d) {description : String}
    (writable : Writable (label description)) (kind : RunKind) (config tags : Json) :
    (∃ r t, Made a root (runName d.site.clock.upcoming kind.name description) d.site r t ∧
        r.metadata = firstNotes d.site.clock.upcoming kind description tags r.directory.name ∧
        d.answer a (.create kind description config tags) = (.ok (), ⟨t, d.runs ++ [r]⟩)) ∨
      ∃ e t, Unmade a root (runName d.site.clock.upcoming kind.name description) d.site e t ∧
        d.answer a (.create kind description config tags) = (.error e, { d with site := t }) := by
  have concludes := create_concludes orderly.stands writable kind config tags
  unfold answer
  cases run : (a.create (.str kind.name) description config tags).run.run d.site with
  | mk outcome t =>
      cases outcome with
      | ok r =>
          obtain ⟨made, noted⟩ := concludes.of_run run
          exact .inl ⟨r, t, made, noted, by simp only [run]⟩
      | error e => exact .inr ⟨e, t, concludes.of_failure run, by simp only [run]⟩

/-- No run is made under a label that may not stand in a path. -/
theorem create_unwritable {description : String} (unwritable : ¬Writable (label description))
    (a : Archive) (d : Desk) (kind : RunKind) (config tags : Json) :
    ∃ fault path, d.answer a (.create kind description config tags) =
        (.error (.file fault path),
          { d with site := { d.site with clock := d.site.clock.read.2 } }) ∧
      fault.OfCharacters := by
  obtain ⟨fault, path, run, faulty⟩ := Archive.create_unwritable unwritable a d.site kind config tags
  exact ⟨fault, path, by simp only [answer, run], faulty⟩

/-- Work on a run of the desk is done at its place. -/
theorem Orderly.work (orderly : Orderly a root d) {number : Nat} {r : SavedRun}
    (there : d.runs[number]? = some r) (w : Work) :
    ∃ outcome t, d.answer a (.work number w) = (outcome, ⟨t, d.runs.set number
        { r with metadata := w.notes r.metadata d.site.clock.upcoming }⟩) ∧
      Site.WorkedIn (r.place root) d.site t ∧
      SavedRun.Kept { r with metadata := w.notes r.metadata d.site.clock.upcoming } a root t := by
  obtain ⟨outcome, t, run, worked, kept⟩ :=
    w.run_kept (orderly.kept r (List.mem_of_getElem? there))
  exact ⟨outcome, t, by simp only [answer, there, run], worked, kept⟩

/-- Whatever is asked, the desk stays in order. -/
theorem Orderly.answer (orderly : Orderly a root d) (request : Request) :
    Orderly a root (d.answer a request).2 := by
  cases request with
  | wait clock => exact orderly.elapse clock
  | work number work =>
      cases there : d.runs[number]? with
      | none =>
          have nobody : (d.answer a (.work number work)).2 = d := by simp only [Desk.answer, there]
          rw [nobody]
          exact orderly
      | some r =>
          obtain ⟨outcome, t, answered, worked, kept⟩ := orderly.work there work
          rw [answered]
          exact orderly.worked there rfl worked kept
  | create kind description config tags =>
      by_cases writable : Writable (label description)
      · rcases orderly.create writable kind config tags with
          ⟨r, t, made, -, answered⟩ | ⟨e, t, unmade, answered⟩
        next => rw [answered]; exact orderly.made made
        next => rw [answered]; exact orderly.unmade unmade
      · obtain ⟨fault, path, answered, -⟩ := create_unwritable writable a d kind config tags
        rw [answered]
        exact orderly.elapse d.site.clock.read.2

theorem Orderly.answerAll (orderly : Orderly a root d) (requests : List Request) :
    Orderly a root (d.answerAll a requests) := by
  induction requests generalizing d with
  | nil => exact orderly
  | cons request requests ih => exact ih (orderly.answer request)

/-! ### What is promised -/

/-- Every run is found under its name with the notes that are in memory, and no two runs have a name
in common. -/
structure Durable (a : Archive) (d : Desk) : Prop where
  identified : ∀ r ∈ d.runs, r.metadata.runId = .str r.directory.name
  found : ∀ r ∈ d.runs, Json.readFile r.metadata.toJson.indented = .ok r.metadata.toJson →
    (a.get? r.directory.name).run.run d.site = (.ok (some r), d.site)
  distinct : (d.runs.map fun r => r.directory.name).Nodup

/-- How a request for a new run is answered: with a run in a new directory under the first free variant
of its name, unless something is too long or the label may not stand in a path.  In either case all
that was there stays as it was. -/
structure CreatesApart (a : Archive) (root : TreePath) (d : Desk) (kind : RunKind)
    (description : String) (tags : Json) (outcome : Except ArchiveError Unit) (d' : Desk) :
    Prop where
  made : Writable (label description) →
    (∃ r n, outcome = .ok () ∧ d'.runs = d.runs ++ [r] ∧
      r.metadata = firstNotes d.site.clock.upcoming kind description tags r.directory.name ∧
      1 ≤ n ∧ r.directory.name =
        variant (runName d.site.clock.upcoming kind.name description) n ∧
      (∀ j, 1 ≤ j → j < n → d.site.files.contains (root ++
        [variant (runName d.site.clock.upcoming kind.name description) j]) = true) ∧
      d'.site.files.isDirectory (r.place root) = true ∧
      ∀ rest, d.site.files.get? (r.place root ++ rest) = none) ∨
    ∃ n path, outcome = .error (.file .nameTooLong path) ∧ d'.runs = d.runs ∧
      a.TooLong (variant (runName d.site.clock.upcoming kind.name description) n)
  refused : ¬Writable (label description) → d'.runs = d.runs ∧
    ∃ fault path, outcome = .error (.file fault path) ∧ fault.OfCharacters
  undisturbed : ∀ p, d.site.files.contains p = true →
    d'.site.files.get? p = d.site.files.get? p

/-- How work on a run is answered: the notes in memory are as the work leaves them, nothing changes
outside the directory of the run, and a status that is not known changes nothing at all. -/
structure WorksApart (root : TreePath) (d : Desk) (number : Nat) (r : SavedRun) (w : Work)
    (outcome : Except ArchiveError Unit) (d' : Desk) : Prop where
  noted : d'.runs = d.runs.set number
    { r with metadata := w.notes r.metadata d.site.clock.upcoming }
  undisturbed : ∀ p, ¬r.place root <+: p → d'.site.files.get? p = d.site.files.get? p
  known : ∀ name summary, w = .complete (.str name) summary → name ∈ runStatuses →
    outcome = .ok ()
  unknown : ∀ status summary, w = .complete status summary →
    (∀ name ∈ runStatuses, status ≠ .str name) →
    outcome = .error (.unknownStatus status) ∧ d' = d

theorem Orderly.durable (orderly : Orderly a root d) : Durable a d :=
  ⟨fun r member => (orderly.kept r member).identified,
    fun r member => (orderly.kept r member).get?, orderly.distinct⟩

/-- What is worked on below a place where nothing was leaves all that was there as it was. -/
theorem Orderly.undisturbed (orderly : Orderly a root d) {p : TreePath} {t : Site}
    (absent : d.site.files.contains p = false) (worked : Site.WorkedIn p d.site t) :
    ∀ q, d.site.files.contains q = true → t.files.get? q = d.site.files.get? q := by
  intro q there
  refine worked.elsewhere q ?_
  rintro ⟨rest, rfl⟩
  refine Bool.false_ne_true (Eq.trans ?_ there)
  cases rest with
  | nil => rw [List.append_nil, absent]
  | cons part rest =>
      have nothing := orderly.stands.sound.rooted.nothing_below
        (FileTree.isDirectory_of_not_contains absent) (List.cons_ne_nil part rest)
      rw [FileTree.contains, nothing]
      rfl

theorem Orderly.createsApart (orderly : Orderly a root d) (kind : RunKind) (description : String)
    (config tags : Json) :
    CreatesApart a root d kind description tags
      (d.answer a (.create kind description config tags)).1
      (d.answer a (.create kind description config tags)).2 := by
  by_cases writable : Writable (label description)
  · rcases orderly.create writable kind config tags with
      ⟨r, t, made, noted, answered⟩ | ⟨e, t, unmade, answered⟩
    next =>
      rw [answered]
      refine ⟨fun _ => .inl ?_, fun unwritable => absurd writable unwritable,
        orderly.undisturbed made.new made.worked⟩
      obtain ⟨n, first, named, taken⟩ := made.first
      refine ⟨r, n, rfl, rfl, noted, first, named, taken, made.kept.directory, fun rest => ?_⟩
      cases rest with
      | nil => rw [List.append_nil]; exact FileTree.not_contains_iff.mp made.new
      | cons part rest =>
          exact orderly.stands.sound.rooted.nothing_below
            (FileTree.isDirectory_of_not_contains made.new) (List.cons_ne_nil part rest)
    next =>
      rw [answered]
      obtain ⟨n, absent, worked⟩ := unmade.elsewhere
      refine ⟨fun _ => .inr ?_, fun unwritable => absurd writable unwritable,
        orderly.undisturbed absent worked⟩
      obtain ⟨m, path, failed, long⟩ := unmade.error
      exact ⟨m, path, congrArg _ failed, rfl, long⟩
  · obtain ⟨fault, path, answered, faulty⟩ := create_unwritable writable a d kind config tags
    rw [answered]
    exact ⟨fun written => absurd written writable, fun _ => ⟨rfl, fault, path, rfl, faulty⟩,
      fun _ _ => rfl⟩

theorem Orderly.worksApart (orderly : Orderly a root d) {number : Nat} {r : SavedRun}
    (there : d.runs[number]? = some r) (w : Work) :
    WorksApart root d number r w (d.answer a (.work number w)).1
      (d.answer a (.work number w)).2 := by
  obtain ⟨outcome, t, answered, worked, -⟩ := orderly.work there w
  constructor
  · rw [answered]
  · rw [answered]
    exact worked.elsewhere
  · rintro name summary rfl known
    obtain ⟨t, run⟩ := Work.run_known (orderly.kept r (List.mem_of_getElem? there)) known summary
    simp only [Desk.answer, there, run]
  · rintro status summary rfl unknown
    have run := Work.run_unknown unknown summary r d.site
    have same : d.runs.set number r = d.runs := by
      obtain ⟨bound, rfl⟩ := List.getElem?_eq_some_iff.mp there
      exact List.set_getElem_self bound
    simp only [Desk.answer, there, run, same]
    exact ⟨trivial, trivial⟩

end Desk

/-- Whatever was asked of an archive before, its runs are durable and have names of their own, a new
run gets a new directory and disturbs nothing, and work on a run stays in its directory. -/
theorem runs_isolated {base : Option Location} {s₀ : Site} (sound : s₀.Sound)
    (opened : (Archive.open base).run.run s₀ = (.ok a, s)) (requests : List Request) :
    ∃ root, s.find a.runs = .ok root ∧ ∀ d, d = Desk.answerAll a ⟨s, []⟩ requests →
      d.Durable a ∧
      (∀ kind description config tags,
        d.CreatesApart a root kind description tags
          (d.answer a (.create kind description config tags)).1
          (d.answer a (.create kind description config tags)).2) ∧
      ∀ number r w, d.runs[number]? = some r →
        d.WorksApart root number r w (d.answer a (.work number w)).1
          (d.answer a (.work number w)).2 := by
  obtain ⟨root, stands⟩ := open_stands sound opened
  have start : Desk.Orderly a root ⟨s, []⟩ :=
    ⟨stands, fun _ member => absurd member List.not_mem_nil, List.nodup_nil⟩
  refine ⟨root, stands.found, ?_⟩
  rintro d rfl
  have orderly := start.answerAll requests
  exact ⟨orderly.durable, orderly.createsApart, fun number r w there => orderly.worksApart there w⟩

/-! ### A crowded second -/

deriving instance DecidableEq for RunMetadata, SavedRun

/-- A site where the first name of the morning is taken. -/
def crowded : Site where
  files := ⟨[(["out"], .directory), (["out", "runs"], .directory),
    (["out", "runs", "20240102_030405_search_a"], .directory)]⟩
  home := []
  homeName := "~"
  here := []
  clock := ⟨⟨2024, 1, 2, 3, 4, 5⟩, none⟩

theorem crowded_sound : crowded.Sound := ⟨FileTree.rooted_of_entries (by decide), rfl⟩

theorem crowded_opened :
    (Archive.open (some ⟨"", ["out"]⟩)).run.run crowded = (.ok ⟨⟨"", ["out"]⟩⟩, crowded) :=
  run_open_there rfl rfl

/-- Two runs with one label are made in one second, and the first one is completed. -/
def twins : List Request :=
  [.create .search "a" .null .null, .wait crowded.clock, .create .search "a" .null .null,
    .work 0 (.complete (.str "completed") .null)]

/-- The completed run as it is noted in memory. -/
def elder : SavedRun where
  directory := ⟨"", ["out", "runs", "20240102_030405_search_a_2"]⟩
  metadata := {
    runId := .str "20240102_030405_search_a_2"
    runType := .str "search"
    description := .str "a"
    createdAt := .str "2024-01-02T03:04:05"
    completedAt := .str "2024-01-02T03:04:06"
    status := .str "completed"
    tags := .arr [] }

/-- The run that was made after it and still goes on. -/
def younger : SavedRun where
  directory := ⟨"", ["out", "runs", "20240102_030405_search_a_3"]⟩
  metadata := {
    runId := .str "20240102_030405_search_a_3"
    runType := .str "search"
    description := .str "a"
    createdAt := .str "2024-01-02T03:04:05"
    tags := .arr [] }

theorem runs_twins :
    (Desk.answerAll ⟨⟨"", ["out"]⟩⟩ ⟨crowded, []⟩ twins).runs = [elder, younger] := by
  decide +kernel

/-- The notes of the completed run are read back as they are. -/
theorem readFile_elder :
    Json.readFile elder.metadata.toJson.indented = .ok elder.metadata.toJson := by
  have lettered : elder.metadata.toJson.Lettered := by
    simp [elder, RunMetadata.toJson, Json.Lettered, Json.LetteredFields, Json.LetteredItems]
  have same : elder.metadata.toJson.respelt = elder.metadata.toJson := by decide +kernel
  rw [Json.readFile_indented lettered, same]

theorem runs_isolated_crowded :
    crowded.Sound ∧
    (Archive.open (some ⟨"", ["out"]⟩)).run.run crowded = (.ok ⟨⟨"", ["out"]⟩⟩, crowded) ∧
    ∃ d, d = Desk.answerAll ⟨⟨"", ["out"]⟩⟩ ⟨crowded, []⟩ twins ∧
      d.runs.map (fun r => r.directory.name) =
        ["20240102_030405_search_a_2", "20240102_030405_search_a_3"] ∧
      (get? ⟨⟨"", ["out"]⟩⟩ "20240102_030405_search_a_2").run.run d.site =
        (.ok (some elder), d.site) := by
  refine ⟨crowded_sound, crowded_opened, _, rfl, by rw [runs_twins]; rfl, ?_⟩
  obtain ⟨root, -, promised⟩ := runs_isolated crowded_sound crowded_opened twins
  have durable := (promised _ rfl).1
  have member : elder ∈ (Desk.answerAll ⟨⟨"", ["out"]⟩⟩ ⟨crowded, []⟩ twins).runs :=
    runs_twins ▸ List.mem_cons_self
  exact durable.found elder member readFile_elder

/-- A label with a null in it makes no directory name, though blanks and slashes are replaced. -/
theorem create_fails_at_null :
    crowded.Sound ∧
    (Archive.open (some ⟨"", ["out"]⟩)).run.run crowded = (.ok ⟨⟨"", ["out"]⟩⟩, crowded) ∧
    ∀ r t, (create ⟨⟨"", ["out"]⟩⟩ (.str "search") "a\x00b" .null .null).run.run crowded ≠
      (.ok r, t) := by
  refine ⟨crowded_sound, crowded_opened, fun r t made => ?_⟩
  have unwritable : ¬Writable (label "a\x00b") := fun writable => writable.noNull (by decide)
  obtain ⟨fault, path, failed, -⟩ :=
    create_unwritable unwritable ⟨⟨"", ["out"]⟩⟩ crowded .search .null .null
  exact nomatch made.symm.trans failed

end Archive

end PrimeSearch
