/-
Module: PrimeSearch.Proofs.Archive.Creation
Purpose: A run directory that is made is new, gets the first name that is free, and leaves everything
  else as it is.
Main exports: Archive.Stands, Archive.TooLong, Made, Unmade, freeName_concludes, create_concludes,
  create_unwritable
-/
import PrimeSearch.Proofs.Archive.Keeping

namespace PrimeSearch

open FileTree (Plain)

/-!
The variants of a name differ, and a tree with as many entries as there are tries cannot hold one more
variant than that.  So the search for a free name ends at a free name.  Nothing lies below a place
where nothing is, and so a new run directory holds only what is put there while it is made.
-/

namespace Archive

variable {a : Archive} {s s' : Site} {root d : TreePath} {name f : String}

/-- The directory of runs of an archive is there. -/
structure Stands (a : Archive) (root : TreePath) (s : Site) : Prop where
  sound : s.Sound
  found : s.find a.runs = .ok root
  directory : s.files.isDirectory root = true

/-- An archive that was opened stands. -/
theorem open_stands {base : Option Location} (sound : s.Sound)
    (opened : (Archive.open base).run.run s = (.ok a, s')) : ∃ root, a.Stands root s' := by
  have concludes : Concludes (Archive.open base) s (fun a t => ∃ root, a.Stands root t)
      fun _ _ => True := by
    unfold Archive.open
    refine Concludes.get_bind ?_
    refine (Filing.makeWithin_sound sound _ _).bind fun _ t ⟨sound, root, found, directory⟩ => ?_
    exact .pure ⟨root, sound, found, directory⟩
  exact concludes.of_run opened

/-- An archive is opened where its directory of runs is there already. -/
theorem run_open_there {l : Location} (found : s.find (runs ⟨l⟩) = .ok root)
    (directory : s.files.isDirectory root = true) :
    (Archive.open (some l)).run.run s = (.ok ⟨l⟩, s) :=
  run_bind_ok (Filing.run_makeDirectory_there found directory)

theorem Stands.leads (stands : a.Stands root s) : s.Leads a.runs root :=
  (Site.find_eq_ok_iff.mp stands.found).2

/-- An archive stands as long as only directories are worked in. -/
theorem Stands.worked (stands : a.Stands root s) (worked : Site.WorkedIn d s s') :
    a.Stands root s' where
  sound := worked.sound stands.sound
  found := by
    obtain ⟨faultless, leads⟩ := Site.find_eq_ok_iff.mp stands.found
    exact (worked.leads leads).find faultless
  directory := worked.keeps.directory root stands.directory

theorem runs_ne_nil (a : Archive) : a.runs.parts ≠ [] := Location.child_ne_nil _ _

/-- The path of the directory of runs can be written. -/
theorem Stands.writable (stands : a.Stands root s) : Writable a.runs.text :=
  (Site.writtenFault?_eq_none_iff.mp (Site.find_eq_ok_iff.mp stands.found).1).1

/-- A run directory of a name cannot be made because the name or a path in it is too long. -/
def TooLong (a : Archive) (name : String) : Prop :=
  FileTree.nameLimit < byteSize name ∨
    Site.pathLimit < byteSize (SavedRun.metadataFile (a.runs.child name)).text

/-- The names of what is made in a run directory. -/
def furnishing : List String := ["checkpoints", "logs", "metadata.json", "config.json"]

theorem short_of_furnishing (member : f ∈ furnishing) : byteSize f ≤ 13 := by
  have all : ∀ f ∈ furnishing, byteSize f ≤ 13 := by decide
  exact all f member

theorem writable_of_furnishing (member : f ∈ furnishing) : Writable f := by
  simp only [furnishing, List.mem_cons, List.not_mem_nil, or_false] at member
  rcases member with rfl | rfl | rfl | rfl
  all_goals exact writable_of_all (by decide)

/-- No path in a run directory is longer than that of the notes. -/
theorem byteSize_furnishing (member : f ∈ furnishing) :
    byteSize ((a.runs.child name).child f).text ≤
      byteSize (SavedRun.metadataFile (a.runs.child name)).text := by
  have notes : byteSize "metadata.json" = 13 := by decide
  have short := short_of_furnishing member
  rw [SavedRun.metadataFile, Location.byteSize_child (Location.child_ne_nil _ _),
    Location.byteSize_child (Location.child_ne_nil _ _), notes]
  omega

/-- The path of a run directory is shorter than that of its notes. -/
theorem byteSize_directory :
    byteSize (a.runs.child name).text ≤
      byteSize (SavedRun.metadataFile (a.runs.child name)).text := by
  rw [SavedRun.metadataFile, Location.byteSize_child (Location.child_ne_nil _ _)]
  omega

/-- The paths in a run directory are at fault only if they are too long. -/
theorem writtenFault?_furnishing (stands : a.Stands root s) (writable : Writable name)
    (member : f ∈ furnishing) :
    Site.writtenFault? ((a.runs.child name).child f).text =
      if Site.pathLimit < byteSize ((a.runs.child name).child f).text then some .nameTooLong
      else none := by
  apply Site.writtenFault?_of_writable
  rw [Location.writable_child (Location.child_ne_nil _ _), Location.writable_child a.runs_ne_nil]
  exact ⟨⟨stands.writable, writable⟩, writable_of_furnishing member⟩

/-- The place of a name among the runs is found unless the name is too long. -/
theorem find_directory (stands : a.Stands root s) (plain : Plain name) (writable : Writable name) :
    s.find (a.runs.child name) = .ok (root ++ [name]) ∨
      (s.find (a.runs.child name) = .error .nameTooLong ∧ a.TooLong name) := by
  have written : Writable (a.runs.child name).text :=
    (Location.writable_child a.runs_ne_nil).mpr ⟨stands.writable, writable⟩
  refine (stands.leads.find_child stands.directory plain written).imp_right fun ⟨lost, long⟩ => ?_
  exact ⟨lost, long.imp_right fun long => long.trans_le byteSize_directory⟩

/-! ### A free name -/

/-- As many variants of a name as there are entries cannot all be there, and one more. -/
theorem variant_free {k : Nat} (enough : k = s.files.entries.length + 1)
    (taken : ∀ j, 1 ≤ j → j < k → s.files.contains (root ++ [variant name j]) = true) :
    s.files.contains (root ++ [variant name k]) = false := by
  refine Bool.eq_false_iff.mpr fun there => ?_
  let places := (List.range k).map fun j => root ++ [variant name (j + 1)]
  have distinct : places.Nodup := by
    refine List.Nodup.map (fun i j same => ?_) List.nodup_range
    have names : variant name (i + 1) = variant name (j + 1) := by simpa using same
    have := variant_injective names
    omega
  have present : places ⊆ s.files.entries.map Prod.fst := by
    intro p member
    obtain ⟨j, small, rfl⟩ := List.mem_map.mp member
    refine FileTree.mem_entries_of_contains ?_ (List.concat_ne_nil _ _)
    rcases Nat.lt_or_ge (j + 1) k with below | last
    · exact taken (j + 1) (by omega) below
    · obtain rfl : j + 1 = k := by
        have := List.mem_range.mp small
        omega
      exact there
  have count := distinct.length_le_of_subset present
  simp only [places, List.length_map, List.length_range] at count
  omega

/-- The search for a free name ends at the first variant that is not there, or at one that is too
long to be looked for. -/
theorem freeName_concludes (stands : a.Stands root s) (line : '_' ∈ name.toList)
    (flat : '/' ∉ name.toList) (writable : Writable name) (tries k : Nat) (first : 1 ≤ k)
    (enough : k + tries = s.files.entries.length + 1)
    (taken : ∀ j, 1 ≤ j → j < k → s.files.contains (root ++ [variant name j]) = true) :
    Concludes (a.freeName name tries k) s
      (fun l t => t = s ∧ ∃ n, 1 ≤ n ∧ l = a.runs.child (variant name n) ∧
        s.files.contains (root ++ [variant name n]) = false ∧
        ∀ j, 1 ≤ j → j < n → s.files.contains (root ++ [variant name j]) = true)
      fun e t => t = s ∧ ∃ n path, e = .file .nameTooLong path ∧ a.TooLong (variant name n) := by
  have here (n : Nat) : a.runs.join (variant name n) = a.runs.child (variant name n) :=
    a.runs.join_eq_child (plain_variant line n) (slash_not_mem_variant flat n)
  induction tries generalizing k with
  | zero => exact .pure ⟨rfl, k, first, here k, variant_free enough taken, taken⟩
  | succ tries ih =>
      unfold freeName
      rw [here k]
      rcases find_directory stands (plain_variant line k) ((writable_variant k).mpr writable) with
        found | ⟨lost, long⟩
      · refine Concludes.ok_bind (Filing.run_holds_ok found) ?_
        refine Concludes.ite (fun there => ?_) fun absent => ?_
        · refine ih (k + 1) (by omega) (by omega) fun j least below => ?_
          rcases Nat.lt_or_ge j k with before | last
          · exact taken j least before
          · obtain rfl : j = k := by omega
            exact there
        · exact .pure ⟨rfl, k, first, rfl, Bool.eq_false_iff.mpr absent, taken⟩
      · have run : (Filing.contains (a.runs.child (variant name k))).run.run s = _ :=
          Filing.run_holds FileTree.contains _ s
        rw [lost] at run
        exact Concludes.error_bind run ⟨rfl, k, _, rfl, long⟩

/-- Some variant of a name is not there. -/
theorem exists_variant_free (root : TreePath) (name : String) (s : Site) :
    ∃ n, s.files.contains (root ++ [variant name n]) = false := by
  by_contra all
  simp only [not_exists, Bool.not_eq_false] at all
  exact Bool.false_ne_true ((variant_free rfl fun j _ _ => all j).symm.trans (all _))

/-! ### What is in a new run directory -/

/-- A directory that was made with some rooms in it, and nothing else. -/
structure Furnished (rooms : List TreePath) (d : TreePath) (s t : Site) : Prop where
  worked : Site.WorkedIn d s t
  directory : t.files.isDirectory d = true
  there : ∀ rest ∈ rooms, t.files.isDirectory (d ++ rest) = true
  empty : ∀ rest, rest ∉ rooms → t.files.get? (d ++ rest) = none

/-- A new directory has nothing in it. -/
theorem furnished_new (rooted : s.files.Rooted) (inside : d ≠ [])
    (absent : s.files.contains d = false) (around : s.files.isDirectory d.dropLast = true) :
    Furnished [[]] d s { s with files := s.files.put d .directory } := by
  have directory : (s.files.put d .directory).isDirectory d = true :=
    FileTree.isDirectory_iff.mpr (FileTree.get?_put_self inside)
  refine ⟨Site.workedIn_put (List.prefix_refl d) (fun _ => rfl) around, directory,
    fun rest top => ?_, fun rest below => ?_⟩
  · rw [List.mem_singleton.mp top, List.append_nil]
    exact directory
  rw [List.mem_singleton] at below
  have beside : d ++ rest ≠ d := fun same => below (List.append_right_eq_self.mp same)
  show (s.files.put d .directory).get? (d ++ rest) = none
  rw [FileTree.get?_put_of_ne beside]
  exact rooted.nothing_below (FileTree.isDirectory_of_not_contains absent) below

/-- One more room. -/
theorem Furnished.room {rooms : List TreePath} (furnished : Furnished rooms d s s')
    (inside : d ≠ []) (f : String) :
    Furnished (rooms ++ [[f]]) d s { s' with files := s'.files.put (d ++ [f]) .directory } := by
  have around : s'.files.isDirectory (d ++ [f]).dropLast = true := by
    rw [List.dropLast_concat]
    exact furnished.directory
  have worked : Site.WorkedIn d s' { s' with files := s'.files.put (d ++ [f]) .directory } :=
    Site.workedIn_put (List.prefix_append d [f]) (fun _ => rfl) around
  refine ⟨furnished.worked.trans worked, worked.keeps.directory d furnished.directory,
    fun rest room => ?_, fun rest noRoom => ?_⟩
  · rcases List.mem_append.mp room with old | new
    · exact worked.keeps.directory _ (furnished.there rest old)
    · rw [List.mem_singleton.mp new]
      exact FileTree.isDirectory_iff.mpr
        (FileTree.get?_put_self (List.append_ne_nil_of_left_ne_nil inside _))
  simp only [List.mem_append, List.mem_singleton, not_or] at noRoom
  show (s'.files.put (d ++ [f]) .directory).get? (d ++ rest) = none
  rw [FileTree.get?_put_below inside, if_neg noRoom.2]
  exact furnished.empty rest noRoom.1

/-- Nothing in the directory of a name that is too long is found. -/
theorem find_furnishing_tooLong (stands : a.Stands root s) (plain : Plain name)
    (writable : Writable name) (long : FileTree.nameLimit < byteSize name)
    (member : f ∈ furnishing) :
    s.find ((a.runs.child name).child f) = .error .nameTooLong := by
  have fault := writtenFault?_furnishing stands writable member
  split at fault
  next => exact Site.find_eq_error fault
  next =>
    rw [Site.find, fault]
    show s.files.walk (s.start a.runs) (a.runs.parts ++ [name] ++ [f]) = .error .nameTooLong
    rw [List.append_assoc]
    exact stands.leads.child_tooLong stands.directory plain long [f]

/-- A path in a run directory is at fault because it is too long, or not at all. -/
theorem writtenFault?_cases (stands : a.Stands root s) (writable : Writable name)
    (member : f ∈ furnishing) :
    Site.writtenFault? ((a.runs.child name).child f).text = none ∨
      (Site.writtenFault? ((a.runs.child name).child f).text = some .nameTooLong ∧
        a.TooLong name) := by
  have fault := writtenFault?_furnishing stands writable member
  split at fault
  next long => exact .inr ⟨fault, .inr (Nat.lt_of_lt_of_le long (byteSize_furnishing member))⟩
  next => exact .inl fault

/-- The notes about a run of any type that has just been made. -/
def newNotes (time : DateTime) (runType description : String) (tags : Json) (name : String) :
    RunMetadata where
  runId := .str name
  runType := .str runType
  description := .str description
  createdAt := .str time.iso
  tags := if tags.isTruthy then tags else .arr []

/-- The notes about a run of a known type that has just been made. -/
def firstNotes (time : DateTime) (kind : RunKind) (description : String) (tags : Json)
    (name : String) : RunMetadata := newNotes time kind.name description tags name

/-- What has come of making a run directory under one of the variants of a name. -/
structure Made (a : Archive) (root : TreePath) (wanted : String) (s : Site) (r : SavedRun)
    (t : Site) : Prop where
  worked : Site.WorkedIn (r.place root) s t
  kept : r.Kept a root t
  new : s.files.contains (r.place root) = false
  first : ∃ n, 1 ≤ n ∧ r.directory.name = variant wanted n ∧
    ∀ j, 1 ≤ j → j < n → s.files.contains (root ++ [variant wanted j]) = true

/-- How making a run directory fails: something is too long, and nothing that was there has
changed. -/
structure Unmade (a : Archive) (root : TreePath) (wanted : String) (s : Site) (e : ArchiveError)
    (t : Site) : Prop where
  error : ∃ n path, e = .file .nameTooLong path ∧ a.TooLong (variant wanted n)
  elsewhere : ∃ n, s.files.contains (root ++ [variant wanted n]) = false ∧
    Site.WorkedIn (root ++ [variant wanted n]) s t

variable {description : String}

/-- A run directory is furnished under a name that is free. -/
theorem furnish_concludes (stands : a.Stands root s) (plain : Plain name) (writable : Writable name)
    (absent : s.files.contains (root ++ [name]) = false)
    {rest : Filing SavedRun} {Q : SavedRun → Site → Prop} {E : ArchiveError → Site → Prop}
    (failure : ∀ path t, a.TooLong name → Site.WorkedIn (root ++ [name]) s t →
      E (.file .nameTooLong path) t)
    (success : ∀ t, Furnished SavedRun.rooms (root ++ [name]) s t → byteSize name ≤ FileTree.nameLimit →
      Concludes rest t Q E) :
    Concludes (do
      Filing.makeDirectory ((a.runs.child name).child "checkpoints")
      Filing.makeDirectory ((a.runs.child name).child "logs")
      rest) s Q E := by
  by_cases long : FileTree.nameLimit < byteSize name
  · have lost := find_furnishing_tooLong (f := "checkpoints") stands plain writable long (by decide)
    exact Concludes.error_bind (Filing.run_makeDirectory_error lost (by decide))
      (failure _ s (.inl long) (.refl _ s))
  have short : byteSize name ≤ FileTree.nameLimit := Nat.le_of_not_lt long
  have leads := stands.leads.child stands.directory plain short
  have around : s.files.isDirectory (root ++ [name]).dropLast = true := by
    rw [List.dropLast_concat]
    exact stands.directory
  have inside : root ++ [name] ≠ [] := List.concat_ne_nil _ _
  rcases writtenFault?_cases (f := "checkpoints") stands writable (by decide) with
    faultless | ⟨fault, tooLong⟩
  case inr =>
    exact Concludes.error_bind
      (Filing.run_makeDirectory_error (Site.find_eq_error fault) (by decide))
      (failure _ s tooLong (.refl _ s))
  have faultless' := Location.faultless_of_child (Location.child_ne_nil _ _) faultless
  refine Concludes.ok_bind (Filing.run_makeDirectory_new leads inside absent stands.sound.rooted
    (by decide) (by decide) faultless faultless') ?_
  have first := (furnished_new stands.sound.rooted inside absent around).room inside "checkpoints"
  rcases writtenFault?_cases (f := "logs") stands writable (by decide) with
    faultless | ⟨fault, tooLong⟩
  case inr =>
    exact Concludes.error_bind
      (Filing.run_makeDirectory_error (Site.find_eq_error fault) (by decide))
      (failure _ _ tooLong first.worked)
  have noLogs := FileTree.not_contains_iff.mpr (first.empty ["logs"] (by decide))
  refine Concludes.ok_bind (Filing.run_makeDirectory_in (first.worked.leads leads) first.directory
    noLogs (by decide) (by decide) faultless) ?_
  exact success _ (first.room inside "logs") short

/-- A furnished directory with notes in it is that of a run. -/
theorem Furnished.kept {r : SavedRun} (furnished : Furnished SavedRun.rooms (root ++ [name]) s s')
    (located : r.directory = a.runs.child name) (identified : r.metadata.runId = .str name)
    (plain : Plain name) (flat : '/' ∉ name.toList) (leads : s'.Leads r.directory (root ++ [name]))
    (faultless : Site.writtenFault? (SavedRun.metadataFile r.directory).text = none) :
    ∃ t, r.saveMetadata.run.run s' = (.ok (), t) ∧ Site.WorkedIn (root ++ [name]) s t ∧
      r.Kept a root t := by
  have name_eq : r.directory.name = name := by rw [located, Location.name_child]
  have place_eq : r.place root = root ++ [name] := by rw [SavedRun.place, name_eq]
  have directory := furnished.directory
  have rooms (rest : TreePath) : s'.files.isDirectory (root ++ [name] ++ rest) = true ↔
      rest ∈ SavedRun.rooms := by
    refine ⟨fun there => ?_, furnished.there rest⟩
    by_contra noRoom
    rw [FileTree.isDirectory_iff, furnished.empty rest noRoom] at there
    cases there
  have noNotes : ["metadata.json"] ∉ SavedRun.rooms := by decide
  have free : s'.files.isDirectory (root ++ [name] ++ ["metadata.json"]) = false :=
    Bool.eq_false_iff.mpr fun there => noNotes ((rooms _).mp there)
  have found := (leads.child directory (by decide) (by decide)).find faultless
  have around : s'.files.isDirectory (root ++ [name] ++ ["metadata.json"]).dropLast = true := by
    rw [List.dropLast_concat]
    exact directory
  have worked := Site.workedIn_put (s := s') (e := .file r.metadata.toJson.indented)
    (List.prefix_append (root ++ [name]) ["metadata.json"])
    (fun there => absurd (free.symm.trans there) Bool.false_ne_true) around
  refine ⟨_, Filing.run_writeText found free, furnished.worked.trans worked, ?_⟩
  constructor
  · rw [name_eq, located]
  · rw [name_eq]; exact plain
  · rw [name_eq]; exact flat
  · rw [name_eq, identified]
  · rw [place_eq]; exact worked.leads leads
  · intro rest
    rw [place_eq]
    refine Iff.trans ?_ (rooms rest)
    show (s'.files.put _ (.file r.metadata.toJson.indented)).isDirectory _ = true ↔ _
    rw [FileTree.isDirectory_put_file free]
  · exact faultless
  · rw [place_eq]; exact FileTree.get?_put_self (List.concat_ne_nil _ _)

/-- A run in a furnished directory gets its notes, and its settings if there are any, unless the path of
the notes is too long. -/
theorem Furnished.equip_concludes
    (furnished : Furnished SavedRun.rooms (root ++ [name]) s s') (metadata : RunMetadata)
    (stands : a.Stands root s) (identified : metadata.runId = .str name) (plain : Plain name)
    (flat : '/' ∉ name.toList) (writable : Writable name)
    (short : byteSize name ≤ FileTree.nameLimit) (config : Json) :
    Concludes (do
        let run : SavedRun := ⟨a.runs.child name, metadata⟩
        run.saveMetadata
        if config.isTruthy then run.saveConfig config
        return run) s'
      (fun r t => r = ⟨a.runs.child name, metadata⟩ ∧ Site.WorkedIn (root ++ [name]) s t ∧
        r.Kept a root t)
      fun e t => (∃ path, e = .file .nameTooLong path) ∧ a.TooLong name ∧
        Site.WorkedIn (root ++ [name]) s t := by
  let r : SavedRun := ⟨a.runs.child name, metadata⟩
  have leads : s'.Leads r.directory (root ++ [name]) :=
    furnished.worked.leads (stands.leads.child stands.directory plain short)
  rcases writtenFault?_cases (f := "metadata.json") stands writable (by decide) with
    faultless | ⟨fault, tooLong⟩
  case inr =>
    have lost : s'.find (SavedRun.metadataFile r.directory) = .error .nameTooLong :=
      Site.find_eq_error fault
    exact Concludes.error_bind (m := r.saveMetadata) (Filing.run_writeText_error lost)
      ⟨⟨_, rfl⟩, tooLong, furnished.worked⟩
  obtain ⟨t, saved, worked, kept⟩ :=
    furnished.kept (r := r) rfl identified plain flat leads faultless
  have here : r.place root = root ++ [name] := by rw [SavedRun.place, Location.name_child]
  refine Concludes.ok_bind (m := r.saveMetadata) saved ?_
  refine Concludes.ite (fun _ => ?_) fun _ => .pure ⟨rfl, worked, kept⟩
  obtain ⟨u, configured, worked', kept'⟩ := kept.saveConfig config
  exact Concludes.ok_bind configured (.pure ⟨rfl, worked.trans (here ▸ worked'), kept'⟩)

/-- A run directory is made under the first free variant of its name, or it is not made because
something is too long. -/
theorem create_concludes_of_type (stands : a.Stands root s) {runType : String}
    (flatType : '/' ∉ runType.toList)
    (written : Writable (runName s.clock.upcoming runType description)) (config tags : Json) :
    Concludes (a.create (.str runType) description config tags) s
      (fun r t => Made a root (runName s.clock.upcoming runType description) s r t ∧
        r.metadata = newNotes s.clock.upcoming runType description tags r.directory.name)
      fun e t => Unmade a root (runName s.clock.upcoming runType description) s e t := by
  set wanted := runName s.clock.upcoming runType description with wanted_eq
  have line : '_' ∈ wanted.toList := line_mem_runName _ _ _
  have flat : '/' ∉ wanted.toList := slash_not_mem_runName _ _ flatType
  let later : Site := { s with clock := s.clock.read.2 }
  have elapsed (d : TreePath) : Site.WorkedIn d s later := .elapse d s _
  have stands' : a.Stands root later := stands.worked (elapsed [])
  have named := freeName_concludes stands' line flat written later.files.entries.length 1 le_rfl
    (by omega) (by omega)
  unfold create
  refine Concludes.ok_bind Filing.run_now (Concludes.get_bind ?_)
  refine Concludes.bind (named.mono (fun _ _ => id) ?_) ?_
  · rintro e t ⟨rfl, n, path, rfl, long⟩
    obtain ⟨m, free⟩ := exists_variant_free root wanted s
    exact ⟨⟨n, path, rfl, long⟩, m, free, elapsed _⟩
  rintro l t ⟨rfl, n, first, rfl, absent, taken⟩
  have plain : Plain (variant wanted n) := plain_variant line n
  have flat : '/' ∉ (variant wanted n).toList := slash_not_mem_variant flat n
  have written : Writable (variant wanted n) := (writable_variant n).mpr written
  have place : (a.runs.child (variant wanted n)).name = variant wanted n := Location.name_child _ _
  refine furnish_concludes stands' plain written absent ?_ ?_
  · exact fun path t long worked => ⟨⟨n, path, rfl, long⟩, n, absent, (elapsed _).trans worked⟩
  intro t furnished short
  rw [place]
  let notes := newNotes s.clock.upcoming runType description tags (variant wanted n)
  refine (furnished.equip_concludes notes stands' rfl plain flat written short config).mono ?_ ?_
  · rintro r u ⟨rfl, worked, kept⟩
    have here : SavedRun.place root ⟨a.runs.child (variant wanted n), notes⟩ =
        root ++ [variant wanted n] := by rw [SavedRun.place, place]
    refine ⟨⟨here ▸ (elapsed _).trans worked, kept, here ▸ absent, n, first, place, taken⟩, ?_⟩
    show newNotes _ _ _ _ _ = newNotes _ _ _ _ (a.runs.child (variant wanted n)).name
    rw [place]
  · rintro e u ⟨⟨path, rfl⟩, long, worked⟩
    exact ⟨⟨n, path, rfl, long⟩, n, absent, (elapsed _).trans worked⟩

/-- A run of one of the known types. -/
theorem create_concludes (stands : a.Stands root s) (writable : Writable (label description))
    (kind : RunKind) (config tags : Json) :
    Concludes (a.create (.str kind.name) description config tags) s
      (fun r t => Made a root (runName s.clock.upcoming kind.name description) s r t ∧
        r.metadata = firstNotes s.clock.upcoming kind description tags r.directory.name)
      fun e t => Unmade a root (runName s.clock.upcoming kind.name description) s e t :=
  create_concludes_of_type stands kind.slash_not_mem_name ((writable_runName _ _ _).mpr writable)
    config tags

/-- A name that may not stand in a path is taken for free. -/
theorem freeName_unwritable (line : '_' ∈ name.toList) (flat : '/' ∉ name.toList)
    (unwritable : ¬Writable name) (a : Archive) (s : Site) (tries : Nat) :
    (a.freeName name tries 1).run.run s = (.ok (a.runs.child name), s) := by
  have here : a.runs.join (variant name 1) = a.runs.child name :=
    a.runs.join_eq_child (plain_variant line 1) (slash_not_mem_variant flat 1)
  cases tries with
  | zero => rw [freeName, here]; rfl
  | succ tries =>
      have spoilt : ¬Writable (a.runs.child name).text := fun written =>
        unwritable ((Location.writable_child a.runs_ne_nil).mp written).2
      obtain ⟨fault, written, faulty⟩ := Site.writtenFault?_of_not_writable spoilt
      have looked : (Filing.contains (a.runs.child name)).run.run s = _ :=
        Filing.run_holds FileTree.contains _ s
      rw [Site.find_eq_error written] at looked
      dsimp only at looked
      rw [faulty.isAbsence, if_pos rfl] at looked
      rw [freeName, here, run_bind_ok looked]
      rfl

/-- A name that may not stand in a path is noticed before anything is made. -/
theorem create_unwritable_of_type {runType : String} (flatType : '/' ∉ runType.toList)
    (unwritable : ¬Writable (runName s.clock.upcoming runType description)) (a : Archive)
    (config tags : Json) :
    ∃ fault path, (a.create (.str runType) description config tags).run.run s =
        (.error (.file fault path), { s with clock := s.clock.read.2 }) ∧ fault.OfCharacters := by
  let wanted := runName s.clock.upcoming runType description
  let later : Site := { s with clock := s.clock.read.2 }
  have named := freeName_unwritable (line_mem_runName s.clock.upcoming description runType)
    (slash_not_mem_runName s.clock.upcoming description flatType) unwritable a later
    later.files.entries.length
  have spoilt' : ¬Writable ((a.runs.child wanted).child "checkpoints").text := by
    rw [Location.writable_child (Location.child_ne_nil _ _), Location.writable_child a.runs_ne_nil]
    exact fun written => unwritable written.1.2
  obtain ⟨fault, written, faulty⟩ := Site.writtenFault?_of_not_writable spoilt'
  have lost : later.find ((a.runs.child wanted).child "checkpoints") = .error fault :=
    Site.find_eq_error written
  refine ⟨fault, later.pathText ((a.runs.child wanted).child "checkpoints"), ?_, faulty⟩
  unfold create
  rw [run_bind_ok Filing.run_now]
  show (a.freeName wanted later.files.entries.length 1 >>= fun directory => _).run.run later = _
  rw [run_bind_ok named]
  exact run_bind_error (Filing.run_makeDirectory_error lost faulty.ne_missing)

/-- A label that may not stand in a path is noticed before anything is made. -/
theorem create_unwritable (unwritable : ¬Writable (label description)) (a : Archive) (s : Site)
    (kind : RunKind) (config tags : Json) :
    ∃ fault path, (a.create (.str kind.name) description config tags).run.run s =
        (.error (.file fault path), { s with clock := s.clock.read.2 }) ∧ fault.OfCharacters :=
  create_unwritable_of_type kind.slash_not_mem_name
    (fun written => unwritable ((writable_runName _ _ _).mp written)) a config tags

end Archive

end PrimeSearch
