/-
Module: PrimeSearch.Proofs.Archive.Keeping
Purpose: A saved run is found under its name with its notes, and work on it stays in its directory.
Main exports: SavedRun.place, SavedRun.Kept, Kept.get?, Kept.worked_elsewhere, Kept.saveConfig,
  Kept.saveFields, Kept.saveCheckpoint, Kept.saveCheckpoint_concludes, Kept.openLog_concludes,
  Kept.complete
-/
import PrimeSearch.Archive.Request
import PrimeSearch.Proofs.Archive.Filing

namespace PrimeSearch

open FileTree (Plain)

/-!
What is saved of a run lies in its directory, and the only directories in there are those for
checkpoints and logs.  So a written path with more parts than that leads nowhere, the name of a
checkpoint cannot leave the directory, and none of the files is in the place of another.
-/

namespace RunMetadata

/-- Notes are read as they were saved. -/
theorem ofJson_toJson (m : RunMetadata) : ofJson m.toJson = .ok m := rfl

end RunMetadata

namespace SavedRun

variable {r r' : SavedRun} {a : Archive} {root rest : TreePath} {s t : Site} {f text : String}

/-- The place of the directory of a run among the runs. -/
def place (root : TreePath) (r : SavedRun) : TreePath := root ++ [r.directory.name]

/-- The directories in the directory of a run, itself included. -/
def rooms : List TreePath := [[], ["checkpoints"], ["logs"]]

/-- The files in the directory of a run besides the notes. -/
def papers : List String := ["config.json", "results.json"]

theorem papers_fit : ∀ f ∈ papers,
    Plain f ∧ byteSize f ≤ 13 ∧ [f] ≠ ["metadata.json"] ∧ [f] ∉ rooms := by
  decide

theorem writable_of_papers (member : f ∈ papers) : Writable f := by
  simp only [papers, List.mem_cons, List.not_mem_nil, or_false] at member
  rcases member with rfl | rfl
  · exact writable_of_all (by decide)
  · exact writable_of_all (by decide)

theorem rooms_fit : ∀ room ∈ ["checkpoints", "logs"],
    Plain room ∧ byteSize room ≤ FileTree.nameLimit ∧ [room] ∈ rooms := by
  decide

theorem writable_of_rooms {room : String} (known : room ∈ ["checkpoints", "logs"]) :
    Writable room := by
  simp only [List.mem_cons, List.not_mem_nil, or_false] at known
  rcases known with rfl | rfl
  · exact writable_of_all (by decide)
  · exact writable_of_all (by decide)

/-- A name that begins as those of checkpoints do goes down. -/
theorem plain_checkpoint (rest : List Char) :
    Plain (String.ofList ("checkpoint_".toList ++ rest)) := by
  refine plain_of_head (c := 'c') ?_ (by decide)
  rw [String.toList_ofList]
  rfl

theorem toList_checkpoint (name : String) : ("checkpoint_" ++ name ++ ".json").toList =
    "checkpoint_".toList ++ (name ++ ".json").toList := by
  rw [String.append_assoc, String.toList_append]

/-- The path of a checkpoint goes on from the directory of checkpoints, and the first part behind it
begins as the names of checkpoints do. -/
theorem checkpointFile_eq (r : SavedRun) (name : String) : ∃ first others,
    r.checkpointFile name =
      { r.directory with
        parts := r.directory.parts ++ "checkpoints" ::
          String.ofList ("checkpoint_".toList ++ first) :: others } := by
  have flat : '/' ∉ "checkpoint_".toList := by decide
  obtain ⟨first, others, cut⟩ := splitAtChar_front flat (name ++ ".json").toList
  have text := toList_checkpoint name
  have root : Location.rootOf ("checkpoint_" ++ name ++ ".json") = "" := by
    rw [Location.rootOf, text]
    rfl
  obtain ⟨nonempty, noDot, -⟩ := plain_checkpoint first
  refine ⟨first, (others.map String.ofList).filter fun part => part ≠ "" ∧ part ≠ ".", ?_⟩
  have parts : Location.partsOf ("checkpoint_" ++ name ++ ".json") =
      String.ofList ("checkpoint_".toList ++ first) ::
        (others.map String.ofList).filter fun part => part ≠ "" ∧ part ≠ "." := by
    rw [Location.partsOf, text, cut, List.map_cons, List.filter_cons,
      if_pos (decide_eq_true ⟨nonempty, noDot⟩)]
  simp [checkpointFile, Location.join, Location.ofText, Location.isAbsolute, root, parts,
    Location.child]

/-- A run of an archive whose directory is there with the rooms in it and no others, and with the notes
about it in a file. -/
structure Kept (r : SavedRun) (a : Archive) (root : TreePath) (s : Site) : Prop where
  located : r.directory = a.runs.child r.directory.name
  plain : Plain r.directory.name
  flat : '/' ∉ r.directory.name.toList
  identified : r.metadata.runId = .str r.directory.name
  leads : s.Leads r.directory (r.place root)
  rooms : ∀ rest, s.files.isDirectory (r.place root ++ rest) = true ↔ rest ∈ rooms
  faultless : Site.writtenFault? (metadataFile r.directory).text = none
  stored : s.files.get? (r.place root ++ ["metadata.json"]) =
    some (.file r.metadata.toJson.indented)

namespace Kept

theorem directory (kept : r.Kept a root s) : s.files.isDirectory (r.place root) = true := by
  have top := (kept.rooms []).mpr (by decide)
  rwa [List.append_nil] at top

theorem directory_ne_nil (kept : r.Kept a root s) : r.directory.parts ≠ [] := by
  rw [kept.located]
  exact Location.child_ne_nil _ _

/-- The path of the directory of a run can be written. -/
theorem writable (kept : r.Kept a root s) : Writable r.directory.text := by
  have faultless := kept.faultless
  rw [metadataFile, Site.writtenFault?_eq_none_iff,
    Location.writable_child kept.directory_ne_nil] at faultless
  exact faultless.1.1

/-- A file of a name no longer than that of the notes is found in the directory of a run. -/
theorem find_child (kept : r.Kept a root s) (plain : Plain f) (writable : Writable f)
    (short : byteSize f ≤ 13) : s.find (r.directory.child f) = .ok (r.place root ++ [f]) := by
  have limit : byteSize f ≤ FileTree.nameLimit := short.trans (by decide)
  refine (kept.leads.child kept.directory plain limit).find ?_
  have faultless := kept.faultless
  have notes : byteSize "metadata.json" = 13 := by decide
  rw [metadataFile, Site.writtenFault?_eq_none_iff,
    Location.byteSize_child kept.directory_ne_nil, notes] at faultless
  rw [Site.writtenFault?_eq_none_iff, Location.writable_child kept.directory_ne_nil,
    Location.byteSize_child kept.directory_ne_nil]
  exact ⟨⟨kept.writable, writable⟩, by omega⟩

/-- A file in one of the rooms of a run is found unless its name or its path is too long. -/
theorem find_inside (kept : r.Kept a root s) (room : String) (known : room ∈ ["checkpoints", "logs"])
    (plain : Plain f) (writable : Writable f) :
    s.find ((r.directory.child room).child f) = .ok (r.place root ++ [room, f]) ∨
      s.find ((r.directory.child room).child f) = .error .nameTooLong := by
  obtain ⟨plainRoom, short, member⟩ := rooms_fit room known
  have leads := kept.leads.child kept.directory plainRoom short
  have written : Writable ((r.directory.child room).child f).text := by
    rw [Location.writable_child (Location.child_ne_nil _ _),
      Location.writable_child kept.directory_ne_nil]
    exact ⟨⟨kept.writable, writable_of_rooms known⟩, writable⟩
  rcases leads.find_child ((kept.rooms [room]).mpr member) plain written with found | ⟨lost, -⟩
  · rw [List.append_assoc] at found
    exact .inl found
  · exact .inr lost

/-- The notes about a run are found in its directory. -/
theorem find_notes (kept : r.Kept a root s) :
    s.find (metadataFile r.directory) = .ok (r.place root ++ ["metadata.json"]) :=
  kept.find_child (by decide) (writable_of_all (by decide)) (by decide)

/-- A run is found under its name, with the notes about it, if they are read as they were
written. -/
theorem get? (kept : r.Kept a root s)
    (readBack : Json.readFile r.metadata.toJson.indented = .ok r.metadata.toJson) :
    (a.get? r.directory.name).run.run s = (.ok (some r), s) := by
  have here : a.runs.join r.directory.name = r.directory := by
    rw [a.runs.join_eq_child kept.plain kept.flat, ← kept.located]
  have there : (Filing.contains (metadataFile r.directory)).run.run s = (.ok true, s) := by
    rw [Filing.contains, Filing.run_holds_ok kept.find_notes, FileTree.contains, kept.stored]
    rfl
  have loaded := Filing.run_loadJson (Filing.run_readText kept.find_notes kept.stored) readBack
  unfold Archive.get?
  rw [here, run_bind_ok there, if_pos rfl, run_bind_ok loaded, RunMetadata.ofJson_toJson]
  rfl

/-! ### What work leaves as it is -/

/-- Work on other runs leaves a run as it is. -/
theorem worked_elsewhere (kept : r.Kept a root s) {other : String}
    (different : other ≠ r.directory.name) (worked : Site.WorkedIn (root ++ [other]) s t) :
    r.Kept a root t := by
  have outside (rest : TreePath) : ¬root ++ [other] <+: r.place root ++ rest := by
    rintro ⟨tail, same⟩
    have : other = r.directory.name := by
      simp [place, List.append_assoc] at same
      exact same.1
    exact different this
  have same (rest : TreePath) :
      t.files.get? (r.place root ++ rest) = s.files.get? (r.place root ++ rest) :=
    worked.elsewhere _ (outside rest)
  refine ⟨kept.located, kept.plain, kept.flat, kept.identified, worked.leads kept.leads,
    fun rest => ?_, kept.faultless, ?_⟩
  · rw [FileTree.isDirectory_iff, same, ← FileTree.isDirectory_iff]
    exact kept.rooms rest
  · rw [same, kept.stored]

/-- Time that passes leaves a run as it is. -/
theorem elapse (kept : r.Kept a root s) (clock : Clock) : r.Kept a root { s with clock } :=
  ⟨kept.located, kept.plain, kept.flat, kept.identified, kept.leads, kept.rooms, kept.faultless,
    kept.stored⟩

/-- A file written in the directory of a run, be it the file of its notes. -/
theorem put (kept : r.Kept a root s) (same : r'.directory = r.directory)
    (identified : r'.metadata.runId = r.metadata.runId)
    (free : s.files.isDirectory (r.place root ++ rest) = false)
    (stored : (s.files.put (r.place root ++ rest) (.file text)).get?
      (r.place root ++ ["metadata.json"]) = some (.file r'.metadata.toJson.indented)) :
    r'.Kept a root { s with files := s.files.put (r.place root ++ rest) (.file text) } := by
  have there : r'.place root = r.place root := by rw [place, place, same]
  have keeps : FileTree.Keeps s.files (s.files.put (r.place root ++ rest) (.file text)) :=
    FileTree.keeps_put fun directory => absurd (free.symm.trans directory) Bool.false_ne_true
  constructor
  · rw [same, ← kept.located]
  · rw [same]; exact kept.plain
  · rw [same]; exact kept.flat
  · rw [identified, kept.identified, same]
  · rw [same, there]; exact FileTree.walk_of_keeps keeps kept.leads
  · intro rest'
    show (s.files.put (r.place root ++ rest) (.file text)).isDirectory (r'.place root ++ rest') = true
      ↔ rest' ∈ SavedRun.rooms
    rw [there, FileTree.isDirectory_put_file free]
    exact kept.rooms rest'
  · rw [same]; exact kept.faultless
  · rw [there]; exact stored

/-- No file of a run is in the place of a directory. -/
theorem free (kept : r.Kept a root s) (noRoom : rest ∉ SavedRun.rooms) :
    s.files.isDirectory (r.place root ++ rest) = false :=
  Bool.eq_false_iff.mpr fun there => noRoom ((kept.rooms rest).mp there)

/-- Writing in the directory of a run is work in its place. -/
theorem workedIn_put (free : s.files.isDirectory (r.place root ++ rest) = false)
    (around : s.files.isDirectory (r.place root ++ rest).dropLast = true) (text : String) :
    Site.WorkedIn (r.place root) s
      { s with files := s.files.put (r.place root ++ rest) (.file text) } :=
  Site.workedIn_put (List.prefix_append _ _)
    (fun there => absurd (free.symm.trans there) Bool.false_ne_true) around

/-- A file other than that of the notes. -/
theorem put_other (kept : r.Kept a root s) (other : rest ≠ ["metadata.json"])
    (free : s.files.isDirectory (r.place root ++ rest) = false) (text : String) :
    r.Kept a root { s with files := s.files.put (r.place root ++ rest) (.file text) } := by
  refine kept.put rfl rfl free ?_
  rw [FileTree.get?_put_of_ne fun same => other (List.append_cancel_left same).symm]
  exact kept.stored

/-! ### Work on a run -/

/-- A file of settings or results is saved in the directory of a run. -/
theorem saveFile (kept : r.Kept a root s) (member : f ∈ papers) (j : Json) :
    ∃ t, (Filing.saveJson (r.directory.child f) j).run.run s = (.ok (), t) ∧
      Site.WorkedIn (r.place root) s t ∧ r.Kept a root t := by
  obtain ⟨plain, short, other, noRoom⟩ := papers_fit f member
  have found := kept.find_child plain (writable_of_papers member) short
  have free := kept.free noRoom
  have around : s.files.isDirectory (r.place root ++ [f]).dropLast = true := by
    rw [List.dropLast_concat]
    exact kept.directory
  exact ⟨_, Filing.run_writeText found free, workedIn_put free around _, kept.put_other other free _⟩

theorem saveConfig (kept : r.Kept a root s) (config : Json) :
    ∃ t, (r.saveConfig config).run.run s = (.ok (), t) ∧ Site.WorkedIn (r.place root) s t ∧
      r.Kept a root t :=
  kept.saveFile (by decide) config

/-- Results are saved with the name of the run and the time. -/
theorem saveFields (kept : r.Kept a root s) (fields : List (String × Json)) :
    ∃ t, (r.saveResults fields).run.run s = (.ok (), t) ∧ Site.WorkedIn (r.place root) s t ∧
      r.Kept a root t := by
  have later := kept.elapse s.clock.read.2
  obtain ⟨t, saved, worked, kept⟩ := later.saveFile (f := "results.json") (by decide)
    (.obj (Json.put "_completed_at" (.str s.clock.upcoming.iso)
      (Json.put "_run_id" r.metadata.runId fields)))
  refine ⟨t, ?_, (Site.WorkedIn.elapse _ s _).trans worked, kept⟩
  unfold SavedRun.saveResults
  rw [run_bind_ok Filing.run_now]
  exact saved

/-- Results are saved unless what is given for them has no fields. -/
theorem saveResults (kept : r.Kept a root s) (results : Json) :
    ∃ outcome t, (r.saveResultsFor results).run.run s = (outcome, t) ∧
      Site.WorkedIn (r.place root) s t ∧ r.Kept a root t := by
  unfold saveResultsFor
  cases fieldsFor results with
  | error e => exact ⟨_, s, rfl, .refl _ s, kept⟩
  | ok fields =>
      obtain ⟨t, saved, worked, kept⟩ := kept.saveFields fields
      exact ⟨.ok (), t, saved, worked, kept⟩

/-- A checkpoint is found among the checkpoints of its run, whatever its name is. -/
theorem find_checkpoint (kept : r.Kept a root s) {p : TreePath}
    (found : s.find (r.checkpointFile f) = .ok p) :
    ∃ file, p = r.place root ++ ["checkpoints", file] := by
  obtain ⟨first, others, shape⟩ := checkpointFile_eq r f
  have walked := (Site.find_eq_ok_iff.mp found).2
  rw [shape] at walked
  have onward : s.files.walk (r.place root) ("checkpoints" ::
      String.ofList ("checkpoint_".toList ++ first) :: others) = .ok p :=
    (FileTree.walk_append kept.leads).symm.trans walked
  obtain ⟨_, entered, onward⟩ := FileTree.walk_cons_eq_ok onward
  rw [FileTree.step_plain kept.directory (by decide), if_neg (by decide)] at entered
  obtain rfl := Except.ok.inj entered
  obtain ⟨q, stepped, onward⟩ := FileTree.walk_cons_eq_ok onward
  rw [FileTree.step_plain (FileTree.step_eq_ok stepped).1 (plain_checkpoint first)] at stepped
  split at stepped
  next => cases stepped
  next =>
    obtain rfl := Except.ok.inj stepped
    cases others with
    | nil =>
        obtain rfl := Except.ok.inj onward
        exact ⟨_, List.append_assoc _ _ _⟩
    | cons part others =>
        -- There are no directories among the checkpoints, so no path leads any further.
        obtain ⟨_, further, -⟩ := FileTree.walk_cons_eq_ok onward
        have directory := (FileTree.step_eq_ok further).1
        rw [List.append_assoc] at directory
        have inRooms := (kept.rooms _).mp directory
        simp [SavedRun.rooms] at inRooms

/-- A file is written in one of the rooms of a run. -/
theorem workedIn_put_inside (kept : r.Kept a root s) (room : String)
    (known : room ∈ ["checkpoints", "logs"]) (f text : String) :
    Site.WorkedIn (r.place root) s
        { s with files := s.files.put (r.place root ++ [room, f]) (.file text) } ∧
      r.Kept a root { s with files := s.files.put (r.place root ++ [room, f]) (.file text) } := by
  have free : s.files.isDirectory (r.place root ++ [room, f]) = false :=
    kept.free (by simp [SavedRun.rooms])
  have around : s.files.isDirectory (r.place root ++ [room, f]).dropLast = true := by
    have shape : r.place root ++ [room, f] = r.place root ++ [room] ++ [f] := by simp
    rw [shape, List.dropLast_concat]
    exact (kept.rooms [room]).mpr (rooms_fit room known).2.2
  exact ⟨workedIn_put free around text, kept.put_other (by simp) free text⟩

/-- A checkpoint is saved where its file is found. -/
theorem saveCheckpoint_found (kept : r.Kept a root s) {name : String} {p : TreePath}
    (found : s.find (r.checkpointFile name) = .ok p) (data : Json) :
    ∃ t, (r.saveCheckpoint data name).run.run s = (.ok (r.checkpointFile name), t) ∧
      Site.WorkedIn (r.place root) s t ∧ r.Kept a root t := by
  obtain ⟨file, rfl⟩ := kept.find_checkpoint found
  have free : s.files.isDirectory (r.place root ++ ["checkpoints", file]) = false :=
    kept.free (by simp [SavedRun.rooms])
  exact ⟨_, run_bind_ok (Filing.run_writeText found free),
    kept.workedIn_put_inside "checkpoints" (by decide) file data.indented⟩

theorem saveCheckpoint_lost {name : String} {fault : FileFault}
    (lost : s.find (r.checkpointFile name) = .error fault) (data : Json) :
    (r.saveCheckpoint data name).run.run s =
      (.error (.file fault (s.pathText (r.checkpointFile name))), s) :=
  run_bind_error (Filing.run_writeText_error lost)

/-- A checkpoint is saved among the checkpoints of its run, or not at all. -/
theorem saveCheckpoint (kept : r.Kept a root s) (data : Json) (name : String) :
    ∃ outcome t, (r.saveCheckpoint data name).run.run s = (outcome, t) ∧
      Site.WorkedIn (r.place root) s t ∧ r.Kept a root t := by
  cases found : s.find (r.checkpointFile name) with
  | error fault => exact ⟨_, s, saveCheckpoint_lost found data, .refl _ s, kept⟩
  | ok p =>
      obtain ⟨t, saved, worked, kept⟩ := kept.saveCheckpoint_found found data
      exact ⟨_, t, saved, worked, kept⟩

/-- A checkpoint with a name that may stand in a path is saved unless something is too long. -/
theorem saveCheckpoint_concludes (kept : r.Kept a root s) {name : String}
    (flat : '/' ∉ name.toList) (writable : Writable ("checkpoint_" ++ name ++ ".json"))
    (data : Json) :
    Concludes (r.saveCheckpoint data name) s (fun _ t => r.Kept a root t)
      fun e t => r.Kept a root t ∧ e.TooLong := by
  have plain : Plain ("checkpoint_" ++ name ++ ".json") := by
    rw [← String.ofList_toList (s := "checkpoint_" ++ name ++ ".json"), toList_checkpoint]
    exact plain_checkpoint _
  have whole : '/' ∉ ("checkpoint_" ++ name ++ ".json").toList := by
    simp [String.toList_append, flat]
  have here : r.checkpointFile name =
      (r.directory.child "checkpoints").child ("checkpoint_" ++ name ++ ".json") :=
    Location.join_eq_child _ plain whole
  have looked := kept.find_inside "checkpoints" (by decide) plain writable
  rw [← here] at looked
  rcases looked with found | lost
  · obtain ⟨t, saved, -, kept⟩ := kept.saveCheckpoint_found found data
    exact .ok saved kept
  · exact .error (saveCheckpoint_lost lost data) ⟨kept, _, rfl⟩

/-! ### The log -/

/-- The file of the log is found among the logs unless its path is too long. -/
theorem find_log (kept : r.Kept a root s) :
    s.find r.logFile = .ok (r.place root ++ ["logs", "search.log"]) ∨
      s.find r.logFile = .error .nameTooLong :=
  kept.find_inside "logs" (by decide) (by decide) (writable_of_all (by decide))

/-- The file of the log is made unless its path is too long. -/
theorem openLog_concludes (kept : r.Kept a root s) :
    Concludes (do unless ← Filing.contains r.logFile do Filing.writeText r.logFile "") s
      (fun _ t => r.Kept a root t ∧ t.resolve r.logFile = r.place root ++ ["logs", "search.log"])
      fun e _ => e.TooLong := by
  rcases kept.find_log with found | lost
  · refine Concludes.ok_bind (Filing.run_holds_ok found) ?_
    refine Concludes.ite (fun _ => ?_) fun _ => ?_
    · exact .pure ⟨kept, (Site.find_eq_ok_iff.mp found).2.resolve⟩
    · have free : s.files.isDirectory (r.place root ++ ["logs", "search.log"]) = false :=
        kept.free (by decide)
      obtain ⟨worked, after⟩ := kept.workedIn_put_inside "logs" (by decide) "search.log" ""
      exact .ok (Filing.run_writeText found free)
        ⟨after, (worked.leads (Site.find_eq_ok_iff.mp found).2).resolve⟩
  · have run : (Filing.contains r.logFile).run.run s = _ :=
      Filing.run_holds FileTree.contains _ s
    rw [lost] at run
    exact Concludes.error_bind run ⟨_, rfl⟩

/-- What is added to a file other than that of the notes leaves a run as it is. -/
theorem append (kept : r.Kept a root s) (other : rest ≠ ["metadata.json"]) (text : String) :
    r.Kept a root { s with files := s.files.append (r.place root ++ rest) text } := by
  unfold FileTree.append
  split
  next old file =>
    have free : s.files.isDirectory (r.place root ++ rest) = false := by
      simp [FileTree.isDirectory, file]
    exact kept.put_other other free _
  next => exact kept

/-! ### The end of a run -/

/-- A run is recorded as ended, in its notes and in their file. -/
theorem complete (kept : r.Kept a root s) {status : String}
    (known : runStatuses.contains status = true) (summary : Json) :
    let r' : SavedRun :=
      { r with metadata := completed r.metadata status s.clock.upcoming summary }
    ∃ t, (r.complete status summary).run s = ((.ok (), r'), t) ∧
      Site.WorkedIn (r.place root) s t ∧ r'.Kept a root t := by
  intro r'
  have later := kept.elapse s.clock.read.2
  have free := later.free (by decide : ["metadata.json"] ∉ SavedRun.rooms)
  have around : s.files.isDirectory (r.place root ++ ["metadata.json"]).dropLast = true := by
    rw [List.dropLast_concat]
    exact kept.directory
  have saved : r'.saveMetadata.run.run { s with clock := s.clock.read.2 } = _ :=
    Filing.run_writeText later.find_notes free
  refine ⟨_, ?_, (Site.WorkedIn.elapse _ s s.clock.read.2).trans (workedIn_put free around
    r'.metadata.toJson.indented), later.put rfl rfl free ?_⟩
  · unfold SavedRun.complete
    rw [if_pos known]
    show (r'.saveMetadata.run >>= fun outcome => pure (outcome, r') :
      StateM Site (Except ArchiveError Unit × SavedRun)).run
        { s with clock := s.clock.read.2 } = _
    rw [StateT.run_bind, saved]
    rfl
  · exact FileTree.get?_put_self (by simp)

/-- A status that is not known changes nothing. -/
theorem complete_unknown {status : String} (unknown : runStatuses.contains status = false)
    (summary : Json) (s : Site) :
    (r.complete status summary).run s = ((.error (.unknownStatus (.str status)), r), s) := by
  unfold SavedRun.complete
  rw [unknown]
  rfl

end Kept

end SavedRun

end PrimeSearch
