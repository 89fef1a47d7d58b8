/-
Module: PrimeSearch.Proofs.Archive.Listing
Purpose: What a listing of the runs finds, and that it changes nothing.
Main exports: Filing.Reads, Filing.outcome_bind, RunMetadata.ofJson_respelt, Archive.Found, Archive.seen,
  Archive.seen_of_json, Archive.matching, Archive.list_concludes, Archive.seen_congr, Archive.mem_matching,
  Archive.descending_matching
-/
import PrimeSearch.Proofs.Archive.Creation
import PrimeSearch.Proofs.Files.Removal
import PrimeSearch.Proofs.Json.RoundTrip

namespace PrimeSearch

open FileTree (Plain)

/-!
Looking for runs changes nothing, so what is found under a name is a function of the site.  A listing
goes through the names in their order, passes over those under which no run of the type is found, and
breaks off at the first one whose notes cannot be read, unless it has found enough before.
-/

namespace Filing

variable {α β : Type} {m : Filing α} {f : α → Filing β} {s : Site}

/-- A computation that leaves the site as it is. -/
def Reads (m : Filing α) : Prop := ∀ s : Site, (m.run.run s).2 = s

namespace Reads

theorem pure (a : α) : Reads (Pure.pure a : Filing α) := fun _ => rfl

theorem throw (e : ArchiveError) : Reads (MonadExcept.throw e : Filing α) := fun _ => rfl

theorem run (reads : Reads m) (s : Site) : m.run.run s = ((m.run.run s).1, s) :=
  Prod.ext rfl (reads s)

theorem bind (first : Reads m) (rest : ∀ a, Reads (f a)) : Reads (m >>= f) := by
  intro s
  have run := first.run s
  cases outcome : (m.run.run s).1 with
  | ok a =>
      rw [outcome] at run
      rw [run_bind_ok run]
      exact rest a s
  | error e =>
      rw [outcome] at run
      rw [run_bind_error run]

theorem ite {c : Prop} [Decidable c] {m' : Filing α} (yes : Reads m) (no : Reads m') :
    Reads (if c then m else m') := by
  split
  next => exact yes
  next => exact no

theorem named (l : Location) (r : Except FileFault α) : Reads (named l r) := by
  intro s
  cases r with | ok | error => rfl

theorem find (l : Location) : Reads (find l) := by
  intro s
  exact named l (s.find l) s

theorem holds (test : FileTree → TreePath → Bool) (l : Location) : Reads (holds test l) := by
  intro s
  rw [run_holds]
  split
  next => rfl
  next => rfl

theorem contains (l : Location) : Reads (contains l) := holds _ l

theorem isDirectory (l : Location) : Reads (isDirectory l) := holds _ l

theorem readText (l : Location) : Reads (readText l) := by
  refine bind (find l) fun p s => ?_
  exact named l (s.files.read p) s

theorem loadJson (l : Location) : Reads (loadJson l) := by
  refine bind (readText l) fun text => ?_
  cases Json.readFile text with
  | ok j => exact pure j
  | error e => exact throw _

end Reads

/-- What comes of two parts in a row, the first of which changes nothing. -/
theorem outcome_bind (reads : Reads m) (f : α → Filing β) (s : Site) :
    ((m >>= f).run.run s).1 = (m.run.run s).1 >>= fun a => ((f a).run.run s).1 := by
  have run := reads.run s
  cases outcome : (m.run.run s).1 with
  | ok a =>
      rw [outcome] at run
      rw [run_bind_ok run]
      rfl
  | error e =>
      rw [outcome] at run
      rw [run_bind_error run]
      rfl

/-- Something holds of a place only if the place is found. -/
theorem outcome_holds_eq_true {test : FileTree → TreePath → Bool} {l : Location}
    (held : ((holds test l).run.run s).1 = .ok true) :
    ∃ p, s.find l = .ok p ∧ test s.files p = true := by
  rw [run_holds] at held
  split at held
  next p found => exact ⟨p, found, Except.ok.inj held⟩
  next fault lost => split at held <;> cases held

/-- Whether something holds of a place is a matter of where it is and what is there. -/
theorem outcome_holds_congr {test : FileTree → TreePath → Bool} {l : Location} {files : FileTree}
    (found : Site.find { s with files } l = s.find l)
    (same : ∀ p, s.find l = .ok p → test files p = test s.files p) :
    ((holds test l).run.run { s with files }).1 = ((holds test l).run.run s).1 := by
  rw [run_holds, run_holds, found]
  cases place : s.find l with
  | ok p => exact congrArg Except.ok (same p place)
  | error fault => rfl

/-- What is read is a matter of where it is and what is there. -/
theorem outcome_readText_congr {l : Location} {files : FileTree}
    (found : Site.find { s with files } l = s.find l)
    (same : ∀ p, s.find l = .ok p → files.get? p = s.files.get? p) :
    ((readText l).run.run { s with files }).1 = ((readText l).run.run s).1 := by
  unfold readText
  cases place : s.find l with
  | error fault =>
      rw [run_bind_error (run_find_error place),
        run_bind_error (run_find_error (found.trans place))]
      rfl
  | ok p =>
      have read : files.read p = s.files.read p := by
        rw [FileTree.read, FileTree.read, same p place]
      rw [run_bind_ok (run_find_ok place), run_bind_ok (run_find_ok (found.trans place))]
      show ((named l (files.read p)).run.run _).1 = ((named l (s.files.read p)).run.run s).1
      rw [read]
      cases s.files.read p with | ok | error => rfl

theorem outcome_loadJson_congr {l : Location} {files : FileTree}
    (found : Site.find { s with files } l = s.find l)
    (same : ∀ p, s.find l = .ok p → files.get? p = s.files.get? p) :
    ((loadJson l).run.run { s with files }).1 = ((loadJson l).run.run s).1 := by
  unfold loadJson
  rw [outcome_bind (.readText l), outcome_bind (.readText l), outcome_readText_congr found same]
  congr 1
  funext text
  cases Json.readFile text with | ok | error => rfl

end Filing

/-! ### Notes that are read back -/

namespace RunMetadata

/-- Notes as they are read from their file, with all strings spelt anew. -/
def respelt (m : RunMetadata) : RunMetadata where
  runId := m.runId.respelt
  runType := m.runType.respelt
  description := m.description.respelt
  createdAt := m.createdAt.respelt
  completedAt := m.completedAt.respelt
  status := m.status.respelt
  summary := m.summary.respelt
  tags := m.tags.respelt

/-- Notes that are written and read again are understood. -/
theorem ofJson_respelt (m : RunMetadata) : ofJson m.toJson.respelt = .ok m.respelt := by
  have same : ∀ name ∈ ["run_id", "run_type", "description", "created_at", "completed_at", "status",
      "summary", "tags"], PrimeSearch.respelt name = name := by
    have ascii : ∀ name ∈ ["run_id", "run_type", "description", "created_at", "completed_at",
      "status", "summary", "tags"], isAscii name = true := by decide
    exact fun name member => respelt_of_ascii (ascii name member)
  simp only [List.forall_mem_cons] at same
  obtain ⟨id, type, description, created, completed, status, summary, tags, -⟩ := same
  simp only [toJson, Json.respelt, Json.respeltFields, id, type, description, created, completed, status,
    summary, tags]
  rfl

end RunMetadata

namespace Archive

variable {a : Archive} {s : Site} {root : TreePath} {name : String} {names : List String}
  {r : SavedRun}

/-- The directory of runs is found, and it is a directory. -/
structure Found (a : Archive) (root : TreePath) (s : Site) : Prop where
  find : s.find a.runs = .ok root
  directory : s.files.isDirectory root = true

theorem Stands.toFound (stands : a.Stands root s) : a.Found root s :=
  ⟨stands.found, stands.directory⟩

theorem Found.leads (found : a.Found root s) : s.Leads a.runs root :=
  (Site.find_eq_ok_iff.mp found.find).2

theorem Found.run_children (found : a.Found root s) :
    (Filing.children a.runs).run.run s = (.ok (s.files.children root), s) := by
  unfold Filing.children
  rw [run_bind_ok (Filing.run_find_ok found.find)]
  rfl

/-! ### What is found under a name -/

/-- The run in the directory of a name, if there is one. -/
def inspect (a : Archive) (name : String) : Filing (Option SavedRun) := do
  if ← Filing.isDirectory (a.runs.child name) then a.get? name else pure none

theorem reads_get? (a : Archive) (runId : String) : Filing.Reads (a.get? runId) := by
  refine .bind (.contains _) fun there => .ite ?_ (.pure none)
  refine .bind (.loadJson _) fun j => ?_
  cases RunMetadata.ofJson j with
  | ok metadata => exact .pure _
  | error e => exact .throw _

theorem reads_inspect (a : Archive) (name : String) : Filing.Reads (a.inspect name) :=
  .bind (.isDirectory _) fun _ => .ite (reads_get? a name) (.pure none)

/-- What is found under a name, in terms of what is there and what is noted. -/
theorem outcome_get? (a : Archive) (s : Site) (runId : String) :
    ((a.get? runId).run.run s).1 = do
      let notes := SavedRun.metadataFile (a.runs.join runId)
      if ← ((Filing.contains notes).run.run s).1 then
        let j ← ((Filing.loadJson notes).run.run s).1
        match RunMetadata.ofJson j with
        | .ok metadata => return some ⟨a.runs.join runId, metadata⟩
        | .error e => throw (.metadata e)
      else return none := by
  unfold get?
  dsimp only
  rw [Filing.outcome_bind (.contains _)]
  refine bind_congr fun there => ?_
  cases there with
  | false => rfl
  | true =>
      rw [if_pos rfl, if_pos rfl, Filing.outcome_bind (.loadJson _)]
      refine bind_congr fun j => ?_
      cases RunMetadata.ofJson j with | ok | error => rfl

/-- What a listing sees under a name. -/
def seen (a : Archive) (s : Site) (name : String) : Except ArchiveError (Option SavedRun) :=
  ((a.inspect name).run.run s).1

theorem run_inspect (a : Archive) (s : Site) (name : String) :
    (a.inspect name).run.run s = (a.seen s name, s) := (reads_inspect a name).run s

theorem seen_eq (a : Archive) (s : Site) (name : String) :
    a.seen s name = do
      if ← ((Filing.isDirectory (a.runs.child name)).run.run s).1 then ((a.get? name).run.run s).1
      else return none := by
  unfold seen inspect
  rw [Filing.outcome_bind (.isDirectory _)]
  refine bind_congr fun there => ?_
  cases there with | true | false => rfl

/-- What is seen under a name with a file for notes goes by the value in the file. -/
theorem seen_of_json {p q : TreePath} {j : Json} (plain : Plain name) (flat : '/' ∉ name.toList)
    (located : s.find (a.runs.child name) = .ok p) (directory : s.files.isDirectory p = true)
    (noted : s.find (SavedRun.metadataFile (a.runs.child name)) = .ok q)
    (stored : s.files.get? q = some (.file j.indented)) (lettered : j.Lettered) :
    a.seen s name = match RunMetadata.ofJson j.respelt with
      | .ok metadata => .ok (some ⟨a.runs.child name, metadata⟩)
      | .error e => .error (.metadata e) := by
  have there : (Filing.isDirectory (a.runs.child name)).run.run s = (.ok true, s) := by
    rw [Filing.isDirectory, Filing.run_holds_ok located, directory]
  have known : (Filing.contains (SavedRun.metadataFile (a.runs.child name))).run.run s =
      (.ok true, s) := by
    rw [Filing.contains, Filing.run_holds_ok noted, FileTree.contains, stored]
    rfl
  have loaded := Filing.run_loadJson (Filing.run_readText noted stored)
    (Json.readFile_indented lettered)
  unfold seen inspect get?
  rw [run_bind_ok there, if_pos rfl, a.runs.join_eq_child plain flat, run_bind_ok known, if_pos rfl,
    run_bind_ok loaded]
  cases RunMetadata.ofJson j.respelt with | ok | error => rfl

/-- The run of a type under a name, if there is one that can be read. -/
def match? (a : Archive) (runType : Json) (s : Site) (name : String) : Option SavedRun :=
  (a.seen s name).toOption.join.filter (isOfType runType)

theorem match?_of_seen {t : Json} {found : Option SavedRun} (seen : a.seen s name = .ok found) :
    a.match? t s name = found.filter (isOfType t) := by
  rw [match?, seen]
  rfl

/-! ### Listings -/

theorem collect_cons (a : Archive) (runType : Json) (limit : Nat) (name : String)
    (names : List String) :
    a.collect runType (limit + 1) (name :: names) = a.inspect name >>= fun found =>
      match found with
      | some r =>
          if isOfType runType r then do
            let others ← a.collect runType limit names
            return r :: others
          else a.collect runType (limit + 1) names
      | none => a.collect runType (limit + 1) names := by
  rw [inspect, bind_assoc]
  refine bind_congr fun there => ?_
  cases there with | true | false => rfl

/-- A listing finds the first runs of the type, or breaks off at a name under which there is something
that cannot be read. -/
theorem collect_concludes (a : Archive) (runType : Json) (s : Site) (limit : Nat)
    (names : List String) :
    Concludes (a.collect runType limit names) s
      (fun listed t => t = s ∧ listed = (names.filterMap (a.match? runType s)).take limit ∧
        (listed.length < limit → ∀ name ∈ names, ∀ e, a.seen s name ≠ .error e))
      fun e t => t = s ∧ ∃ name ∈ names, a.seen s name = .error e := by
  induction names generalizing limit with
  | nil =>
      have nothing : a.collect runType limit [] = return [] := by
        cases limit with | zero | succ => rfl
      rw [nothing]
      exact .pure ⟨rfl, by simp, fun _ name member => absurd member List.not_mem_nil⟩
  | cons name names ih =>
      cases limit with
      | zero => exact .pure ⟨rfl, rfl, fun short => absurd short (Nat.not_lt_zero _)⟩
      | succ limit =>
          have later (e : ArchiveError) (t : Site)
              (broken : t = s ∧ ∃ name ∈ names, a.seen s name = .error e) :
              t = s ∧ ∃ name' ∈ name :: names, a.seen s name' = .error e := by
            obtain ⟨same, name', member, unread⟩ := broken
            exact ⟨same, name', List.mem_cons_of_mem name member, unread⟩
          have run := run_inspect a s name
          rw [collect_cons]
          cases seen : a.seen s name with
          | error e =>
              rw [seen] at run
              exact .error_bind run ⟨rfl, name, List.mem_cons_self, seen⟩
          | ok found =>
              rw [seen] at run
              refine .ok_bind run ?_
              have shown := match?_of_seen (t := runType) seen
              have readable (rest : ∀ name ∈ names, ∀ e, a.seen s name ≠ .error e) :
                  ∀ name' ∈ name :: names, ∀ e, a.seen s name' ≠ .error e := by
                refine List.forall_mem_cons.mpr ⟨fun e unread => ?_, rest⟩
                cases seen.symm.trans unread
              have passed (hidden : found.filter (isOfType runType) = none) :
                  Concludes (a.collect runType (limit + 1) names) s
                    (fun listed t => t = s ∧ listed =
                        ((name :: names).filterMap (a.match? runType s)).take (limit + 1) ∧
                      (listed.length < limit + 1 →
                        ∀ name' ∈ name :: names, ∀ e, a.seen s name' ≠ .error e))
                    fun e t => t = s ∧ ∃ name' ∈ name :: names, a.seen s name' = .error e := by
                rw [List.filterMap_cons_none (shown.trans hidden)]
                refine (ih (limit + 1)).mono (fun _ _ ⟨same, listed, rest⟩ => ?_) later
                exact ⟨same, listed, readable ∘ rest⟩
              cases found with
              | none => exact passed rfl
              | some r =>
                  dsimp only
                  refine .ite (fun ofType => ?_) fun other => passed (by simp [other])
                  have visible : a.match? runType s name = some r := by
                    rw [shown, Option.filter_some, if_pos ofType]
                  rw [List.filterMap_cons_some visible, List.take_succ_cons]
                  refine .bind ((ih limit).mono (fun _ _ => id) later) ?_
                  rintro listed t ⟨rfl, rfl, rest⟩
                  exact .pure ⟨rfl, rfl, fun short => readable (rest (Nat.lt_of_succ_lt_succ short))⟩

/-- The names of what lies in the directory of runs, last name first. -/
def ordered (s : Site) (root : TreePath) : List String :=
  (s.files.children root).mergeSort fun x y => decide (y ≤ x)

/-- The runs of a type that can be read, by name, last name first. -/
def matching (a : Archive) (root : TreePath) (runType : Json) (s : Site) : List SavedRun :=
  (ordered s root).filterMap (a.match? runType s)

theorem list_concludes (found : a.Found root s) (runType : Json) (limit : Int) :
    Concludes (a.list runType limit) s
      (fun listed t => t = s ∧ listed = (a.matching root runType s).take limit.toNat ∧
        (listed.length < limit.toNat →
          ∀ name ∈ s.files.children root, ∀ e, a.seen s name ≠ .error e))
      fun e t => t = s ∧ ∃ name ∈ s.files.children root, a.seen s name = .error e := by
  have named : a.names.run.run s = (.ok (ordered s root), s) := by
    unfold names
    rw [run_bind_ok found.run_children]
    rfl
  refine .ok_bind named ((collect_concludes a runType s limit.toNat _).mono ?_ ?_)
  · rintro listed t ⟨same, first, readable⟩
    exact ⟨same, first, fun short name member => readable short name (List.mem_mergeSort.mpr member)⟩
  · rintro e t ⟨same, name, member, unread⟩
    exact ⟨same, name, List.mem_mergeSort.mp member, unread⟩

/-! ### Where a run that is found lies -/

/-- A path that goes on from the directory of runs. -/
structure Below (a : Archive) (l : Location) (parts : List String) : Prop where
  from_root : l.root = a.runs.root
  onward : l.parts = a.runs.parts ++ parts
  plain : ∀ part ∈ parts, Plain part

theorem below_child (plain : Plain name) : a.Below (a.runs.child name) [name] :=
  ⟨rfl, rfl, List.forall_mem_singleton.mpr plain⟩

theorem below_notes (plain : Plain name) :
    a.Below (SavedRun.metadataFile (a.runs.child name)) [name, "metadata.json"] :=
  ⟨rfl, List.append_assoc _ _ _,
    List.forall_mem_cons.mpr ⟨plain, List.forall_mem_singleton.mpr (by decide)⟩⟩

namespace Below

variable {l : Location} {parts : List String}

theorem walk_eq (below : a.Below l parts) (found : a.Found root s) :
    s.files.walk (s.start l) l.parts = s.files.walk root parts := by
  have start : s.start l = s.start a.runs := by
    rw [Site.start, Site.start, Location.isAbsolute, below.from_root]
    rfl
  rw [start, below.onward]
  exact FileTree.walk_append found.leads

/-- What is found lies where it is said to. -/
theorem place_eq (below : a.Below l parts) (found : a.Found root s) {p : TreePath}
    (located : s.find l = .ok p) : p = root ++ parts := by
  have leads : s.files.walk (s.start l) l.parts = .ok p := (Site.find_eq_ok_iff.mp located).2
  rw [below.walk_eq found] at leads
  exact FileTree.walk_plain below.plain leads

/-- Whether a place is found depends on what lies on the way. -/
theorem find_congr (below : a.Below l parts) (found : a.Found root s) {files : FileTree}
    (found' : a.Found root { s with files })
    (same : ∀ front, front <+: parts → front ≠ [] →
      files.get? (root ++ front) = s.files.get? (root ++ front)) :
    Site.find { s with files } l = s.find l := by
  have walk : files.walk root parts = s.files.walk root parts := by
    refine FileTree.walk_congr fun front before q walked => ?_
    rw [FileTree.walk_plain (fun part member => below.plain part (before.subset member)) walked]
    by_cases none : front = []
    · rw [none, List.append_nil, FileTree.isDirectory_iff.mp found.directory]
      exact FileTree.isDirectory_iff.mp found'.directory
    · exact same front before none
  have onward := below.walk_eq found'
  unfold Site.find
  split
  next => rfl
  next => rw [below.walk_eq found, ← walk, ← onward]

end Below

/-- A run is seen under the name of its directory. -/
theorem seen_eq_some (found : a.Found root s) (plain : Plain name) (flat : '/' ∉ name.toList)
    (seen : a.seen s name = .ok (some r)) :
    r.directory = a.runs.child name ∧ s.find r.directory = .ok (root ++ [name]) := by
  have here : a.runs.join name = a.runs.child name := a.runs.join_eq_child plain flat
  rw [seen_eq] at seen
  obtain ⟨there, looked, shown⟩ := bind_eq_ok seen
  cases there with
  | false => cases shown
  | true =>
      obtain ⟨p, located, -⟩ := Filing.outcome_holds_eq_true looked
      obtain rfl := (below_child plain).place_eq found located
      rw [if_pos rfl, outcome_get?] at shown
      obtain ⟨noted, -, shown⟩ := bind_eq_ok shown
      cases noted with
      | false => cases shown
      | true =>
          obtain ⟨j, -, shown⟩ := bind_eq_ok shown
          cases read : RunMetadata.ofJson j with
          | error e =>
              rw [read] at shown
              cases shown
          | ok metadata =>
              rw [read] at shown
              obtain rfl := Option.some.inj (Except.ok.inj shown)
              rw [here]
              exact ⟨rfl, located⟩

/-- What is seen under a name depends on what lies below it. -/
theorem seen_congr (found : a.Found root s) {files : FileTree}
    (found' : a.Found root { s with files }) (plain : Plain name) (flat : '/' ∉ name.toList)
    (same : ∀ rest, files.get? (root ++ name :: rest) = s.files.get? (root ++ name :: rest)) :
    a.seen { s with files } name = a.seen s name := by
  have here : a.runs.join name = a.runs.child name := a.runs.join_eq_child plain flat
  have kept {parts : List String} (front : List String) (before : front <+: name :: parts)
      (some : front ≠ []) : files.get? (root ++ front) = s.files.get? (root ++ front) := by
    obtain ⟨part, rest, rfl⟩ := List.exists_cons_of_ne_nil some
    obtain ⟨rfl, -⟩ := List.cons_prefix_cons.mp before
    exact same rest
  have directory := (below_child plain).find_congr found found' kept
  have notes := (below_notes plain).find_congr found found' kept
  have there : ((Filing.isDirectory (a.runs.child name)).run.run { s with files }).1 =
      ((Filing.isDirectory (a.runs.child name)).run.run s).1 := by
    refine Filing.outcome_holds_congr directory fun p located => ?_
    rw [(below_child plain).place_eq found located, FileTree.isDirectory, FileTree.isDirectory,
      same []]
  have noted : ((Filing.contains (SavedRun.metadataFile (a.runs.child name))).run.run
      { s with files }).1 =
        ((Filing.contains (SavedRun.metadataFile (a.runs.child name))).run.run s).1 := by
    refine Filing.outcome_holds_congr notes fun p located => ?_
    rw [(below_notes plain).place_eq found located, FileTree.contains, FileTree.contains,
      same ["metadata.json"]]
  have loaded : ((Filing.loadJson (SavedRun.metadataFile (a.runs.child name))).run.run
      { s with files }).1 =
        ((Filing.loadJson (SavedRun.metadataFile (a.runs.child name))).run.run s).1 := by
    refine Filing.outcome_loadJson_congr notes fun p located => ?_
    rw [(below_notes plain).place_eq found located]
    exact same ["metadata.json"]
  rw [seen_eq, seen_eq, there, outcome_get?, outcome_get?, here]
  dsimp only
  rw [noted, loaded]

/-! ### The order of a listing -/

theorem pairwise_ordered (s : Site) (root : TreePath) :
    (ordered s root).Pairwise fun x y => y ≤ x := by
  refine (List.pairwise_mergeSort ?_ ?_ _).imp of_decide_eq_true
  · intro x y z above below
    exact decide_eq_true (String.le_trans (of_decide_eq_true below) (of_decide_eq_true above))
  · intro x y
    rw [Bool.or_eq_true, decide_eq_true_iff, decide_eq_true_iff]
    exact String.le_total y x

theorem mem_ordered : name ∈ ordered s root ↔ name ∈ s.files.children root := List.mem_mergeSort

theorem nodup_ordered (proper : s.files.Proper) (root : TreePath) : (ordered s root).Nodup :=
  (List.mergeSort_perm _ _).nodup_iff.mpr (proper.nodup_children root)

/-- There is only one order of the names. -/
theorem ordered_eq (perm : names.Perm (s.files.children root))
    (down : names.Pairwise fun x y => y ≤ x) : ordered s root = names :=
  List.Perm.eq_of_pairwise (fun _ _ _ _ below above => String.le_antisymm above below)
    (pairwise_ordered s root) down ((List.mergeSort_perm _ _).trans perm.symm)

/-- Leaving out names does not change the order of the others. -/
theorem ordered_filter {s' : Site} {keep : String → Bool}
    (left : s'.files.children root = (s.files.children root).filter keep) :
    ordered s' root = (ordered s root).filter keep := by
  refine ordered_eq ?_ ((pairwise_ordered s root).filter _)
  rw [left]
  exact (List.mergeSort_perm _ _).filter keep

theorem match?_eq_some_iff {runType : Json} :
    a.match? runType s name = some r ↔ a.seen s name = .ok (some r) ∧ isOfType runType r = true := by
  rw [match?, Option.filter_eq_some_iff]
  refine and_congr_left fun _ => ?_
  cases a.seen s name with
  | error e => simp [Except.toOption]
  | ok found => cases found with | none | some => simp [Except.toOption]

/-- A run that a listing finds under a name lies in the directory of that name. -/
theorem match?_located (found : a.Found root s) (proper : s.files.Proper) {runType : Json}
    (there : name ∈ s.files.children root) (matched : a.match? runType s name = some r) :
    r.directory.name = name ∧ r.directory = a.runs.child name ∧
      s.find r.directory = .ok (root ++ [name]) := by
  obtain ⟨directory, located⟩ := seen_eq_some found (proper.plain_of_mem_children there)
    (proper.flat_of_mem_children there) (match?_eq_some_iff.mp matched).1
  exact ⟨by rw [directory, Location.name_child], directory, located⟩

theorem mem_matching (found : a.Found root s) (proper : s.files.Proper) {runType : Json}
    (member : r ∈ a.matching root runType s) :
    r.directory = a.runs.child r.directory.name ∧ s.find r.directory = .ok (r.place root) ∧
      r.directory.name ∈ s.files.children root := by
  obtain ⟨name, listed, matched⟩ := List.mem_filterMap.mp member
  have there := mem_ordered.mp listed
  obtain ⟨named, directory, located⟩ := match?_located found proper there matched
  rw [SavedRun.place, named]
  exact ⟨directory, located, there⟩

/-- A listing goes down the names of the directories. -/
theorem names_matching (found : a.Found root s) (proper : s.files.Proper) (runType : Json) :
    ((a.matching root runType s).map fun r => r.directory.name).Sublist (ordered s root) := by
  have each : ∀ name ∈ ordered s root, ∀ r, a.match? runType s name = some r →
      r.directory.name = name := fun name listed r matched =>
    (match?_located found proper (mem_ordered.mp listed) matched).1
  unfold matching
  revert each
  induction ordered s root with
  | nil => exact fun _ => List.Sublist.slnil
  | cons name names ih =>
      intro each
      obtain ⟨first, others⟩ := List.forall_mem_cons.mp each
      cases matched : a.match? runType s name with
      | none =>
          rw [List.filterMap_cons_none matched]
          exact (ih others).cons name
      | some r =>
          rw [List.filterMap_cons_some matched, List.map_cons, first r matched]
          exact (ih others).cons_cons name

/-- A listing shows the greater name first. -/
theorem descending_matching (found : a.Found root s) (proper : s.files.Proper) (runType : Json) :
    (a.matching root runType s).Pairwise fun r r' => r'.directory.name < r.directory.name := by
  have strict : (ordered s root).Pairwise fun x y => y < x := by
    refine ((pairwise_ordered s root).and (nodup_ordered proper root)).imp ?_
    rintro x y ⟨below, different⟩
    by_contra above
    exact different (String.le_antisymm above below)
  exact List.pairwise_map.mp (strict.sublist (names_matching found proper runType))

theorem nodup_matching (found : a.Found root s) (proper : s.files.Proper) (runType : Json) :
    ((a.matching root runType s).map fun r => r.directory.name).Nodup :=
  (nodup_ordered proper root).sublist (names_matching found proper runType)

theorem length_matching_le (found : a.Found root s) (proper : s.files.Proper) (runType : Json) :
    (a.matching root runType s).length ≤ (s.files.children root).length := by
  have length := (names_matching found proper runType).length_le
  rw [List.length_map, ordered, List.length_mergeSort] at length
  exact length

end Archive

end PrimeSearch
