/-
Module: PrimeSearch.Proofs.Archive.Cleanup
Purpose: A cleanup removes the directories of the runs it names, and nothing else.
Main exports: Archive.Apart, Archive.apart_of_down, Site.without, Archive.matching_without,
  Archive.run_removeEach, Archive.run_cleanup, Archive.cleanup_removes
-/
import PrimeSearch.Proofs.Archive.Listing
import PrimeSearch.Proofs.Archive.Runs

namespace PrimeSearch

open FileTree (Plain)

/-!
The runs to be removed are known before the first one is, and each lies in a directory of its own
beside the others.  So after some removals the next directory is still found, unless the way to it
leads through one that is gone; and whatever is seen under another name is seen as before.
-/

/-- A site where some directories in one place are gone. -/
def Site.without (s : Site) (root : TreePath) (names : List String) : Site :=
  { s with files := s.files.removeAll (names.map fun name => root ++ [name]) }

namespace Archive

variable {a : Archive} {s : Site} {root : TreePath} {name : String} {names : List String}

/-- The way to the directory of runs does not pass below any directory in it. -/
def Apart (a : Archive) (root : TreePath) (s : Site) : Prop :=
  ∀ front, front <+: a.runs.parts → ∀ p, s.files.walk (s.start a.runs) front = .ok p →
    ∀ name, ¬ root ++ [name] <+: p

/-- A way that never goes up does not pass below where it ends. -/
theorem apart_of_down (found : a.Found root s) (down : ∀ part ∈ a.runs.parts, Plain part) :
    a.Apart root s := by
  intro front before p walked name below
  obtain ⟨rest, onward⟩ := before
  have here : root = p ++ rest := by
    have leads : s.files.walk (s.start a.runs) a.runs.parts = .ok root := found.leads
    rw [← onward, FileTree.walk_append walked] at leads
    exact FileTree.walk_plain (fun part member => down part (onward ▸ List.mem_append_right _ member))
      leads
  have length := below.length_le
  rw [here] at length
  simp at length

/-- A way does not pass below directories that are not there. -/
theorem apart_of_empty (found : a.Found root s) (rooted : s.files.Rooted)
    (empty : s.files.children root = []) : a.Apart root s := by
  intro front before p walked name below
  obtain ⟨rest, onward⟩ := before
  have leads : s.files.walk (s.start a.runs) (front ++ rest) = .ok root := onward ▸ found.leads
  obtain ⟨q, walked', there⟩ := FileTree.walk_append_eq_ok leads
  obtain rfl := Except.ok.inj (walked.symm.trans walked')
  have directory : s.files.isDirectory p = true := by
    rcases there with ⟨-, rfl⟩ | directory
    · exact found.directory
    · exact directory
  have absent : s.files.contains (root ++ [name]) = false := by
    refine Bool.eq_false_iff.mpr fun there => ?_
    exact List.not_mem_nil (empty ▸ FileTree.mem_children_iff.mpr there)
  exact Bool.false_ne_true ((rooted.not_contains_below absent below).symm.trans
    (FileTree.contains_of_isDirectory directory))

/-- The way stays the same as long as directories stay. -/
theorem Apart.worked (apart : a.Apart root s) (found : a.Found root s) {d : TreePath} {t : Site}
    (worked : Site.WorkedIn d s t) : a.Apart root t := by
  intro front before p walked
  obtain ⟨rest, onward⟩ := before
  have leads : s.files.walk (s.start a.runs) (front ++ rest) = .ok root := onward ▸ found.leads
  obtain ⟨q, walked', -⟩ := FileTree.walk_append_eq_ok leads
  have start : t.start a.runs = s.start a.runs := by rw [Site.start, Site.start, worked.here]
  rw [start, FileTree.walk_of_keeps worked.keeps walked'] at walked
  obtain rfl := Except.ok.inj walked
  exact apart front ⟨rest, onward⟩ q walked'

/-! ### What is left -/

theorem apart_names (other : name ∉ names) (rest : List String) :
    ∀ d ∈ names.map fun name => root ++ [name], ¬ d <+: root ++ name :: rest := by
  intro d member below
  obtain ⟨gone, removed, rfl⟩ := List.mem_map.mp member
  rw [List.prefix_append_right_inj, List.cons_prefix_cons] at below
  exact other (below.1 ▸ removed)

/-- What lies below other names is as it was. -/
theorem get?_without (other : name ∉ names) (rest : List String) :
    (s.without root names).files.get? (root ++ name :: rest) = s.files.get? (root ++ name :: rest) :=
  FileTree.get?_removeAll_of_apart (apart_names other rest)

theorem Found.without (found : a.Found root s) (apart : a.Apart root s) (names : List String) :
    a.Found root (s.without root names) := by
  have kept (p : TreePath) (outside : ∀ name, ¬ root ++ [name] <+: p) :
      (s.without root names).files.get? p = s.files.get? p := by
    refine FileTree.get?_removeAll_of_apart fun d member => ?_
    obtain ⟨gone, -, rfl⟩ := List.mem_map.mp member
    exact outside gone
  constructor
  · have walk : (s.without root names).files.walk (s.start a.runs) a.runs.parts =
        s.files.walk (s.start a.runs) a.runs.parts :=
      FileTree.walk_congr fun front before p walked => kept p (apart front before p walked)
    obtain ⟨faultless, leads⟩ := Site.find_eq_ok_iff.mp found.find
    exact Site.find_eq_ok_iff.mpr ⟨faultless, walk.trans leads⟩
  · have root_kept := kept root (apart a.runs.parts (List.prefix_refl _) root found.leads)
    rw [FileTree.isDirectory_iff, root_kept]
    exact FileTree.isDirectory_iff.mp found.directory

theorem Proper.without (proper : s.files.Proper) (root : TreePath) (names : List String) :
    (s.without root names).files.Proper := by
  refine proper.removeAll fun d member => ?_
  obtain ⟨gone, -, rfl⟩ := List.mem_map.mp member
  exact List.concat_ne_nil _ _

theorem children_without (s : Site) (root : TreePath) (names : List String) :
    (s.without root names).files.children root =
      (s.files.children root).filter fun name => decide (name ∉ names) := by
  rw [Site.without, FileTree.children_removeAll]
  refine List.filter_congr fun name _ => ?_
  rw [List.all_map, Bool.eq_iff_iff, List.all_eq_true, decide_eq_true_iff]
  have only (gone : String) : (!(root ++ [gone]).isPrefixOf (root ++ [name])) = true ↔ gone ≠ name := by
    rw [Bool.not_eq_true', Bool.eq_false_iff, ne_eq, List.isPrefixOf_iff_prefix,
      List.prefix_append_right_inj]
    simp
  simp only [Function.comp_apply, only]
  exact ⟨fun apart member => apart name member rfl, fun other gone member same => other (same ▸ member)⟩

section
variable (found : a.Found root s) (proper : s.files.Proper) (apart : a.Apart root s)
include found proper apart

/-- Under a name that is left the same is seen. -/
theorem seen_without (there : name ∈ s.files.children root) (other : name ∉ names) :
    a.seen (s.without root names) name = a.seen s name :=
  seen_congr found (found.without apart names) (proper.plain_of_mem_children there)
    (proper.flat_of_mem_children there) (get?_without other)

/-- The runs that are left are listed as before. -/
theorem matching_without (runType : Json) (names : List String) :
    a.matching root runType (s.without root names) =
      (a.matching root runType s).filter fun r => decide (r.directory.name ∉ names) := by
  have left := ordered_filter (children_without s root names)
  rw [matching, left, matching, List.filterMap_filter, List.filter_filterMap]
  refine List.filterMap_congr fun name listed => ?_
  have there := mem_ordered.mp listed
  by_cases gone : name ∈ names
  · rw [if_neg (by simpa using gone)]
    cases matched : a.match? runType s name with
    | none => rfl
    | some r =>
        have named := (match?_located found proper there matched).1
        rw [Option.filter_some, if_neg (by simpa [named] using gone)]
  · have same : a.match? runType (s.without root names) name = a.match? runType s name := by
      rw [match?, match?, seen_without found proper apart there gone]
    rw [if_pos (by simpa using gone), same]
    cases matched : a.match? runType s name with
    | none => rfl
    | some r =>
        have named := (match?_located found proper there matched).1
        rw [Option.filter_some, if_pos (by simpa [named] using gone)]

/-! ### Removing -/

/-- A directory that is left is found where it was. -/
theorem find_without (there : name ∈ s.files.children root) (other : name ∉ names) :
    (s.without root names).find (a.runs.child name) = s.find (a.runs.child name) := by
  have plain := proper.plain_of_mem_children there
  refine (below_child plain).find_congr found (found.without apart names) fun front before some => ?_
  obtain ⟨part, rest, rfl⟩ := List.exists_cons_of_ne_nil some
  obtain ⟨rfl, -⟩ := List.cons_prefix_cons.mp before
  exact get?_without other rest

theorem run_removeEach {runs : List SavedRun}
    (located : ∀ r ∈ runs, r.directory = a.runs.child r.directory.name ∧
      s.find r.directory = .ok (r.place root) ∧ r.directory.name ∈ s.files.children root)
    (distinct : (names ++ runs.map fun r => r.directory.name).Nodup) :
    (removeEach runs).run.run (s.without root names) =
      (.ok (), s.without root (names ++ runs.map fun r => r.directory.name)) := by
  induction runs generalizing names with
  | nil => rw [List.map_nil, List.append_nil]; rfl
  | cons r runs ih =>
      obtain ⟨⟨directory, place, there⟩, others⟩ := List.forall_mem_cons.mp located
      rw [List.map_cons, List.append_cons] at distinct ⊢
      have other : r.directory.name ∉ names := by
        have front := (List.nodup_append.mp distinct).1
        exact fun member => (List.nodup_append.mp front).2.2 _ member _ List.mem_cons_self rfl
      have place' : (s.without root names).find r.directory = .ok (r.place root) := by
        rw [directory, find_without found proper apart there other, ← directory, place]
      have removed : (Filing.removeTree r.directory).run.run (s.without root names) =
          (.ok (), s.without root (names ++ [r.directory.name])) := by
        have files : (s.without root names).files.removeTree (r.place root) =
            (s.without root (names ++ [r.directory.name])).files := by
          rw [Site.without, Site.without, List.map_append, FileTree.removeAll, FileTree.removeAll,
            List.foldl_append]
          rfl
        unfold Filing.removeTree
        rw [run_bind_ok (Filing.run_find_ok place')]
        show (Except.ok (), { s.without root names with
          files := (s.without root names).files.removeTree (r.place root) }) = _
        rw [files]
        rfl
      unfold removeEach
      rw [run_bind_ok removed]
      exact ih others distinct

end

/-- A cleanup goes by what a listing finds. -/
theorem run_cleanup {runType : Json} {keep : Nat} {known : List SavedRun}
    (listed : (a.list runType cleanupLimit).run.run s = (.ok known, s)) {s' : Site}
    (removed : (removeEach (known.drop keep)).run.run s = (.ok (), s')) (dryRun : Bool) :
    (a.cleanup keep runType dryRun).run.run s =
      (.ok ((known.drop keep).map (·.metadata.runId)), if dryRun then s else s') := by
  have doomed : dropKept (keep : Int) known = known.drop keep := by
    rw [dropKept, if_pos (Int.natCast_nonneg keep), Int.toNat_natCast]
  unfold cleanup
  rw [run_bind_ok listed]
  dsimp only
  rw [doomed]
  cases dryRun with
  | true => rfl
  | false => exact run_bind_ok removed

theorem run_cleanup_error {runType : Json} {keep : Int} {e : ArchiveError}
    (broken : (a.list runType cleanupLimit).run.run s = (.error e, s)) (dryRun : Bool) :
    (a.cleanup keep runType dryRun).run.run s = (.error e, s) := by
  unfold cleanup
  exact run_bind_error broken

/-! ### What a cleanup does -/

/-- What lies outside a part of a list is what lies before and behind it. -/
theorem filter_outside {α β : Type} [DecidableEq β] (f : α → β) {front middle back : List α}
    (distinct : ((front ++ (middle ++ back)).map f).Nodup) :
    (front ++ (middle ++ back)).filter (fun x => decide (f x ∉ middle.map f)) = front ++ back := by
  rw [List.map_append, List.map_append] at distinct
  obtain ⟨-, later, apart⟩ := List.nodup_append.mp distinct
  obtain ⟨-, -, apart'⟩ := List.nodup_append.mp later
  have before : ∀ x ∈ front, decide (f x ∉ middle.map f) = true := fun x member =>
    decide_eq_true fun inside => apart _ (List.mem_map_of_mem member) _
      (List.mem_append_left _ inside) rfl
  have within : ∀ x ∈ middle, ¬ decide (f x ∉ middle.map f) = true := fun x member outside =>
    of_decide_eq_true outside (List.mem_map_of_mem member)
  have behind : ∀ x ∈ back, decide (f x ∉ middle.map f) = true := fun x member =>
    decide_eq_true fun inside => apart' _ inside _ (List.mem_map_of_mem member) rfl
  rw [List.filter_append, List.filter_append, List.filter_eq_self.mpr before,
    List.filter_eq_nil_iff.mpr within, List.filter_eq_self.mpr behind, List.nil_append]

/-- The runs that a cleanup removes: of as many as it looks at, those after the first `keep`. -/
def old (a : Archive) (root : TreePath) (runType : Json) (keep : Nat) (s : Site) : List SavedRun :=
  ((a.matching root runType s).take cleanupLimit.toNat).drop keep

theorem mem_matching_of_mem_old {runType : Json} {keep : Nat} {r : SavedRun}
    (member : r ∈ a.old root runType keep s) : r ∈ a.matching root runType s :=
  List.mem_of_mem_take (List.mem_of_mem_drop member)

section
variable (found : a.Found root s) (proper : s.files.Proper) (apart : a.Apart root s)
  (runType : Json) (keep : Nat)
include found proper apart

/-- All that a cleanup is to remove is removed. -/
theorem run_removeEach_old :
    (removeEach (a.old root runType keep s)).run.run s =
      (.ok (), s.without root ((a.old root runType keep s).map fun r => r.directory.name)) := by
  have sub := (List.drop_sublist keep _).trans
    (List.take_sublist cleanupLimit.toNat (a.matching root runType s))
  have distinct : ([] ++ (a.old root runType keep s).map fun r : SavedRun => r.directory.name).Nodup :=
    (nodup_matching found proper runType).sublist (sub.map _)
  exact run_removeEach found proper apart
    (fun r member => mem_matching found proper (mem_matching_of_mem_old member)) distinct

/-- The runs of the type that are left: the first `keep`, and those that a cleanup does not look
at. -/
theorem matching_cleaned :
    a.matching root runType
        (s.without root ((a.old root runType keep s).map fun r => r.directory.name)) =
      (a.matching root runType s).take (min keep cleanupLimit.toNat) ++
        (a.matching root runType s).drop cleanupLimit.toNat := by
  have distinct := nodup_matching found proper runType
  rw [matching_without found proper apart]
  unfold old
  generalize a.matching root runType s = all at distinct ⊢
  generalize cleanupLimit.toNat = limit
  have parts : all = all.take (min keep limit) ++ ((all.take limit).drop keep ++ all.drop limit) := by
    rw [← List.append_assoc, ← List.take_take, List.take_append_drop, List.take_append_drop]
  rw [parts] at distinct
  have outside := filter_outside (fun r : SavedRun => r.directory.name) distinct
  rwa [← parts] at outside

end

/-- A listing of all that is there is a listing of the runs that can be read, and none cannot. -/
theorem list_all (found : a.Found root s) (proper : s.files.Proper) {runType : Json} {limit : Nat}
    (enough : (s.files.children root).length < limit) {all : List SavedRun}
    (listed : (a.list runType limit).run.run s = (.ok all, s)) :
    all = a.matching root runType s ∧
      ∀ name ∈ s.files.children root, ∀ e, a.seen s name ≠ .error e := by
  obtain ⟨-, first, readable⟩ := (list_concludes found runType limit).of_run listed
  have few := length_matching_le found proper runType
  have whole : all = a.matching root runType s := by
    rw [first, Int.toNat_natCast, List.take_of_length_le (by omega)]
  refine ⟨whole, readable ?_⟩
  rw [whole, Int.toNat_natCast]
  omega

/-- Where everything can be read, a listing finds the first runs of a type. -/
theorem run_list_of_readable (found : a.Found root s) (runType : Json) (limit : Int)
    (readable : ∀ name ∈ s.files.children root, ∀ e, a.seen s name ≠ .error e) :
    (a.list runType limit).run.run s =
      (.ok ((a.matching root runType s).take limit.toNat), s) := by
  cases list_concludes found runType limit with
  | ok run result =>
      obtain ⟨rfl, rfl, -⟩ := result
      exact run
  | error run failure =>
      obtain ⟨-, name, there, unread⟩ := failure
      exact absurd unread (readable name there _)

/-- What is listed after a cleanup. -/
theorem run_list_cleaned (found : a.Found root s) (proper : s.files.Proper)
    (apart : a.Apart root s) (runType : Json) (keep : Nat) {limit : Nat}
    (enough : (s.files.children root).length ≤ limit)
    (readable : ∀ name ∈ s.files.children root, ∀ e, a.seen s name ≠ .error e) :
    let s' := s.without root ((a.old root runType keep s).map fun r => r.directory.name)
    (a.list runType limit).run.run s' =
      (.ok ((a.matching root runType s).take (min keep cleanupLimit.toNat) ++
        (a.matching root runType s).drop cleanupLimit.toNat), s') := by
  intro s'
  have proper' : s'.files.Proper := Proper.without proper root _
  have found' : a.Found root s' := found.without apart _
  have fewer : (s'.files.children root).length ≤ limit := by
    rw [children_without]
    exact (List.length_filter_le _ _).trans enough
  have readable' : ∀ name ∈ s'.files.children root, ∀ e, a.seen s' name ≠ .error e := by
    intro name left
    rw [children_without, List.mem_filter, decide_eq_true_iff] at left
    rw [seen_without found proper apart left.1 left.2]
    exact readable name left.1
  have whole := run_list_of_readable found' runType limit readable'
  have few := (length_matching_le found' proper' runType).trans fewer
  rw [Int.toNat_natCast, List.take_of_length_le few, matching_cleaned found proper apart] at whole
  exact whole

/-- A cleanup goes by a listing of the runs of its type, of ten thousand at most.  If the listing
breaks off, so does the cleanup, and nothing is changed.  Otherwise the runs after the first `keep` are
named, and unless that is all that is wanted, their directories are gone with all that is in them, and
all else is as it was.  So with no more than ten thousand runs of the type, `keep` of them are left at
most; of more runs than that, those beyond are left as well. -/
theorem cleanup_removes (found : a.Found root s) (proper : s.files.Proper)
    (apart : a.Apart root s) (runType : Json) (keep : Nat) :
    Concludes (a.list runType cleanupLimit) s
      (fun known t => t = s ∧
        let old := known.drop keep
        let ids := old.map (·.metadata.runId)
        (a.cleanup keep runType true).run.run s = (.ok ids, s) ∧
        ∃ files, (a.cleanup keep runType false).run.run s = (.ok ids, { s with files }) ∧
          files.Proper ∧
          (∀ r ∈ old, ∀ rest, files.get? (r.place root ++ rest) = none) ∧
          (∀ p, (∀ r ∈ old, ¬ r.place root <+: p) → files.get? p = s.files.get? p) ∧
          ∀ (limit : Nat) all, (s.files.children root).length < limit →
            (a.list runType limit).run.run s = (.ok all, s) →
            known = all.take 10000 ∧ ∃ left,
              (a.list runType limit).run.run { s with files } = (.ok left, { s with files }) ∧
              left = all.take (min keep 10000) ++ all.drop 10000 ∧
              (all.length ≤ 10000 → left.length ≤ keep))
      fun e t => t = s ∧
        ∀ dryRun, (a.cleanup keep runType dryRun).run.run s = (.error e, s) := by
  cases list_concludes found runType cleanupLimit with
  | error run failure =>
      obtain ⟨rfl, -⟩ := failure
      exact .error run ⟨rfl, run_cleanup_error run⟩
  | ok run result =>
      obtain ⟨rfl, rfl, -⟩ := result
      have removed := run_removeEach_old found proper apart runType keep
      have cleaned := run_cleanup run removed
      refine .ok run ⟨rfl, cleaned true, _, cleaned false, Proper.without proper root _, ?_, ?_, ?_⟩
      · intro r member rest
        refine FileTree.get?_removeAll_of_gone (fun d gone => ?_)
          (.inr ⟨r.place root, ?_, List.prefix_append _ rest⟩)
        · obtain ⟨name, -, rfl⟩ := List.mem_map.mp gone
          exact List.concat_ne_nil _ _
        · refine List.mem_map_of_mem (f := fun name => root ++ [name]) ?_
          exact List.mem_map_of_mem (f := fun r => r.directory.name) member
      · intro p outside
        refine FileTree.get?_removeAll_of_apart fun d gone => ?_
        obtain ⟨name, named, rfl⟩ := List.mem_map.mp gone
        obtain ⟨r, member, rfl⟩ := List.mem_map.mp named
        exact outside r member
      · intro limit all enough listed
        obtain ⟨rfl, readable⟩ := list_all found proper enough listed
        have cleaned := run_list_cleaned found proper apart runType keep enough.le readable
        refine ⟨rfl, _, cleaned, rfl, fun few => ?_⟩
        have limit : cleanupLimit.toNat = 10000 := rfl
        rw [List.length_append, List.length_take, List.length_drop]
        omega

/-! ### Shelves -/

/-- The archive in a directory below the working directory. -/
def library : Archive := ⟨⟨"", ["out"]⟩⟩

/-- A site where that directory holds some runs. -/
def library.holding (files : FileTree) : Site where
  files
  home := []
  homeName := "~"
  here := []
  clock := ⟨⟨2024, 1, 2, 3, 4, 5⟩, none⟩

/-- Notes of a run of a type. -/
def noted (name runType : String) : RunMetadata where
  runId := .str name
  runType := .str runType
  description := .null
  createdAt := .null

/-- The directory of a run is put among the others, with the notes in it. -/
def shelve (name : String) (notes : RunMetadata) (t : FileTree) : FileTree :=
  (t.put (["out", "runs"] ++ [name]) .directory).put (["out", "runs", name] ++ ["metadata.json"])
    (.file notes.toJson.indented)

/-- The directory of runs with nothing in it. -/
def bare : FileTree := ⟨[(["out"], .directory), (["out", "runs"], .directory)]⟩

theorem bare_proper : bare.Proper :=
  ⟨FileTree.rooted_of_entries (by decide), by decide, by decide, by decide⟩

/-- A short name that may be that of a run directory. -/
structure Fit (name : String) : Prop where
  plain : Plain name
  flat : '/' ∉ name.toList
  writable : Writable name
  short : byteSize name ≤ 100

theorem byteSize_le_of_ascii {text : String} (ascii : ∀ c ∈ text.toList, Ascii c) :
    byteSize text ≤ 4 * text.toList.length := by
  rw [byteSize, characters_ascii ascii, List.map_map]
  generalize text.toList = cs
  induction cs with
  | nil => exact Nat.zero_le _
  | cons c cs ih =>
      have small : byteSizeOf [c] ≤ 4 := Char.utf8Size_le_four c
      rw [List.map_cons, List.sum_cons, List.length_cons, Function.comp_apply]
      omega

/-- A few letters or digits are the name of a directory. -/
theorem fit_of_tame {text : String} (tame : ∀ c ∈ text.toList, Tame c ∧ c ≠ '/' ∧ c ≠ '.')
    (some : text ≠ "") (few : text.toList.length ≤ 25) : Fit text := by
  have noDot : '.' ∉ text.toList := fun member => (tame _ member).2.2 rfl
  refine ⟨⟨some, ?_, ?_⟩, fun member => (tame _ member).2.1 rfl,
    writable_of_tame fun c member => (tame c member).1, ?_⟩
  · rintro rfl
    exact noDot (by decide)
  · rintro rfl
    exact noDot (by decide)
  · have := byteSize_le_of_ascii fun c member => (tame c member).1.1
    omega

theorem letters_fit : ∀ name ∈ ["a", "b", "c"], Fit name := by
  simp only [List.forall_mem_cons]
  refine ⟨?_, ?_, ?_, nofun⟩
  all_goals exact fit_of_tame (forall_mem_of_all (by decide)) (by decide) (by decide)

section
variable {t : FileTree} {j : Json}

theorem library_found (proper : t.Proper) (runs : t.isDirectory ["out", "runs"] = true) :
    library.Found ["out", "runs"] (library.holding t) := by
  have out : t.isDirectory ["out"] = true := proper.rooted _ (FileTree.contains_of_isDirectory runs)
  have start : (library.holding t).Leads ⟨"", []⟩ [] := rfl
  have base : (library.holding t).Leads library.base ["out"] :=
    start.child rfl (by decide) (by decide)
  have leads : (library.holding t).Leads library.runs ["out", "runs"] :=
    base.child out (by decide) (by decide)
  exact ⟨leads.find (by decide), runs⟩

theorem library_apart (found : library.Found ["out", "runs"] (library.holding t)) :
    library.Apart ["out", "runs"] (library.holding t) := apart_of_down found (by decide)

theorem noted_lettered (name runType : String) : (noted name runType).toJson.Lettered := by
  simp [noted, RunMetadata.toJson, Json.Lettered, Json.LetteredFields]

theorem match?_noted {n runType : String} {d : Location} {s : Site}
    (seen : library.seen s name = .ok (some ⟨d, noted n runType⟩)) (kind : String) :
    library.match? (.str kind) s name =
      if kind = "" ∨ runType = kind then some ⟨d, noted n runType⟩ else none := by
  rw [match?_of_seen seen, Option.filter_some]
  simp [isOfType, noted, Json.isTruthy, Json.agrees]

theorem noted_respelt {name runType : String} (ascii : isAscii name = true)
    (ascii' : isAscii runType = true) :
    (noted name runType).respelt = noted name runType := by
  have running : respelt "running" = "running" := respelt_of_ascii (by decide)
  simp only [RunMetadata.respelt, noted, Json.respelt, respelt_of_ascii ascii,
    respelt_of_ascii ascii', running]

/-- What is seen in a directory with a file for notes in it. -/
theorem seen_shelved (proper : t.Proper) (runs : t.isDirectory ["out", "runs"] = true)
    (fit : Fit name) (directory : t.isDirectory ["out", "runs", name] = true)
    (stored : t.get? ["out", "runs", name, "metadata.json"] = some (.file j.indented))
    (lettered : j.Lettered) :
    library.seen (library.holding t) name = match RunMetadata.ofJson j.respelt with
      | .ok metadata => .ok (some ⟨library.runs.child name, metadata⟩)
      | .error e => .error (.metadata e) := by
  have found := library_found proper runs
  have leads := found.leads.child found.directory fit.plain (fit.short.trans (by decide))
  have leads' : (library.holding t).Leads (SavedRun.metadataFile (library.runs.child name))
      ["out", "runs", name, "metadata.json"] := leads.child directory (by decide) (by decide)
  have written : Writable (library.runs.child name).text :=
    (Location.writable_child library.runs_ne_nil).mpr ⟨writable_of_all (by decide), fit.writable⟩
  have front : byteSize library.runs.text = 8 := by decide
  have notes : byteSize "metadata.json" = 13 := by decide
  have limit : Site.pathLimit = 4095 := rfl
  have short := fit.short
  have faultless : Site.writtenFault? (SavedRun.metadataFile (library.runs.child name)).text = none := by
    rw [Site.writtenFault?_eq_none_iff, SavedRun.metadataFile,
      Location.writable_child (Location.child_ne_nil _ _),
      Location.byteSize_child (Location.child_ne_nil _ _),
      Location.byteSize_child library.runs_ne_nil]
    exact ⟨⟨written, writable_of_all (by decide)⟩, by omega⟩
  exact seen_of_json fit.plain fit.flat
    (leads.find (Location.faultless_of_child (Location.child_ne_nil _ _) faultless)) directory
    (leads'.find faultless) stored lettered

/-- A run with notes of ASCII is seen with them. -/
theorem seen_noted {n runType : String} (proper : t.Proper)
    (runs : t.isDirectory ["out", "runs"] = true) (fit : Fit name) (ascii : isAscii n = true)
    (ascii' : isAscii runType = true)
    (directory : t.isDirectory ["out", "runs", name] = true)
    (stored : t.get? ["out", "runs", name, "metadata.json"] =
      some (.file (noted n runType).toJson.indented)) :
    library.seen (library.holding t) name =
      .ok (some ⟨library.runs.child name, noted n runType⟩) := by
  rw [seen_shelved proper runs fit directory stored (noted_lettered n runType),
    RunMetadata.ofJson_respelt, noted_respelt ascii ascii']

end

/-! ### A shelf with several things on it -/

/-- A stray file, an empty directory, and three runs of two types. -/
def shelf : FileTree :=
  (shelve "c" (noted "c" "search") <| shelve "b" (noted "b" "comparison") <|
    shelve "a" (noted "a" "search") <| bare.put ["out", "runs", "d"] .directory).put
      ["out", "runs", "e"] (.file "")

theorem shelf_proper : shelf.Proper :=
  ⟨FileTree.rooted_of_entries (by decide), by decide, by decide, by decide⟩

theorem seen_shelf :
    library.seen (library.holding shelf) "a" =
      .ok (some ⟨library.runs.child "a", noted "a" "search"⟩) ∧
    library.seen (library.holding shelf) "b" =
      .ok (some ⟨library.runs.child "b", noted "b" "comparison"⟩) ∧
    library.seen (library.holding shelf) "c" =
      .ok (some ⟨library.runs.child "c", noted "c" "search"⟩) ∧
    library.seen (library.holding shelf) "d" = .ok none ∧
    library.seen (library.holding shelf) "e" = .ok none := by
  have proper := shelf_proper
  have runs : shelf.isDirectory ["out", "runs"] = true := by decide
  refine ⟨seen_noted proper runs (letters_fit _ ?_) ?_ ?_ ?_ rfl,
    seen_noted proper runs (letters_fit _ ?_) ?_ ?_ ?_ rfl,
    seen_noted proper runs (letters_fit _ ?_) ?_ ?_ ?_ rfl, by decide +kernel, by decide +kernel⟩
  all_goals decide

theorem matching_shelf : library.matching ["out", "runs"] (.str "search") (library.holding shelf) =
    [⟨library.runs.child "c", noted "c" "search"⟩, ⟨library.runs.child "a", noted "a" "search"⟩] := by
  have order : ordered (library.holding shelf) ["out", "runs"] = ["e", "d", "c", "b", "a"] :=
    ordered_eq (by decide) (by decide)
  obtain ⟨a, b, c, d, e⟩ := seen_shelf
  simp [matching, order, match?_noted a, match?_noted b, match?_noted c, match?_of_seen d,
    match?_of_seen e]

/-- Of two runs of the type, one is kept; the run of the other type and the rest stay. -/
theorem cleanup_removes_elder :
    let s := library.holding shelf
    library.Found ["out", "runs"] s ∧ shelf.Proper ∧ library.Apart ["out", "runs"] s ∧
      ∃ files, (library.cleanup (1 : Nat) (.str "search") false).run.run s =
          (.ok [.str "a"], { s with files }) ∧
        files.get? ["out", "runs", "a"] = none ∧
        files.get? ["out", "runs", "b"] = some .directory ∧
        files.get? ["out", "runs", "c"] = some .directory := by
  intro s
  have found : library.Found ["out", "runs"] s := library_found shelf_proper (by decide)
  have apart : library.Apart ["out", "runs"] s := library_apart found
  have readable : ∀ name ∈ s.files.children ["out", "runs"], ∀ e, library.seen s name ≠ .error e := by
    have names : s.files.children ["out", "runs"] = ["d", "a", "b", "c", "e"] := by decide
    obtain ⟨a, b, c, d, e⟩ := seen_shelf
    rw [names]
    simp only [List.forall_mem_cons]
    exact ⟨by rw [d]; exact nofun, by rw [a]; exact nofun, by rw [b]; exact nofun,
      by rw [c]; exact nofun, by rw [e]; exact nofun, nofun⟩
  have listed := run_list_of_readable found (.str "search") cleanupLimit readable
  refine ⟨found, shelf_proper, apart, ?_⟩
  obtain ⟨-, -, files, removed, -, gone, kept, -⟩ :=
    (cleanup_removes found shelf_proper apart (.str "search") 1).of_run listed
  rw [matching_shelf] at removed gone kept
  have other (name : String) (different : name ≠ "a") :
      files.get? ["out", "runs", name] = shelf.get? ["out", "runs", name] := by
    refine kept _ fun r member below => different ?_
    obtain rfl := List.mem_singleton.mp member
    have same : ["a"] <+: [name] := (List.prefix_append_right_inj ["out", "runs"]).mp below
    exact (List.cons_prefix_cons.mp same).1.symm
  exact ⟨files, removed, gone _ (List.mem_singleton_self _) [], other "b" (by decide),
    other "c" (by decide)⟩

/-! ### Very many runs -/

/-- What has come of shelving a run in a directory of its own. -/
structure Shelved (name : String) (notes : RunMetadata) (t t' : FileTree) : Prop where
  proper : t'.Proper
  runs : t'.isDirectory ["out", "runs"] = true
  directory : t'.isDirectory ["out", "runs", name] = true
  stored : t'.get? ["out", "runs", name, "metadata.json"] = some (.file notes.toJson.indented)
  beside : ∀ other, other ≠ name → ∀ rest,
    t'.get? (["out", "runs", other] ++ rest) = t.get? (["out", "runs", other] ++ rest)

theorem shelved {t : FileTree} (proper : t.Proper) (runs : t.isDirectory ["out", "runs"] = true)
    (plain : Plain name) (flat : '/' ∉ name.toList)
    (new : t.contains ["out", "runs", name] = false) (notes : RunMetadata) :
    Shelved name notes t (shelve name notes t) := by
  let t₁ := t.put (["out", "runs"] ++ [name]) .directory
  have proper₁ : t₁.Proper := proper.put runs plain flat fun _ => rfl
  have directory : t₁.isDirectory ["out", "runs", name] = true :=
    FileTree.isDirectory_iff.mpr (FileTree.get?_put_self (List.cons_ne_nil _ _))
  have empty : t₁.get? ["out", "runs", name, "metadata.json"] = none := by
    rw [FileTree.get?_put_of_ne (by simp)]
    exact proper.rooted.nothing_below (FileTree.isDirectory_of_not_contains new)
      (List.cons_ne_nil "metadata.json" [])
  have free : t₁.isDirectory (["out", "runs", name] ++ ["metadata.json"]) = true →
      Entry.file notes.toJson.indented = .directory := fun there =>
    absurd (empty.symm.trans (FileTree.isDirectory_iff.mp there)) nofun
  have kept {p : TreePath} (there : t₁.isDirectory p = true) :
      (shelve name notes t).isDirectory p = true := (FileTree.keeps_put free).directory p there
  refine ⟨proper₁.put directory (by decide) (by decide) free, kept ?_, kept directory,
    FileTree.get?_put_self (List.cons_ne_nil _ _), fun other different rest => ?_⟩
  · exact (FileTree.keeps_put fun _ => rfl).directory _ runs
  · have apart (rest' : TreePath) : ["out", "runs", other] ++ rest ≠ ["out", "runs", name] ++ rest' := by
      simp [different]
    have apart' : ["out", "runs", other] ++ rest ≠ ["out", "runs"] ++ [name] := apart []
    rw [shelve, FileTree.get?_put_of_ne (apart ["metadata.json"]), FileTree.get?_put_of_ne apart']

/-- A directory with a run of each of some names, and nothing else in it. -/
def stocked (names : List String) : FileTree :=
  names.foldr (fun name => shelve name (noted "old" "search")) bare

/-- All runs that are stocked are there, and no others. -/
structure Stocked (names : List String) (t : FileTree) : Prop where
  proper : t.Proper
  runs : t.isDirectory ["out", "runs"] = true
  directory : ∀ name ∈ names, t.isDirectory ["out", "runs", name] = true
  stored : ∀ name ∈ names, t.get? ["out", "runs", name, "metadata.json"] =
    some (.file (noted "old" "search").toJson.indented)
  others : ∀ name, name ∉ names → t.contains ["out", "runs", name] = false

theorem stocked_spec (fit : ∀ name ∈ names, Fit name) (distinct : names.Nodup) :
    Stocked names (stocked names) := by
  induction names with
  | nil =>
      refine ⟨bare_proper, by decide, nofun, nofun, fun name _ => ?_⟩
      simp [stocked, bare, FileTree.contains, FileTree.get?, FileTree.find?]
  | cons name names ih =>
      obtain ⟨fit, fits⟩ := List.forall_mem_cons.mp fit
      obtain ⟨new, distinct⟩ := List.nodup_cons.mp distinct
      have before := ih fits distinct
      have after := shelved before.proper before.runs fit.plain fit.flat (before.others name new)
        (noted "old" "search")
      have kept (other : String) (member : other ∈ names) (rest : TreePath) :=
        after.beside other (fun same => new (same ▸ member)) rest
      refine ⟨after.proper, after.runs, List.forall_mem_cons.mpr ⟨after.directory, ?_⟩,
        List.forall_mem_cons.mpr ⟨after.stored, ?_⟩, fun other absent => ?_⟩
      · intro other member
        exact FileTree.isDirectory_iff.mpr ((kept other member []).trans
          (FileTree.isDirectory_iff.mp (before.directory other member)))
      · intro other member
        exact (kept other member ["metadata.json"]).trans (before.stored other member)
      · have different : other ≠ name := fun same => absent (same ▸ List.mem_cons_self)
        have absent' : other ∉ names := fun member => absent (List.mem_cons_of_mem name member)
        exact FileTree.not_contains_iff.mpr ((after.beside other different []).trans
          (FileTree.not_contains_iff.mp (before.others other absent')))

section
variable {t : FileTree} (stocked : Stocked names t)
include stocked

theorem Stocked.children (distinct : names.Nodup) : (t.children ["out", "runs"]).Perm names := by
  refine stocked.proper.children_perm distinct fun name => ⟨fun there => ?_, fun member =>
    FileTree.contains_of_isDirectory (stocked.directory name member)⟩
  by_contra absent
  exact Bool.false_ne_true ((stocked.others name absent).symm.trans there)

/-- After a cleanup that is to keep nothing, the runs beyond the ten thousandth are left. -/
theorem Stocked.cleaned (fit : ∀ name ∈ names, Fit name) (distinct : names.Nodup) :
    ∃ ids s' left, (library.cleanup (0 : Nat) .null false).run.run (library.holding t) = (.ok ids, s') ∧
      (library.list .null names.length).run.run s' = (.ok left, s') ∧
      left.length = names.length - 10000 := by
  have found := library_found stocked.proper stocked.runs
  have apart := library_apart found
  have perm := stocked.children distinct
  have seen : ∀ name ∈ t.children ["out", "runs"], library.seen (library.holding t) name =
      .ok (some ⟨library.runs.child name, noted "old" "search"⟩) := by
    intro name there
    have member := perm.subset there
    exact seen_noted stocked.proper stocked.runs (fit name member) (by decide) (by decide)
      (stocked.directory name member) (stocked.stored name member)
  have readable : ∀ name ∈ t.children ["out", "runs"], ∀ e,
      library.seen (library.holding t) name ≠ .error e := by
    intro name there e unread
    cases (seen name there).symm.trans unread
  have all : (library.matching ["out", "runs"] .null (library.holding t)).length = names.length := by
    rw [matching, List.filterMap_length_eq_length.mpr, ordered, List.length_mergeSort]
    · exact perm.length_eq
    · intro name listed
      rw [match?_of_seen (seen name (mem_ordered.mp listed))]
      rfl
  have listed := run_list_of_readable found .null cleanupLimit readable
  have removed := run_removeEach_old found stocked.proper apart .null 0
  refine ⟨_, _, _, run_cleanup listed removed false,
    run_list_cleaned found stocked.proper apart .null 0 perm.length_eq.le readable, ?_⟩
  have limit : cleanupLimit.toNat = 10000 := rfl
  rw [Nat.zero_min, List.take_zero, List.nil_append, List.length_drop, all, limit]

end

/-- Names for some runs. -/
def numbers (n : Nat) : List String := (List.range n).map Numeral.ofNat

theorem numbers_fit {n : Nat} (few : n ≤ 10 ^ 25) : ∀ name ∈ numbers n, Fit name := by
  intro name member
  obtain ⟨i, small, rfl⟩ := List.mem_map.mp member
  have digits : Digits (Numeral.ofNat i).toList := by
    rw [Numeral.ofNat, String.toList_ofList]
    exact Digits.ofNat i
  refine fit_of_tame (fun c inside => ⟨digits.tame c inside, ?_, ?_⟩) ?_ ?_
  · rintro rfl
    exact digits.not_mem (by decide) inside
  · rintro rfl
    exact digits.not_mem (by decide) inside
  · intro empty
    have none := congrArg String.toList empty
    rw [Numeral.ofNat, String.toList_ofList] at none
    exact Nat.toDigits_ne_nil none
  · rw [Numeral.ofNat, String.toList_ofList]
    refine (Nat.length_toDigits_le_iff (by decide) (by decide)).mpr ?_
    exact Nat.lt_of_lt_of_le (List.mem_range.mp small) few

theorem numbers_distinct (n : Nat) : (numbers n).Nodup :=
  List.Nodup.map (fun _ _ => ofNat_injective) List.nodup_range

/-! ### What a cleanup misses -/

/-- Two runs of a type, and the notes of a run of another type with nothing but the type in them. -/
def spoilt : FileTree :=
  shelve "c" (noted "c" "search") <| shelve "b" (noted "b" "search") <|
    (bare.put ["out", "runs", "a"] .directory).put ["out", "runs", "a", "metadata.json"]
      (.file (Json.obj [("run_type", .str "comparison")]).indented)

theorem spoilt_proper : spoilt.Proper :=
  ⟨FileTree.rooted_of_entries (by decide), by decide, by decide, by decide⟩

theorem seen_spoilt :
    library.seen (library.holding spoilt) "a" =
      .error (.metadata (.missing ["run_id", "description", "created_at"])) ∧
    library.seen (library.holding spoilt) "b" =
      .ok (some ⟨library.runs.child "b", noted "b" "search"⟩) ∧
    library.seen (library.holding spoilt) "c" =
      .ok (some ⟨library.runs.child "c", noted "c" "search"⟩) := by
  have proper := spoilt_proper
  have runs : spoilt.isDirectory ["out", "runs"] = true := by decide
  refine ⟨?_, seen_noted proper runs (letters_fit _ ?_) ?_ ?_ ?_ rfl,
    seen_noted proper runs (letters_fit _ ?_) ?_ ?_ ?_ rfl⟩
  case refine_1 =>
    have shown := seen_shelved (j := .obj [("run_type", .str "comparison")]) proper runs
      (letters_fit "a" (by decide)) (by decide) rfl (by simp [Json.Lettered, Json.LetteredFields])
    have same : respelt "run_type" = "run_type" := respelt_of_ascii (by decide)
    rw [shown, Json.respelt, Json.respeltFields, Json.respeltFields, same]
    rfl
  all_goals decide

/-- Notes that cannot be understood, though they are those of another type, keep two runs from being
removed; and of ten thousand and one runs, one is left. -/
theorem cleanup_not_exact :
    (library.matching ["out", "runs"] (.str "search") (library.holding spoilt) =
        [⟨library.runs.child "c", noted "c" "search"⟩, ⟨library.runs.child "b", noted "b" "search"⟩] ∧
      ∃ e, (library.cleanup 0 (.str "search") false).run.run (library.holding spoilt) =
        (.error e, library.holding spoilt)) ∧
    ∃ ids s' r, (library.cleanup 0 .null false).run.run (library.holding (stocked (numbers 10001))) =
        (.ok ids, s') ∧ (library.list .null 10001).run.run s' = (.ok [r], s') := by
  constructor
  · obtain ⟨a, b, c⟩ := seen_spoilt
    have found := library_found spoilt_proper (by decide)
    have order : ordered (library.holding spoilt) ["out", "runs"] = ["c", "b", "a"] :=
      ordered_eq (by decide) (by decide)
    have unread : library.match? (.str "search") (library.holding spoilt) "a" = none := by
      rw [match?, a]
      rfl
    have matched : library.matching ["out", "runs"] (.str "search") (library.holding spoilt) =
        [⟨library.runs.child "c", noted "c" "search"⟩,
          ⟨library.runs.child "b", noted "b" "search"⟩] := by
      simp [matching, order, unread, match?_noted b, match?_noted c]
    refine ⟨matched, ?_⟩
    cases list_concludes found (.str "search") cleanupLimit with
    | error run failure =>
        obtain ⟨rfl, -⟩ := failure
        exact ⟨_, run_cleanup_error run false⟩
    | ok run result =>
        -- Fewer runs are found than a cleanup looks for, so it would have read all notes.
        obtain ⟨-, first, readable⟩ := result
        rw [matched] at first
        exact absurd a (readable (by rw [first]; decide) "a" (by decide) _)
  · have fit := numbers_fit (n := 10001) (by decide)
    have distinct := numbers_distinct 10001
    obtain ⟨ids, s', left, removed, listed, length⟩ :=
      (stocked_spec fit distinct).cleaned fit distinct
    have many : (numbers 10001).length = 10001 := by rw [numbers, List.length_map, List.length_range]
    rw [many] at listed length
    obtain ⟨r, rfl⟩ := List.length_eq_one_iff.mp length
    exact ⟨ids, s', r, removed, listed⟩

end Archive

end PrimeSearch
