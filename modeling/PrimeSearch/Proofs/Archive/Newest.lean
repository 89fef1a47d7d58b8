/-
Module: PrimeSearch.Proofs.Archive.Newest
Purpose: In which order runs are listed that were made one after another, and which of them a cleanup
  leaves.
Main exports: Archive.Order, Archive.createEach, Archive.Filled, Filled.createEach, Filled.perm_matching,
  Filled.matching_eq_reverse_iff, Filled.cleaned, Archive.list_by_second
-/
import PrimeSearch.Proofs.Archive.Cleanup
import PrimeSearch.Proofs.Archive.Stamps
import PrimeSearch.Proofs.Archive.Tidiness

namespace PrimeSearch

/-!
Runs are listed by name, and a name begins with the second in which the run was made.  So runs of
different seconds are listed newest first.  Within a second the type, the label and the number of the
name decide, and those may come in any order.
-/

/-- A run as it is listed: the notes about it come from their file. -/
def SavedRun.reread (r : SavedRun) : SavedRun := { r with metadata := r.metadata.respelt }

namespace Archive

variable {a : Archive} {root : TreePath} {s t u : Site}

/-! ### Runs one after another -/

/-- What is wanted of a run, and when. -/
structure Order where
  time : DateTime
  runType : String
  description : String
  config : Json := .null
  tags : List String := []

/-- Make a run at its time. -/
def createAt (a : Archive) (o : Order) : Filing SavedRun := do
  modify fun s => { s with clock := ⟨o.time, none⟩ }
  a.create (.str o.runType) o.description o.config (.arr (o.tags.map .str))

/-- Make some runs, one after another. -/
def createEach (a : Archive) : List Order → Filing (List SavedRun)
  | [] => return []
  | o :: rest => do
      let r ← a.createAt o
      let others ← a.createEach rest
      return r :: others

/-- A run that is as it was wanted. -/
structure Order.MetBy (o : Order) (r : SavedRun) : Prop where
  named : ∃ n, r.directory.name = variant (runName o.time o.runType o.description) n
  noted : r.metadata = newNotes o.time o.runType o.description (.arr (o.tags.map .str)) r.directory.name

/-- A directory of runs where some runs were made as they were wanted, and nothing else lies. -/
structure Filled (a : Archive) (root : TreePath) (s : Site) (rows : List (Order × SavedRun))
    (t : Site) : Prop where
  orderly : Desk.Orderly a root ⟨t, rows.map Prod.snd⟩
  tidy : t.Tidy
  worked : Site.WorkedIn root s t
  only : ∀ name, t.files.contains (root ++ [name]) = true →
    name ∈ rows.map fun row => row.2.directory.name
  met : ∀ row ∈ rows, row.1.MetBy row.2

variable {rows : List (Order × SavedRun)} {o : Order}

/-- One more run is made. -/
theorem Filled.createAt (filled : Filled a root s rows t) (based : a.base.Flat)
    (flat : '/' ∉ o.runType.toList) :
    Concludes (a.createAt o) t (fun r u => Filled a root s (rows ++ [(o, r)]) u) fun _ _ => True := by
  let begun : Site := { t with clock := ⟨o.time, none⟩ }
  have orderly : Desk.Orderly a root ⟨begun, rows.map Prod.snd⟩ := filled.orderly.elapse _
  have tidy : begun.Tidy := ⟨filled.tidy.proper, filled.tidy.here⟩
  unfold Archive.createAt
  refine .ok_bind (t := begun) rfl ?_
  by_cases written : Writable (runName o.time o.runType o.description)
  case neg =>
    obtain ⟨fault, path, failed, -⟩ := create_unwritable_of_type (s := begun) flat written a o.config
      (.arr (o.tags.map .str))
    exact .error failed trivial
  have created := create_concludes_of_type orderly.stands flat written o.config (.arr (o.tags.map .str))
  have tidied := Concludes.of_state
    (create_tidy based (.str o.runType) o.description o.config (.arr (o.tags.map .str)) begun tidy)
  refine (created.and tidied).mono ?_ fun _ _ _ => trivial
  rintro r u ⟨⟨made, noted⟩, tidy⟩
  have worked : Site.WorkedIn root t u :=
    (Site.WorkedIn.elapse root t _).trans (made.worked.around (List.prefix_append root _))
  obtain ⟨n, -, named, -⟩ := made.first
  constructor
  · rw [List.map_append]
    exact orderly.made made
  · exact tidy
  · exact filled.worked.trans worked
  · intro name there
    rw [List.map_append, List.mem_append]
    by_cases new : name = r.directory.name
    · exact .inr (List.mem_singleton.mpr new)
    · refine .inl (filled.only name ?_)
      have outside : ¬r.place root <+: root ++ [name] := by
        intro below
        rw [SavedRun.place, List.prefix_append_right_inj] at below
        exact new (List.singleton_prefix_cons_iff.mp below).symm
      rw [FileTree.contains, made.worked.elsewhere _ outside] at there
      exact there
  · exact List.forall_mem_append.mpr ⟨filled.met, List.forall_mem_singleton.mpr ⟨⟨n, named⟩, noted⟩⟩

theorem Filled.createEach (filled : Filled a root s rows t) (based : a.base.Flat) {orders : List Order}
    (flat : ∀ o ∈ orders, '/' ∉ o.runType.toList) :
    Concludes (a.createEach orders) t
      (fun made u => made.length = orders.length ∧ Filled a root s (rows ++ orders.zip made) u)
      fun _ _ => True := by
  induction orders generalizing rows t with
  | nil => exact .pure ⟨rfl, by rw [List.zip_nil_left, List.append_nil]; exact filled⟩
  | cons o orders ih =>
      obtain ⟨first, others⟩ := List.forall_mem_cons.mp flat
      unfold Archive.createEach
      refine (filled.createAt based first).bind fun r u filled => ?_
      refine (ih filled others).bind fun made v ⟨length, filled⟩ => .pure ⟨congrArg Nat.succ length, ?_⟩
      rw [List.zip_cons_cons, List.append_cons]
      exact filled

/-- An empty directory of runs. -/
theorem Filled.empty (stands : a.Stands root s) (tidy : s.Tidy)
    (empty : s.files.children root = []) : Filled a root s [] s where
  orderly := ⟨stands, fun _ member => absurd member List.not_mem_nil, List.nodup_nil⟩
  tidy := tidy
  worked := .refl root s
  only name there := by
    rw [← FileTree.mem_children_iff, empty] at there
    exact absurd there List.not_mem_nil
  met _ member := absurd member List.not_mem_nil

/-! ### What is listed -/

theorem newNotes_lettered (time : DateTime) (runType description : String) (tags : List String)
    (name : String) :
    (newNotes time runType description (.arr (tags.map .str)) name).toJson.Lettered := by
  have strings : Json.LetteredItems (tags.map .str) := by
    induction tags with
    | nil => trivial
    | cons tag tags ih => exact ⟨trivial, ih⟩
  have chosen : (newNotes time runType description (.arr (tags.map .str)) name).tags.Lettered := by
    unfold newNotes
    dsimp only
    split
    next => exact strings
    next => trivial
  exact ⟨trivial, trivial, trivial, trivial, trivial, trivial, trivial, chosen, trivial⟩

/-- A run is seen with the notes that are read from their file. -/
theorem seen_of_kept {r : SavedRun} (kept : r.Kept a root s) (lettered : r.metadata.toJson.Lettered) :
    a.seen s r.directory.name = .ok (some r.reread) := by
  have located : a.runs.child r.directory.name = r.directory := kept.located.symm
  have there : s.find r.directory = .ok (r.place root) :=
    kept.leads.find (Location.faultless_of_child kept.directory_ne_nil kept.faultless)
  rw [seen_of_json kept.plain kept.flat (located.symm ▸ there) kept.directory
    (located.symm ▸ kept.find_notes) kept.stored lettered, RunMetadata.ofJson_respelt, located]
  rfl

namespace Filled

variable (filled : Filled a root s rows t)
include filled

theorem found : a.Found root t := filled.orderly.stands.toFound

theorem seen {row : Order × SavedRun} (member : row ∈ rows) :
    a.seen t row.2.directory.name = .ok (some row.2.reread) := by
  refine seen_of_kept (filled.orderly.kept _ (List.mem_map_of_mem member)) ?_
  rw [(filled.met row member).noted]
  exact newNotes_lettered _ _ _ _ _

/-- The names in the directory of runs are those of the runs that were made. -/
theorem perm_children :
    (t.files.children root).Perm (rows.map fun row => row.2.directory.name) := by
  have distinct : (rows.map fun row => row.2.directory.name).Nodup := by
    have distinct := filled.orderly.distinct
    rwa [List.map_map] at distinct
  refine filled.tidy.proper.children_perm distinct fun name => ⟨filled.only name, fun member => ?_⟩
  obtain ⟨row, made, rfl⟩ := List.mem_map.mp member
  exact FileTree.contains_of_isDirectory (filled.orderly.kept _ (List.mem_map_of_mem made)).directory

theorem readable : ∀ name ∈ t.files.children root, ∀ e, a.seen t name ≠ .error e := by
  intro name there e unread
  obtain ⟨row, made, rfl⟩ := List.mem_map.mp (filled.perm_children.subset there)
  cases (filled.seen made).symm.trans unread

/-- All runs that were made are listed, and no others. -/
theorem perm_matching : (a.matching root .null t).Perm (rows.map fun row => row.2.reread) := by
  have order : (ordered t root).Perm (rows.map fun row => row.2.directory.name) :=
    (List.mergeSort_perm _ _).trans filled.perm_children
  have each : (rows.map fun row => row.2.directory.name).filterMap (a.match? .null t) =
      rows.map fun row => row.2.reread := by
    rw [List.filterMap_map, ← List.filterMap_eq_map]
    refine List.filterMap_congr fun row made => ?_
    rw [Function.comp_apply, match?_of_seen (filled.seen made)]
    rfl
  exact each ▸ order.filterMap (a.match? .null t)

theorem length_matching : (a.matching root .null t).length = rows.length := by
  rw [filled.perm_matching.length_eq, List.length_map]

/-- Runs of different seconds have names in the order of the seconds. -/
theorem names_lt {x y : Order × SavedRun} (first : x ∈ rows) (second : y ∈ rows) (fits : x.1.time.Fits)
    (fits' : y.1.time.Fits) (before : x.1.time.Before y.1.time) :
    x.2.directory.name < y.2.directory.name := by
  obtain ⟨j, named⟩ := (filled.met x first).named
  obtain ⟨k, named'⟩ := (filled.met y second).named
  rw [named, named']
  exact variant_runName_lt fits fits' before _ _ _ _ j k

/-- There is only one way to list the runs with the greater name first. -/
theorem matching_eq {runs : List SavedRun} (perm : runs.Perm (rows.map fun row => row.2.reread))
    (down : runs.Pairwise fun r r' => r'.directory.name < r.directory.name) :
    a.matching root .null t = runs := by
  refine List.Perm.eq_of_pairwise (fun r r' _ _ below above => absurd above (String.lt_asymm below))
    ?_ down (filled.perm_matching.trans perm.symm)
  exact descending_matching filled.found filled.tidy.proper .null

/-- The runs are listed in the reverse of the order in which they were made just if those of one second
have names in the order in which they were made. -/
theorem matching_eq_reverse_iff (fits : ∀ row ∈ rows, row.1.time.Fits)
    (onward : rows.Pairwise fun x y => x.1.time = y.1.time ∨ x.1.time.Before y.1.time) :
    a.matching root .null t = (rows.map fun row => row.2.reread).reverse ↔
      rows.Pairwise fun x y => x.1.time = y.1.time → x.2.directory.name < y.2.directory.name := by
  constructor
  · intro same
    have down := descending_matching filled.found filled.tidy.proper .null
    rw [same, List.pairwise_reverse, List.pairwise_map] at down
    exact down.imp fun {x y} (below : x.2.directory.name < y.2.directory.name) _ => below
  · intro within
    have up : (rows.map fun row => row.2.reread).Pairwise fun r r' =>
        r.directory.name < r'.directory.name := by
      rw [List.pairwise_map]
      refine (onward.and within).imp_of_mem ?_
      rintro x y first second ⟨same | before, within⟩
      · exact within same
      · exact filled.names_lt first second (fits x first) (fits y second) before
    exact filled.matching_eq (List.reverse_perm _) (List.pairwise_reverse.mpr up)

/-- A cleanup leaves the first runs of the listing. -/
theorem cleaned (apart : a.Apart root t) (few : rows.length ≤ 10000) (keep : Nat) :
    ∃ u, (a.cleanup keep .null false).run.run t =
        (.ok (((a.matching root .null t).drop keep).map (·.metadata.runId)), u) ∧
      (a.list .null rows.length).run.run u = (.ok ((a.matching root .null t).take keep), u) := by
  have proper := filled.tidy.proper
  have all := filled.length_matching
  have limit : cleanupLimit.toNat = 10000 := rfl
  have whole : (a.matching root .null t).take cleanupLimit.toNat = a.matching root .null t :=
    List.take_of_length_le (by omega)
  have none : (a.matching root .null t).drop cleanupLimit.toNat = [] :=
    List.drop_eq_nil_of_le (by omega)
  have listed := run_list_of_readable filled.found .null cleanupLimit filled.readable
  have removed := run_removeEach_old filled.found proper apart .null keep
  rw [whole] at listed
  rw [old, whole] at removed
  have enough : (t.files.children root).length ≤ rows.length := by
    rw [filled.perm_children.length_eq, List.length_map]
  have left := run_list_cleaned filled.found proper apart .null keep enough filled.readable
  rw [old, ← List.take_take, whole, none, List.append_nil] at left
  exact ⟨_, run_cleanup listed removed false, left⟩

end Filled

/-- Of a descending list, whatever is above a member at the front is at the front itself. -/
theorem mem_take_of_lt {runs : List SavedRun}
    (down : runs.Pairwise fun r r' => r'.directory.name < r.directory.name) {keep : Nat}
    {r r' : SavedRun} (kept : r ∈ runs.take keep) (there : r' ∈ runs)
    (above : r.directory.name < r'.directory.name) : r' ∈ runs.take keep := by
  rw [← List.take_append_drop keep runs] at down there
  rcases List.mem_append.mp there with front | back
  · exact front
  · exact absurd above (String.lt_asymm ((List.pairwise_append.mp down).2.2 r kept r' back))

/-- Runs that are made in an empty directory of runs fill it, and the way there does not pass below any of
them. -/
theorem filled_of_created {base : Json} {s₀ : Site} {orders : List Order} {made : List SavedRun}
    (tidy : s₀.Tidy) (opened : (openFor base).run.run s₀ = (.ok a, s))
    (empty : (Filing.children a.runs).run.run s = (.ok [], s))
    (flat : ∀ o ∈ orders, '/' ∉ o.runType.toList)
    (created : (a.createEach orders).run.run s = (.ok made, t)) :
    made.length = orders.length ∧
      ∃ root, Filled a root s (orders.zip made) t ∧ a.Apart root t := by
  obtain ⟨based, tidy, root, stands⟩ := openFor_tidy tidy opened
  have found := stands.toFound
  have none : s.files.children root = [] :=
    Except.ok.inj (Prod.mk.inj (found.run_children.symm.trans empty)).1
  obtain ⟨length, filled⟩ := ((Filled.empty stands tidy none).createEach based flat).of_run created
  rw [List.nil_append] at filled
  have apart := apart_of_empty found tidy.proper.rooted none
  exact ⟨length, root, filled, apart.worked found filled.worked⟩

/-- Runs that are made in an empty directory of runs, under a clock that does not go back, are all listed,
the greater name first.  So those of different seconds are listed newest first, and a cleanup never
removes one that was made in a later second than one it leaves.  Within a second the type, the label and
the number in the name decide: the listing is the reverse of the order of making just if each name is
greater than those made before it in the same second. -/
theorem list_by_second {base : Json} {s₀ : Site} {orders : List Order} {made : List SavedRun}
    (tidy : s₀.Tidy) (opened : (openFor base).run.run s₀ = (.ok a, s))
    (empty : (Filing.children a.runs).run.run s = (.ok [], s))
    (flat : ∀ o ∈ orders, '/' ∉ o.runType.toList) (fits : ∀ o ∈ orders, o.time.Fits)
    (onward : orders.Pairwise fun o o' => o.time = o'.time ∨ o.time.Before o'.time)
    (created : (a.createEach orders).run.run s = (.ok made, t)) :
    made.length = orders.length ∧
    (∀ x ∈ orders.zip made, ∃ n,
      x.2.directory.name = variant (runName x.1.time x.1.runType x.1.description) n) ∧
    ∃ listed : List SavedRun,
      (∀ limit : Int, made.length ≤ limit → (a.list .null limit).run.run t = (.ok listed, t)) ∧
      listed.Perm (made.map SavedRun.reread) ∧
      (listed.Pairwise fun r r' => r'.directory.name < r.directory.name) ∧
      (∀ x ∈ orders.zip made, ∀ y ∈ orders.zip made, x.1.time.Before y.1.time →
        x.2.directory.name < y.2.directory.name) ∧
      (listed = (made.map SavedRun.reread).reverse ↔ (orders.zip made).Pairwise fun x y =>
        x.1.time = y.1.time → x.2.directory.name < y.2.directory.name) ∧
      (made.length ≤ 10000 → ∀ keep : Nat, ∃ u,
        (a.cleanup keep .null false).run.run t =
          (.ok ((listed.drop keep).map (·.metadata.runId)), u) ∧
        (a.list .null made.length).run.run u = (.ok (listed.take keep), u) ∧
        ∀ x ∈ orders.zip made, ∀ y ∈ orders.zip made, x.1.time.Before y.1.time →
          x.2.reread ∈ listed.take keep → y.2.reread ∈ listed.take keep) := by
  obtain ⟨length, root, filled, apart⟩ := filled_of_created tidy opened empty flat created
  have orders_eq : (orders.zip made).map Prod.fst = orders := List.map_fst_zip length.ge
  have made_eq : (orders.zip made).map (fun row => row.2.reread) = made.map SavedRun.reread := by
    have runs : (orders.zip made).map Prod.snd = made := List.map_snd_zip length.le
    rw [← congrArg (List.map SavedRun.reread) runs, List.map_map]
    rfl
  have rows_length : (orders.zip made).length = made.length := by
    rw [List.length_zip, length, Nat.min_self]
  have fits_rows : ∀ row ∈ orders.zip made, row.1.time.Fits := fun row member =>
    fits row.1 (orders_eq ▸ List.mem_map_of_mem member)
  have onward_rows : (orders.zip made).Pairwise fun x y =>
      x.1.time = y.1.time ∨ x.1.time.Before y.1.time := by
    rwa [← orders_eq, List.pairwise_map] at onward
  have perm := filled.perm_matching
  have down := descending_matching filled.found filled.tidy.proper .null
  have names : ∀ x ∈ orders.zip made, ∀ y ∈ orders.zip made, x.1.time.Before y.1.time →
      x.2.directory.name < y.2.directory.name := fun x first y second before =>
    filled.names_lt first second (fits_rows x first) (fits_rows y second) before
  have reversed := filled.matching_eq_reverse_iff fits_rows onward_rows
  rw [made_eq] at reversed
  refine ⟨length, fun row member => (filled.met row member).named, a.matching root .null t, ?_,
    made_eq ▸ perm, down, names, reversed, ?_⟩
  · intro limit enough
    have whole := run_list_of_readable filled.found .null limit filled.readable
    have all := filled.length_matching
    rwa [List.take_of_length_le (by omega)] at whole
  · intro few keep
    obtain ⟨u, cleaned, left⟩ := filled.cleaned apart (rows_length.trans_le few) keep
    rw [rows_length] at left
    refine ⟨u, cleaned, left, fun x first y second before kept => ?_⟩
    have there : y.2.reread ∈ a.matching root .null t :=
      perm.symm.subset (List.mem_map_of_mem second)
    exact mem_take_of_lt down kept there (names x first y second before)

/-! ### A busy second -/

/-- Two runs of one second, the greater name first, and one of the next second. -/
def busy : List Order :=
  [{ time := ⟨2024, 1, 2, 3, 4, 5⟩, runType := "search", description := "b" },
    { time := ⟨2024, 1, 2, 3, 4, 5⟩, runType := "search", description := "a" },
    { time := ⟨2024, 1, 2, 3, 4, 6⟩, runType := "comparison", description := "c" }]

/-- The run that is made of an order if its name is free. -/
def filed (o : Order) : SavedRun :=
  let name := runName o.time o.runType o.description
  ⟨library.runs.child name, newNotes o.time o.runType o.description (.arr (o.tags.map .str)) name⟩

theorem bare_tidy : (library.holding bare).Tidy := ⟨bare_proper, rfl⟩

theorem bare_opened :
    (openFor (.str "out")).run.run (library.holding bare) = (.ok library, library.holding bare) := by
  have place : Location.ofText "out" = library.base := by decide
  have found := library_found bare_proper (by decide)
  show (Archive.open (some (.ofText "out"))).run.run _ = _
  rw [place]
  exact run_open_there found.find found.directory

theorem bare_empty :
    (Filing.children library.runs).run.run (library.holding bare) = (.ok [], library.holding bare) :=
  (library_found bare_proper (by decide)).run_children

theorem createEach_busy : ((library.createEach busy).run.run (library.holding bare)).1 =
    .ok (busy.map filed) := by
  decide +kernel

theorem list_by_second_busy :
    (library.holding bare).Tidy ∧
    (openFor (.str "out")).run.run (library.holding bare) = (.ok library, library.holding bare) ∧
    (Filing.children library.runs).run.run (library.holding bare) = (.ok [], library.holding bare) ∧
    (∀ o ∈ busy, '/' ∉ o.runType.toList) ∧ (∀ o ∈ busy, o.time.Fits) ∧
    (busy.Pairwise fun o o' => o.time = o'.time ∨ o.time.Before o'.time) ∧
    ∃ t, (library.createEach busy).run.run (library.holding bare) = (.ok (busy.map filed), t) ∧
      ∃ listed, (library.list .null 20).run.run t = (.ok listed, t) ∧
        listed.map (·.directory.name) = ["20240102_030406_comparison_c", "20240102_030405_search_b",
          "20240102_030405_search_a"] := by
  have flat : ∀ o ∈ busy, '/' ∉ o.runType.toList := by decide
  have fits : ∀ o ∈ busy, o.time.Fits := by decide
  have onward : busy.Pairwise fun o o' => o.time = o'.time ∨ o.time.Before o'.time := by decide
  refine ⟨bare_tidy, bare_opened, bare_empty, flat, fits, onward, _, Prod.ext createEach_busy rfl, ?_⟩
  obtain ⟨-, -, listed, shown, perm, down, -⟩ := list_by_second bare_tidy bare_opened bare_empty flat fits
    onward (Prod.ext createEach_busy rfl)
  have sorted : (listed.map (·.directory.name)).Pairwise fun x y => y < x :=
    List.pairwise_map.mpr down
  refine ⟨listed, shown 20 (by decide), ?_⟩
  refine List.Perm.eq_of_pairwise (fun x y _ _ below above => absurd above (String.lt_asymm below))
    sorted (by decide) ((perm.map _).trans ?_)
  decide

/-- The newer of two runs of one second is listed last, and a cleanup that leaves one run removes it. -/
theorem list_not_newest_first :
    ∃ t, (library.createEach (busy.take 2)).run.run (library.holding bare) =
        (.ok ((busy.take 2).map filed), t) ∧
      ((busy.take 2).map filed).map (·.directory.name) =
        ["20240102_030405_search_b", "20240102_030405_search_a"] ∧
      ∃ listed, (library.list .null 20).run.run t = (.ok listed, t) ∧
        listed.map (·.directory.name) =
          ["20240102_030405_search_b", "20240102_030405_search_a"] ∧
        ∃ u, (library.cleanup 1 .null false).run.run t = (.ok [.str "20240102_030405_search_a"], u) := by
  have run : (library.createEach (busy.take 2)).run.run (library.holding bare) =
      (.ok ((busy.take 2).map filed), _) :=
    Prod.ext (by decide +kernel) rfl
  have found := library_found bare_proper (by decide)
  have stands : library.Stands ["out", "runs"] (library.holding bare) :=
    ⟨bare_tidy.sound, found.find, found.directory⟩
  have none : (library.holding bare).files.children ["out", "runs"] = [] := by decide
  have based : library.base.Flat := List.forall_mem_singleton.mpr (by decide)
  obtain ⟨-, filled⟩ := ((Filled.empty stands bare_tidy none).createEach based (by decide)).of_run run
  have apart := (library_apart found).worked found filled.worked
  have listed : library.matching ["out", "runs"] .null _ = ((busy.take 2).map filed).map SavedRun.reread :=
    filled.matching_eq (.refl _) (by decide)
  have whole := run_list_of_readable filled.found .null 20 filled.readable
  obtain ⟨u, cleaned, -⟩ := filled.cleaned apart (by decide) 1
  rw [listed] at whole cleaned
  have name : runName ⟨2024, 1, 2, 3, 4, 5⟩ "search" "a" = "20240102_030405_search_a" := by decide
  have ascii : respelt "20240102_030405_search_a" = "20240102_030405_search_a" :=
    respelt_of_ascii (by decide)
  refine ⟨_, run, by decide, _, whole, by decide, u, cleaned.trans ?_⟩
  show (Except.ok [Json.str (respelt (runName ⟨2024, 1, 2, 3, 4, 5⟩ "search" "a"))], u) = _
  rw [name, ascii]

end Archive

end PrimeSearch
