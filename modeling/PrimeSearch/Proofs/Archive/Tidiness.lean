/-
Module: PrimeSearch.Proofs.Archive.Tidiness
Purpose: Making runs leaves a file tree as one is found on a disk.
Main exports: Location.Flat, Site.Tidy, Filing.KeepsTidy, Archive.openFor_tidy, Archive.create_tidy
-/
import PrimeSearch.Archive.Request
import PrimeSearch.Proofs.Archive.Listing

namespace PrimeSearch

open FileTree (ProperName)

/-!
A path that was written down is cut at its slashes, so none of its parts has one in it, and the steps
along it go down under proper names only.  Whatever is put into the tree is put where such a path
leads.
-/

/-! ### Paths without slashes in their parts -/

namespace Location

variable {l : Location} {name : String}

/-- A path none of whose parts has a slash in it. -/
def Flat (l : Location) : Prop := ∀ part ∈ l.parts, '/' ∉ part.toList

theorem flat_ofText (text : String) : (ofText text).Flat := by
  intro part member
  obtain ⟨cs, cut, rfl⟩ := List.mem_map.mp (List.mem_of_mem_filter member)
  rw [String.toList_ofList]
  exact not_mem_of_mem_splitAtChar text.toList cs cut

theorem Flat.join (flat : l.Flat) (text : String) : (l.join text).Flat := by
  unfold Location.join
  dsimp only
  split
  next => exact flat_ofText text
  next => exact List.forall_mem_append.mpr ⟨flat, flat_ofText text⟩

theorem Flat.child (flat : l.Flat) (name_flat : '/' ∉ name.toList) : (l.child name).Flat :=
  List.forall_mem_append.mpr ⟨flat, List.forall_mem_singleton.mpr name_flat⟩

theorem Flat.parent (flat : l.Flat) : l.parent.Flat :=
  fun part member => flat part (List.dropLast_subset l.parts member)

end Location

theorem TreePath.prefix_of_mem_leading {p q : TreePath} (member : p ∈ q.leading) : p <+: q := by
  induction q generalizing p with
  | nil => exact List.mem_singleton.mp member ▸ List.prefix_refl []
  | cons name q ih =>
      rcases List.mem_cons.mp member with rfl | later
      · exact List.nil_prefix
      · obtain ⟨r, leads, rfl⟩ := List.mem_map.mp later
        exact List.cons_prefix_cons.mpr ⟨rfl, ih leads⟩

/-! ### Tidy sites -/

/-- A site with a proper tree and a working directory in it. -/
structure Site.Tidy (s : Site) : Prop where
  proper : s.files.Proper
  here : s.files.isDirectory s.here = true

namespace Site.Tidy

variable {s : Site} {l : Location} {p : TreePath} {e : Entry}

theorem sound (tidy : s.Tidy) : s.Sound := ⟨tidy.proper.rooted, tidy.here⟩

/-- Something is put where a path leads. -/
theorem put (tidy : s.Tidy) (flat : l.Flat) (found : s.find l = .ok p)
    (kind : s.files.isDirectory p = true → e = .directory) :
    Tidy { s with files := s.files.put p e } := by
  have walked : s.files.walk (s.start l) l.parts = .ok p := (Site.find_eq_ok_iff.mp found).2
  have begun := tidy.sound.start l
  have around : s.files.isDirectory p.dropLast = true := by
    cases there : s.files.contains p with
    | true => exact tidy.proper.rooted p there
    | false => exact tidy.proper.rooted.directory_around begun walked there
  have names : ∀ name ∈ p, ProperName name :=
    FileTree.names_of_walk flat (tidy.proper.names (FileTree.contains_of_isDirectory begun)) walked
  exact ⟨tidy.proper.put_at around names kind, (FileTree.keeps_put kind).directory _ tidy.here⟩

/-- The usual directory is that of a project around the working directory, or in it. -/
theorem flat_defaultBase (tidy : s.Tidy) : (defaultBase s).Flat := by
  unfold defaultBase
  dsimp only
  split
  next p found =>
    have leading := List.mem_of_mem_filter (List.mem_of_find?_eq_some found)
    have before := TreePath.prefix_of_mem_leading (List.mem_reverse.mp leading)
    have names := tidy.proper.names (FileTree.contains_of_isDirectory tidy.here)
    refine List.forall_mem_append.mpr ⟨fun part member => (names part (before.subset member)).2, ?_⟩
    exact List.forall_mem_singleton.mpr (by decide)
  next => exact List.forall_mem_singleton.mpr (by decide)

end Site.Tidy

/-! ### Work that keeps a site tidy -/

namespace Filing

variable {α β : Type} {m : Filing α} {f : α → Filing β} {l : Location}

/-- A computation that leaves a tidy site tidy, however it ends. -/
def KeepsTidy (m : Filing α) : Prop := ∀ s : Site, s.Tidy → (m.run.run s).2.Tidy

namespace KeepsTidy

theorem of_reads (reads : Reads m) : KeepsTidy m := fun s tidy => (reads s).symm ▸ tidy

theorem run (keeps : KeepsTidy m) {s t : Site} {outcome : Except ArchiveError α} (tidy : s.Tidy)
    (ended : m.run.run s = (outcome, t)) : t.Tidy := by
  have kept := keeps s tidy
  rw [ended] at kept
  exact kept

theorem bind_outcome (first : KeepsTidy m)
    (rest : ∀ s a t, s.Tidy → m.run.run s = (.ok a, t) → KeepsTidy (f a)) :
    KeepsTidy (m >>= f) := by
  intro s tidy
  cases ended : m.run.run s with
  | mk outcome t =>
      have kept := first.run tidy ended
      cases outcome with
      | ok a =>
          rw [run_bind_ok ended]
          exact rest s a t tidy ended t kept
      | error e =>
          rw [run_bind_error ended]
          exact kept

theorem bind (first : KeepsTidy m) (rest : ∀ a, KeepsTidy (f a)) : KeepsTidy (m >>= f) :=
  first.bind_outcome fun _ a _ _ _ => rest a

theorem get_bind {f : Site → Filing α} (rest : ∀ s : Site, s.Tidy → KeepsTidy (f s)) :
    KeepsTidy (MonadState.get >>= f) := fun s tidy => rest s tidy s tidy

theorem ite {c : Prop} [Decidable c] {m' : Filing α} (yes : KeepsTidy m) (no : KeepsTidy m') :
    KeepsTidy (if c then m else m') := by
  split
  next => exact yes
  next => exact no

theorem now : KeepsTidy now := fun _ tidy => ⟨tidy.proper, tidy.here⟩

theorem writeText (flat : l.Flat) (text : String) : KeepsTidy (writeText l text) := by
  intro s tidy
  cases found : s.find l with
  | error fault =>
      rw [run_writeText_error found]
      exact tidy
  | ok p =>
      cases directory : s.files.isDirectory p with
      | false =>
          rw [run_writeText found directory]
          exact tidy.put flat found fun there => absurd (directory.symm.trans there) Bool.false_ne_true
      | true =>
          have refused : (named l (s.files.write p text)).run.run s =
              (.error (.file .isDirectory (s.pathText l)), s) := by
            rw [FileTree.write, directory]
            rfl
          unfold Filing.writeText
          rw [run_bind_ok (run_find_ok found)]
          show ((named l (s.files.write p text) >>= fun files =>
            modify fun s => { s with files }).run.run s).2.Tidy
          rw [run_bind_error refused]
          exact tidy

theorem makeOne (flat : l.Flat) : KeepsTidy (makeOne l) := by
  intro s tidy
  cases found : s.find l with
  | error fault =>
      by_cases missing : fault = .missing
      · rw [run_makeOne_missing (missing ▸ found)]
        exact tidy
      · rw [run_makeOne_error found missing]
        exact tidy
  | ok p =>
      cases there : s.files.contains p with
      | false =>
          rw [run_makeOne_new found there]
          exact tidy.put flat found fun _ => rfl
      | true =>
          rw [run_makeOne_there found there]
          exact tidy

theorem makeWithin (flat : l.Flat) (depth : Nat) : KeepsTidy (makeWithin depth l) := by
  have alone {l : Location} (flat : l.Flat) : KeepsTidy (Filing.makeWithin 0 l) := by
    unfold Filing.makeWithin
    refine (makeOne flat).bind fun made => .ite (.of_reads (.pure ())) (.of_reads (.named l _))
  induction depth generalizing l with
  | zero => exact alone flat
  | succ depth ih =>
      unfold Filing.makeWithin
      refine (makeOne flat).bind fun made => .ite (.of_reads (.pure ())) ?_
      exact (ih flat.parent).bind fun _ => alone flat

theorem makeDirectory (flat : l.Flat) : KeepsTidy (makeDirectory l) := makeWithin flat _

end KeepsTidy

end Filing

namespace Archive

variable {a : Archive}

theorem flat_runs (flat : a.base.Flat) : a.runs.Flat := flat.child (by decide)

theorem open_tidy (base : Option Location) {s t : Site} (tidy : s.Tidy)
    (flat : (base.getD (defaultBase s)).Flat) (opened : (Archive.open base).run.run s = (.ok a, t)) :
    a.base.Flat ∧ t.Tidy ∧ ∃ root, a.Stands root t := by
  have made : Filing.KeepsTidy (Filing.makeDirectory (runs ⟨base.getD (defaultBase s)⟩)) :=
    .makeDirectory (flat_runs flat)
  have concludes : Concludes (Archive.open base) s (fun a t => a.base.Flat ∧ t.Tidy)
      fun _ _ => True := by
    unfold Archive.open
    refine Concludes.get_bind (.bind (R := fun _ t => t.Tidy) ?_ fun _ t tidy => .pure ⟨flat, tidy⟩)
    exact (Concludes.of_state (made s tidy)).mono (fun _ _ => id) fun _ _ _ => trivial
  obtain ⟨based, tidy'⟩ := concludes.of_run opened
  exact ⟨based, tidy', open_stands tidy.sound opened⟩

/-- Whatever an archive is opened at, the site stays tidy and the archive stands there. -/
theorem openFor_tidy {base : Json} {s t : Site} (tidy : s.Tidy)
    (opened : (openFor base).run.run s = (.ok a, t)) :
    a.base.Flat ∧ t.Tidy ∧ ∃ root, a.Stands root t := by
  cases base with
  | null => exact open_tidy none tidy tidy.flat_defaultBase opened
  | str text => exact open_tidy (some (.ofText text)) tidy (Location.flat_ofText text) opened
  | bool | int | real | arr | obj => cases opened

/-! ### Making a run -/

section
variable {name : String} {s t : Site} {l : Location}

theorem reads_freeName (a : Archive) (name : String) (tries k : Nat) :
    Filing.Reads (a.freeName name tries k) := by
  induction tries generalizing k with
  | zero => exact .pure _
  | succ tries ih => exact .bind (.contains _) fun there => .ite (ih (k + 1)) (.pure _)

theorem flat_freeName (flat : a.base.Flat) (name : String) (tries k : Nat) (s : Site) :
    Concludes (a.freeName name tries k) s (fun l _ => l.Flat) fun _ _ => True := by
  have joined (k : Nat) : (a.runs.join (variant name k)).Flat := (flat_runs flat).join _
  induction tries generalizing k s with
  | zero => exact .pure (joined k)
  | succ tries ih =>
      have looked : Concludes (Filing.contains (a.runs.join (variant name k))) s
          (fun _ _ => True) fun _ _ => True := .of_state trivial
      exact looked.bind fun there t _ => .ite (fun _ => ih (k + 1) t) fun _ => .pure (joined k)

end

/-- A run is made in a tidy way. -/
theorem create_tidy (flat : a.base.Flat) (runType : Json) (description : String) (config tags : Json) :
    Filing.KeepsTidy (a.create runType description config tags) := by
  unfold create
  refine Filing.KeepsTidy.now.bind fun time => ?_
  refine Filing.KeepsTidy.get_bind fun s _ => ?_
  refine (Filing.KeepsTidy.of_reads (reads_freeName a _ _ _)).bind_outcome fun _ directory _ _ found => ?_
  have located : directory.Flat := (flat_freeName flat _ _ _ _).of_run found
  refine (Filing.KeepsTidy.makeDirectory (located.child (by decide))).bind fun _ => ?_
  refine (Filing.KeepsTidy.makeDirectory (located.child (by decide))).bind fun _ => ?_
  refine (Filing.KeepsTidy.writeText (located.child (by decide)) _).bind fun _ => ?_
  have done (r : SavedRun) : Filing.KeepsTidy (return r : Filing SavedRun) := .of_reads (.pure r)
  exact .ite ((Filing.KeepsTidy.writeText (located.child (by decide)) _).bind fun _ => done _) (done _)

end Archive

end PrimeSearch
