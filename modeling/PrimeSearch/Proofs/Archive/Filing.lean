/-
Module: PrimeSearch.Proofs.Archive.Filing
Purpose: What the operations on files do: which place they work at, and what they leave as it is.
Main exports: ArchiveError.TooLong, Site.Leads, Site.Sound, Site.WorkedIn, Filing.run_writeText,
  Filing.run_makeOne_new, Filing.makeWithin_sound, Filing.run_makeDirectory_new
-/
import PrimeSearch.Proofs.Archive.Naming
import PrimeSearch.Proofs.Outcome

namespace PrimeSearch

open FileTree (Plain)

/-!
A path leads to a place whether or not there is anything at it.  Operations find that place unless
the wording of the path is at fault.  They make directories where nothing is and write files where no
directory is, so directories stay, and a path keeps leading where it led.
-/

/-- Something is not found because its name or its path is too long. -/
def ArchiveError.TooLong (e : ArchiveError) : Prop := ∃ path, e = .file .nameTooLong path

namespace Site

variable {s s' s'' : Site} {l : Location} {p q d : TreePath} {name : String}

/-- All on the way to a place is there. -/
def Leads (s : Site) (l : Location) (p : TreePath) : Prop :=
  s.files.walk (s.start l) l.parts = .ok p

/-- A path is found unless its wording is at fault. -/
theorem Leads.find (leads : s.Leads l p) (faultless : writtenFault? l.text = none) :
    s.find l = .ok p := by
  rw [Site.find, faultless]
  exact leads

theorem find_eq_error {fault : FileFault} (faulty : writtenFault? l.text = some fault) :
    s.find l = .error fault := by
  rw [Site.find, faulty]

theorem find_eq_ok_iff : s.find l = .ok p ↔ writtenFault? l.text = none ∧ s.Leads l p := by
  unfold Site.find Leads
  split
  next fault faulty => simp [faulty]
  next faultless => simp [faultless]

theorem Leads.child (leads : s.Leads l p) (directory : s.files.isDirectory p = true)
    (plain : Plain name) (short : byteSize name ≤ FileTree.nameLimit) :
    s.Leads (l.child name) (p ++ [name]) := by
  show s.files.walk (s.start l) (l.parts ++ [name]) = .ok (p ++ [name])
  rw [FileTree.walk_child, leads]
  show s.files.step p name = .ok (p ++ [name])
  rw [FileTree.step_plain directory plain, if_neg (Nat.not_lt.mpr short)]

/-- Nothing is found below a place where nothing is. -/
theorem Leads.child_missing (leads : s.Leads l p) (absent : s.files.contains p = false)
    (faultless : writtenFault? (l.child name).text = none) :
    s.find (l.child name) = .error .missing := by
  rw [Site.find, faultless]
  show s.files.walk (s.start l) (l.parts ++ [name]) = .error .missing
  rw [FileTree.walk_child, leads]
  exact FileTree.step_missing (FileTree.not_contains_iff.mp absent)

/-- A name that is too long is found nowhere. -/
theorem Leads.child_tooLong (leads : s.Leads l p) (directory : s.files.isDirectory p = true)
    (plain : Plain name) (long : FileTree.nameLimit < byteSize name) (rest : List String) :
    s.files.walk (s.start l) (l.parts ++ name :: rest) = .error .nameTooLong := by
  rw [FileTree.walk_append leads, FileTree.walk, List.foldlM_cons,
    FileTree.step_plain directory plain, if_pos long]
  rfl

/-- A child of a directory is found unless its name or its path is too long. -/
theorem Leads.find_child (leads : s.Leads l p) (directory : s.files.isDirectory p = true)
    (plain : Plain name) (writable : Writable (l.child name).text) :
    s.find (l.child name) = .ok (p ++ [name]) ∨
      (s.find (l.child name) = .error .nameTooLong ∧
        (FileTree.nameLimit < byteSize name ∨ pathLimit < byteSize (l.child name).text)) := by
  have fault := writtenFault?_of_writable writable
  split at fault
  next long => exact .inr ⟨find_eq_error fault, .inr long⟩
  next =>
    by_cases short : byteSize name ≤ FileTree.nameLimit
    · exact .inl ((leads.child directory plain short).find fault)
    · refine .inr ⟨?_, .inl (Nat.lt_of_not_le short)⟩
      rw [Site.find, fault]
      exact leads.child_tooLong directory plain (Nat.lt_of_not_le short) []

/-- A path leads where its wording says. -/
theorem Leads.resolve (leads : s.Leads l p) : s.resolve l = p := by
  unfold Leads at leads
  unfold Site.resolve
  generalize s.start l = start at leads ⊢
  generalize l.parts = parts at leads ⊢
  induction parts generalizing start with
  | nil => exact Except.ok.inj leads
  | cons part parts ih =>
      obtain ⟨q, stepped, onward⟩ := FileTree.walk_cons_eq_ok leads
      rw [walkFrom, List.foldl_cons, ← (FileTree.step_wording stepped).2]
      exact ih q onward

/-- A site that can be worked at: everything lies in a directory, and the working directory is
one. -/
structure Sound (s : Site) : Prop where
  rooted : s.files.Rooted
  here : s.files.isDirectory s.here = true

/-- A path starts at a directory. -/
theorem Sound.start (sound : s.Sound) (l : Location) : s.files.isDirectory (s.start l) = true := by
  unfold Site.start
  split
  next => rfl
  next => exact sound.here

/-- Work that leaves the site as it was but for its clock and what is at a place and below. -/
structure WorkedIn (d : TreePath) (s s' : Site) : Prop where
  elsewhere : ∀ p, ¬d <+: p → s'.files.get? p = s.files.get? p
  keeps : FileTree.Keeps s.files s'.files
  rooted : s.files.Rooted → s'.files.Rooted
  here : s'.here = s.here

theorem WorkedIn.refl (d : TreePath) (s : Site) : WorkedIn d s s :=
  ⟨fun _ _ => rfl, .refl _, id, rfl⟩

/-- Nothing but time has passed. -/
theorem WorkedIn.elapse (d : TreePath) (s : Site) (clock : Clock) :
    WorkedIn d s { s with clock } :=
  ⟨fun _ _ => rfl, .refl _, id, rfl⟩

theorem WorkedIn.trans (first : WorkedIn d s s') (second : WorkedIn d s' s'') :
    WorkedIn d s s'' :=
  ⟨fun p outside => (second.elsewhere p outside).trans (first.elsewhere p outside),
    first.keeps.trans second.keeps, second.rooted ∘ first.rooted, second.here.trans first.here⟩

/-- Work at a place is work at each place around it. -/
theorem WorkedIn.around {d' : TreePath} (worked : WorkedIn d' s s') (below : d <+: d') :
    WorkedIn d s s' :=
  ⟨fun p outside => worked.elsewhere p fun inside => outside (below.trans inside), worked.keeps,
    worked.rooted, worked.here⟩

theorem WorkedIn.sound (worked : WorkedIn d s s') (sound : s.Sound) : s'.Sound :=
  ⟨worked.rooted sound.rooted, worked.here ▸ worked.keeps.directory _ sound.here⟩

/-- A path leads where it led. -/
theorem WorkedIn.leads (worked : WorkedIn d s s') (leads : s.Leads l p) : s'.Leads l p := by
  have start : s'.start l = s.start l := by rw [Site.start, Site.start, worked.here]
  rw [Leads, start]
  exact FileTree.walk_of_keeps worked.keeps leads

/-- Something is put below a directory. -/
theorem workedIn_put {e : Entry} (below : d <+: p)
    (kind : s.files.isDirectory p = true → e = .directory)
    (around : s.files.isDirectory p.dropLast = true) :
    WorkedIn d s { s with files := s.files.put p e } where
  elsewhere _ outside := FileTree.get?_put_of_ne fun same => outside (same ▸ below)
  keeps := FileTree.keeps_put kind
  rooted rooted := rooted.put kind around
  here := rfl

end Site

namespace Filing

variable {s : Site} {l : Location} {p d : TreePath} {name sub text : String} {fault : FileFault}

theorem run_now : now.run.run s = (.ok s.clock.upcoming, { s with clock := s.clock.read.2 }) := rfl

theorem run_find_ok (found : s.find l = .ok p) : (Filing.find l).run.run s = (.ok p, s) := by
  show (named l (s.find l)).run.run s = _
  rw [found]
  rfl

theorem run_find_error (lost : s.find l = .error fault) :
    (Filing.find l).run.run s = (.error (.file fault (s.pathText l)), s) := by
  show (named l (s.find l)).run.run s = _
  rw [lost]
  rfl

theorem run_holds (test : FileTree → TreePath → Bool) (l : Location) (s : Site) :
    (holds test l).run.run s =
      match s.find l with
      | .ok p => (.ok (test s.files p), s)
      | .error fault =>
          (if fault.isAbsence then .ok false else .error (.file fault (s.pathText l)), s) := by
  show ExceptT.run (match s.find l with
    | .ok p => return test s.files p
    | .error fault => if fault.isAbsence then return false else named l (.error fault)) s = _
  cases s.find l with
  | ok p => rfl
  | error fault =>
      dsimp only
      split
      next => rfl
      next => rfl

theorem run_holds_ok {test : FileTree → TreePath → Bool} (found : s.find l = .ok p) :
    (holds test l).run.run s = (.ok (test s.files p), s) := by
  rw [run_holds, found]

theorem run_readText (found : s.find l = .ok p) (file : s.files.get? p = some (.file text)) :
    (readText l).run.run s = (.ok text, s) := by
  unfold readText
  rw [run_bind_ok (run_find_ok found)]
  show (named l (s.files.read p)).run.run s = _
  rw [FileTree.read, file]
  rfl

/-- A value is loaded as its text is read. -/
theorem run_loadJson {j : Json} (read : (readText l).run.run s = (.ok text, s))
    (readBack : Json.readFile text = .ok j) : (loadJson l).run.run s = (.ok j, s) := by
  unfold loadJson
  rw [run_bind_ok read]
  simp only [readBack]
  rfl

/-- A file is written where no directory is. -/
theorem run_writeText (found : s.find l = .ok p) (free : s.files.isDirectory p = false) :
    (writeText l text).run.run s =
      (.ok (), { s with files := s.files.put p (.file text) }) := by
  unfold writeText
  rw [run_bind_ok (run_find_ok found)]
  show (named l (s.files.write p text) >>= fun files => modify fun s => { s with files }).run.run s
    = _
  rw [FileTree.write, free]
  rfl

theorem run_writeText_error (lost : s.find l = .error fault) :
    (writeText l text).run.run s = (.error (.file fault (s.pathText l)), s) := by
  unfold writeText
  exact run_bind_error (run_find_error lost)

/-- Making a directory goes by the place that is found.  Where something is already, it is looked
for a directory. -/
theorem run_makeOne (l : Location) (s : Site) :
    (makeOne l).run.run s =
      match (s.find l).bind s.files.makeDirectory with
      | .ok files => (.ok true, { s with files })
      | .error .missing => (.ok false, s)
      | .error fault =>
          (isDirectory l >>= fun there =>
            if there then pure true else named l (.error fault) : Filing Bool).run.run s := by
  show ExceptT.run (match (s.find l).bind s.files.makeDirectory with
    | .ok files => do
        set { s with files }
        return true
    | .error .missing => return false
    | .error fault => do if ← isDirectory l then return true else named l (.error fault)) s = _
  cases (s.find l).bind s.files.makeDirectory with
  | ok files => rfl
  | error fault => cases fault with
    | missing => rfl
    | «exists» | notDirectory | isDirectory | nameTooLong | nullByte | unencodable => rfl

/-- A directory is made where nothing is. -/
theorem run_makeOne_new (found : s.find l = .ok p) (absent : s.files.contains p = false) :
    (makeOne l).run.run s = (.ok true, { s with files := s.files.put p .directory }) := by
  have made : (s.find l).bind s.files.makeDirectory = .ok (s.files.put p .directory) := by
    rw [found]
    show s.files.makeDirectory p = _
    rw [FileTree.makeDirectory, absent]
    rfl
  rw [run_makeOne, made]

/-- Where something is, no directory is made, but one that is there will do. -/
theorem run_makeOne_there (found : s.find l = .ok p) (there : s.files.contains p = true) :
    (makeOne l).run.run s =
      (if s.files.isDirectory p then .ok true else .error (.file .exists (s.pathText l)), s) := by
  have refused : (s.find l).bind s.files.makeDirectory = .error .exists := by
    rw [found]
    show s.files.makeDirectory p = _
    rw [FileTree.makeDirectory, there]
    rfl
  rw [run_makeOne, refused]
  dsimp only
  have looked : (isDirectory l).run.run s = _ := run_holds_ok found
  rw [run_bind_ok looked]
  cases s.files.isDirectory p with | true | false => rfl

/-- Where the way is missing, no directory is made. -/
theorem run_makeOne_missing (lost : s.find l = .error .missing) :
    (makeOne l).run.run s = (.ok false, s) := by
  rw [run_makeOne, lost]
  rfl

/-- A path that leads nowhere for another reason is at fault. -/
theorem run_makeOne_error (lost : s.find l = .error fault) (other : fault ≠ .missing) :
    (makeOne l).run.run s = (.error (.file fault (s.pathText l)), s) := by
  have looked : (isDirectory l >>= fun there =>
      if there then pure true else named l (.error fault) : Filing Bool).run.run s =
        (.error (.file fault (s.pathText l)), s) := by
    have run : (isDirectory l).run.run s = _ := run_holds FileTree.isDirectory l s
    rw [lost] at run
    dsimp only at run
    cases absence : fault.isAbsence with
    | true =>
        rw [absence] at run
        exact run_bind_ok run
    | false =>
        rw [absence] at run
        exact run_bind_error run
  rw [run_makeOne, lost]
  cases fault with
  | missing => exact absurd rfl other
  | «exists» | notDirectory | isDirectory | nameTooLong | nullByte | unencodable => exact looked

/-- A directory that can be made at once, or is there, is made without those around it. -/
theorem run_makeWithin {t : Site} (made : (makeOne l).run.run s = (.ok true, t)) (depth : Nat) :
    (makeWithin depth l).run.run s = (.ok (), t) := by
  cases depth with
  | zero | succ =>
      unfold makeWithin
      exact run_bind_ok made

theorem run_makeWithin_error {e : ArchiveError} {t : Site}
    (failed : (makeOne l).run.run s = (.error e, t)) (depth : Nat) :
    (makeWithin depth l).run.run s = (.error e, t) := by
  cases depth with
  | zero | succ =>
      unfold makeWithin
      exact run_bind_error failed

/-- A directory that is there is not made. -/
theorem run_makeDirectory_there (found : s.find l = .ok p)
    (directory : s.files.isDirectory p = true) :
    (makeDirectory l).run.run s = (.ok (), s) := by
  have made := run_makeOne_there found (FileTree.contains_of_isDirectory directory)
  rw [directory] at made
  exact run_makeWithin made _

/-! ### A directory wherever it is wanted -/

/-- A directory that is made, or was there, is found there, and the site stays sound. -/
theorem makeOne_sound (sound : s.Sound) (l : Location) :
    Concludes (makeOne l) s
      (fun made t => t.Sound ∧ (made = true → ∃ p, t.find l = .ok p ∧ t.files.isDirectory p = true))
      fun _ _ => True := by
  cases found : s.find l with
  | error fault =>
      by_cases missing : fault = .missing
      · subst missing
        exact .ok (run_makeOne_missing found) ⟨sound, fun made => nomatch made⟩
      · exact .error (run_makeOne_error found missing) True.intro
  | ok p =>
      cases there : s.files.contains p with
      | false =>
          obtain ⟨faultless, leads⟩ := Site.find_eq_ok_iff.mp found
          have around := sound.rooted.directory_around (sound.start l) leads there
          have inside : p ≠ [] := by
            rintro rfl
            exact Bool.false_ne_true (there.symm.trans rfl)
          have worked : Site.WorkedIn p s { s with files := s.files.put p .directory } :=
            Site.workedIn_put (List.prefix_refl p) (fun _ => rfl) around
          refine .ok (run_makeOne_new found there) ⟨worked.sound sound, fun _ => ⟨p, ?_, ?_⟩⟩
          · exact (worked.leads leads).find faultless
          · exact FileTree.isDirectory_iff.mpr (FileTree.get?_put_self inside)
      | true =>
          have run := run_makeOne_there found there
          cases directory : s.files.isDirectory p with
          | false => exact .error (by rw [run, directory]; rfl) True.intro
          | true =>
              exact .ok (by rw [run, directory]; rfl) ⟨sound, fun _ => ⟨p, found, directory⟩⟩

theorem makeWithin_zero_sound (sound : s.Sound) (l : Location) :
    Concludes (makeWithin 0 l) s
      (fun _ t => t.Sound ∧ ∃ p, t.find l = .ok p ∧ t.files.isDirectory p = true)
      fun _ _ => True := by
  unfold makeWithin
  refine (makeOne_sound sound l).bind fun made t ⟨sound, there⟩ => ?_
  cases made with
  | true => exact .pure ⟨sound, there rfl⟩
  | false => exact .error rfl True.intro

theorem makeWithin_sound (sound : s.Sound) (depth : Nat) (l : Location) :
    Concludes (makeWithin depth l) s
      (fun _ t => t.Sound ∧ ∃ p, t.find l = .ok p ∧ t.files.isDirectory p = true)
      fun _ _ => True := by
  induction depth generalizing s l with
  | zero => exact makeWithin_zero_sound sound l
  | succ depth ih =>
      unfold makeWithin
      refine (makeOne_sound sound l).bind fun made t ⟨sound, there⟩ => ?_
      cases made with
      | true => exact .pure ⟨sound, there rfl⟩
      | false => exact (ih sound l.parent).bind fun _ u ⟨sound, _⟩ => makeWithin_zero_sound sound l

/-! ### A directory below one that is there -/

/-- A new directory in a directory that is there. -/
theorem run_makeDirectory_in (leads : s.Leads l d) (directory : s.files.isDirectory d = true)
    (absent : s.files.contains (d ++ [sub]) = false) (plain : Plain sub)
    (short : byteSize sub ≤ FileTree.nameLimit)
    (faultless : Site.writtenFault? (l.child sub).text = none) :
    (makeDirectory (l.child sub)).run.run s =
      (.ok (), { s with files := s.files.put (d ++ [sub]) .directory }) :=
  run_makeWithin (run_makeOne_new ((leads.child directory plain short).find faultless) absent) _

/-- A new directory together with the one it lies in. -/
theorem run_makeDirectory_new (leads : s.Leads l d) (inside : d ≠ [])
    (absent : s.files.contains d = false) (rooted : s.files.Rooted) (plain : Plain sub)
    (short : byteSize sub ≤ FileTree.nameLimit)
    (faultless : Site.writtenFault? (l.child sub).text = none)
    (faultless' : Site.writtenFault? l.text = none) :
    (makeDirectory (l.child sub)).run.run s =
      (.ok (), { s with
        files := (s.files.put d .directory).put (d ++ [sub]) .directory }) := by
  have missing := run_makeOne_missing (leads.child_missing absent faultless)
  have made := run_makeWithin (run_makeOne_new (leads.find faultless') absent) l.parts.length
  set t : Site := { s with files := s.files.put d .directory } with t_eq
  have directory : t.files.isDirectory d = true :=
    FileTree.isDirectory_iff.mpr (FileTree.get?_put_self inside)
  have keeps : FileTree.Keeps s.files t.files := FileTree.keeps_put fun _ => rfl
  have leads' : t.Leads l d := FileTree.walk_of_keeps keeps leads
  have absent' : t.files.contains (d ++ [sub]) = false := by
    have other : d ++ [sub] ≠ d := by simp
    rw [FileTree.not_contains_iff, FileTree.get?_put_of_ne other]
    exact rooted.nothing_below (FileTree.isDirectory_of_not_contains absent) (List.cons_ne_nil _ _)
  have length : (l.child sub).parts.length = l.parts.length + 1 := by simp [Location.child]
  rw [makeDirectory, length, makeWithin, run_bind_ok missing]
  show (makeWithin l.parts.length (l.child sub).parent >>= fun _ =>
    makeWithin 0 (l.child sub)).run.run s = _
  rw [Location.parent_child, run_bind_ok made]
  exact run_makeWithin (run_makeOne_new ((leads'.child directory plain short).find faultless)
    absent') 0

theorem run_makeDirectory_error (lost : s.find l = .error fault) (other : fault ≠ .missing) :
    (makeDirectory l).run.run s = (.error (.file fault (s.pathText l)), s) :=
  run_makeWithin_error (run_makeOne_error lost other) _

end Filing

end PrimeSearch
