/-
Module: PrimeSearch.Proofs.Files.Tree
Purpose: What is in a file tree after something was put into it, and where a walk through it leads.
Main exports: FileTree.Rooted, FileTree.get?_put_self, FileTree.Keeps, FileTree.Rooted.nothing_below,
  FileTree.walk_of_keeps, FileTree.walk_child, FileTree.Rooted.directory_around
-/
import Mathlib.Data.List.Induction
import PrimeSearch.Files.Tree

namespace PrimeSearch

namespace FileTree

/-!
A tree is a list of entries, and nothing in it keeps an entry from lying in a file or nowhere.  In a
rooted tree every entry lies in a directory, so below a place without a directory there is nothing.
A walk asks only for directories on its way; it leads to the same place as long as they stay.
-/

variable {t t' : FileTree} {p q start : TreePath} {e : Entry} {part : String}

/-! ### Entries -/

theorem find?_insert (p q : TreePath) (e : Entry) (entries : List (TreePath × Entry)) :
    find? q (insert p e entries) = if p = q then some e else find? q entries := by
  induction entries with
  | nil => rfl
  | cons entry rest ih =>
      obtain ⟨r, old⟩ := entry
      by_cases here : r = p
      · subst here
        by_cases same : r = q
        · simp [insert, find?, same]
        · simp [insert, find?, same]
      · by_cases same : r = q
        · subst same
          simp [insert, find?, here, Ne.symm here]
        · simp [insert, find?, here, same, ih]

/-- What is put at a place is there; the top stays a directory. -/
theorem get?_put_self (inside : p ≠ []) : (t.put p e).get? p = some e := by
  simp [get?, put, inside, find?_insert]

/-- Nothing else changes when something is put at a place. -/
theorem get?_put_of_ne (other : q ≠ p) : (t.put p e).get? q = t.get? q := by
  simp [get?, put, find?_insert, Ne.symm other]

/-- What is below a place after something was put there or below. -/
theorem get?_put_below {d : TreePath} (inside : d ≠ []) (rest rest' : TreePath) (e : Entry) :
    (t.put (d ++ rest) e).get? (d ++ rest') =
      if rest' = rest then some e else t.get? (d ++ rest') := by
  split
  next same =>
    subst same
    exact get?_put_self (List.append_ne_nil_of_left_ne_nil inside _)
  next other => exact get?_put_of_ne fun same => other (List.append_cancel_left same)

theorem isDirectory_iff : t.isDirectory p = true ↔ t.get? p = some .directory := by
  simp [isDirectory]

theorem contains_of_isDirectory (directory : t.isDirectory p = true) : t.contains p = true := by
  rw [contains, isDirectory_iff.mp directory]
  rfl

theorem isDirectory_of_not_contains (absent : t.contains p = false) : t.isDirectory p = false := by
  rw [contains, Option.isSome_eq_false_iff, Option.isNone_iff_eq_none] at absent
  simp [isDirectory, absent]

theorem not_contains_iff : t.contains p = false ↔ t.get? p = none := by
  rw [contains, Option.isSome_eq_false_iff, Option.isNone_iff_eq_none]

/-- A place other than the top with something at it stands in the list of entries. -/
theorem mem_entries_of_contains (there : t.contains p = true) (inside : p ≠ []) :
    p ∈ t.entries.map Prod.fst := by
  have found : find? p t.entries ≠ none := by
    simpa [contains, get?, inside, Option.isSome_iff_ne_none] using there
  revert found
  induction t.entries with
  | nil => exact fun found => absurd rfl found
  | cons entry rest ih =>
      obtain ⟨r, e⟩ := entry
      intro found
      by_cases here : r = p
      · exact List.mem_cons.mpr (.inl here.symm)
      · rw [find?, if_neg here] at found
        exact List.mem_cons_of_mem _ (ih found)

/-! ### Rooted trees -/

/-- Everything lies in a directory. -/
def Rooted (t : FileTree) : Prop := ∀ p, t.contains p = true → t.isDirectory p.dropLast = true

/-- Only the entries themselves need a directory around them. -/
theorem rooted_of_entries
    (around : ∀ p ∈ t.entries.map Prod.fst, t.isDirectory p.dropLast = true) : t.Rooted := by
  intro p there
  by_cases top : p = []
  · subst top
    rfl
  · exact around p (mem_entries_of_contains there top)

/-- Every directory is still one, and every file is still a file. -/
structure Keeps (t t' : FileTree) : Prop where
  directory : ∀ p, t.isDirectory p = true → t'.isDirectory p = true
  contains : ∀ p, t.contains p = true → t'.contains p = true

theorem Keeps.refl (t : FileTree) : Keeps t t := ⟨fun _ => id, fun _ => id⟩

theorem Keeps.trans {t'' : FileTree} (first : Keeps t t') (second : Keeps t' t'') : Keeps t t'' :=
  ⟨fun p here => second.directory p (first.directory p here),
    fun p here => second.contains p (first.contains p here)⟩

/-- The same directories and the same files, whatever is in them. -/
def SamePlaces (t t' : FileTree) : Prop :=
  ∀ p, t'.contains p = t.contains p ∧ t'.isDirectory p = t.isDirectory p

theorem SamePlaces.refl (t : FileTree) : SamePlaces t t := fun _ => ⟨rfl, rfl⟩

theorem SamePlaces.trans {t'' : FileTree} (first : SamePlaces t t') (second : SamePlaces t' t'') :
    SamePlaces t t'' := fun p =>
  ⟨(second p).1.trans (first p).1, (second p).2.trans (first p).2⟩

/-- What is added to a file makes and removes nothing. -/
theorem samePlaces_append (t : FileTree) (p : TreePath) (text : String) :
    SamePlaces t (t.append p text) := by
  unfold append
  split
  next old file =>
    intro q
    by_cases same : q = p
    · subst same
      have inside : q ≠ [] := by
        rintro rfl
        cases file
      constructor
      · rw [contains, contains, get?_put_self inside, file]
        rfl
      · rw [isDirectory, isDirectory, get?_put_self inside, file]
        rfl
    · rw [contains, contains, isDirectory, isDirectory, get?_put_of_ne same]
      exact ⟨rfl, rfl⟩
  next => exact .refl t

/-- Putting something where there is no directory, or a directory anywhere, keeps what is there. -/
theorem keeps_put (kind : t.isDirectory p = true → e = .directory) : Keeps t (t.put p e) := by
  constructor
  · intro q directory
    by_cases same : q = p
    · subst same
      by_cases top : q = []
      · subst top
        rfl
      · rw [isDirectory_iff, get?_put_self top, kind directory]
    · rwa [isDirectory_iff, get?_put_of_ne same, ← isDirectory_iff]
  · intro q there
    by_cases same : q = p
    · subst same
      by_cases top : q = []
      · subst top
        rfl
      · rw [contains, get?_put_self top]
        rfl
    · rwa [contains, get?_put_of_ne same]

/-- A file put where no directory is changes nothing about directories. -/
theorem isDirectory_put_file (free : t.isDirectory p = false) (text : String) (q : TreePath) :
    (t.put p (.file text)).isDirectory q = t.isDirectory q := by
  by_cases same : q = p
  · subst same
    have inside : q ≠ [] := by
      rintro rfl
      cases free
    rw [free, isDirectory, get?_put_self inside]
    rfl
  · rw [isDirectory, isDirectory, get?_put_of_ne same]

/-- A tree stays rooted when something is put into one of its directories. -/
theorem Rooted.put (rooted : t.Rooted) (kind : t.isDirectory p = true → e = .directory)
    (around : t.isDirectory p.dropLast = true) : (t.put p e).Rooted := by
  intro q there
  apply (keeps_put kind).directory
  by_cases same : q = p
  · exact same ▸ around
  · rw [contains, get?_put_of_ne same] at there
    exact rooted q there

/-- Where no directory is, nothing lies below. -/
theorem Rooted.nothing_below (rooted : t.Rooted) (absent : t.isDirectory p = false)
    {rest : TreePath} (below : rest ≠ []) : t.get? (p ++ rest) = none := by
  induction rest using List.reverseRecOn with
  | nil => exact absurd rfl below
  | append_singleton rest part ih =>
      refine not_contains_iff.mp (Bool.eq_false_iff.mpr fun there => ?_)
      have around := rooted _ there
      rw [← List.append_assoc, List.dropLast_concat] at around
      by_cases direct : rest = []
      · subst direct
        rw [List.append_nil] at around
        exact Bool.false_ne_true (absent.symm.trans around)
      · rw [isDirectory_iff, ih direct] at around
        cases around

/-- Where nothing is, nothing is there or below. -/
theorem Rooted.not_contains_below (rooted : t.Rooted) (absent : t.contains p = false)
    (below : p <+: q) : t.contains q = false := by
  obtain ⟨rest, rfl⟩ := below
  by_cases here : rest = []
  · rw [here, List.append_nil]
    exact absent
  · exact not_contains_iff.mpr (rooted.nothing_below (isDirectory_of_not_contains absent) here)

/-! ### Walks -/

/-- A part of a path that goes down. -/
def Plain (part : String) : Prop := part ≠ "" ∧ part ≠ "." ∧ part ≠ ".."

instance : DecidablePred Plain := fun _ => inferInstanceAs (Decidable (_ ∧ _ ∧ _))

/-- Where a step leads from a directory is a matter of its wording. -/
theorem step_wording (stepped : t.step p part = .ok q) :
    t.isDirectory p = true ∧
      q = if part = "" ∨ part = "." then p else if part = ".." then p.dropLast else p ++ [part] := by
  unfold step at stepped
  split at stepped
  next => cases stepped
  next => cases stepped
  next directory =>
    refine ⟨isDirectory_iff.mpr directory, ?_⟩
    split at stepped
    next still => rw [if_pos still]; exact (Except.ok.inj stepped).symm
    next moves =>
      rw [if_neg moves]
      split at stepped
      next up => rw [if_pos up]; exact (Except.ok.inj stepped).symm
      next down =>
        rw [if_neg down]
        split at stepped
        next => cases stepped
        next => exact (Except.ok.inj stepped).symm

theorem step_eq_ok (stepped : t.step p part = .ok q) :
    t.isDirectory p = true ∧ (q = p ∨ q = p.dropLast ∨ q = p ++ [part]) := by
  obtain ⟨directory, leads⟩ := step_wording stepped
  refine ⟨directory, ?_⟩
  split at leads
  next => exact .inl leads
  next =>
    split at leads
    next => exact .inr (.inl leads)
    next => exact .inr (.inr leads)

theorem step_plain (directory : t.isDirectory p = true) (plain : Plain part) :
    t.step p part =
      if nameLimit < byteSize part then .error .nameTooLong else .ok (p ++ [part]) := by
  obtain ⟨some_, noDot, noDots⟩ := plain
  rw [step, isDirectory_iff.mp directory]
  dsimp only
  rw [if_neg (not_or.mpr ⟨some_, noDot⟩), if_neg noDots]

/-- No step leads on from where nothing is. -/
theorem step_missing (absent : t.get? p = none) : t.step p part = .error .missing := by
  rw [step, absent]

theorem walk_child (start : TreePath) (parts : List String) (part : String) :
    t.walk start (parts ++ [part]) = (t.walk start parts).bind fun p => t.step p part := by
  unfold walk
  rw [List.foldlM_append]
  cases parts.foldlM t.step start with
  | error => rfl
  | ok p =>
      show ([part].foldlM t.step p) = t.step p part
      rw [List.foldlM_cons]
      cases t.step p part with | error | ok => rfl

/-- A walk begins with its first step. -/
theorem walk_cons_eq_ok {parts : List String} (walked : t.walk start (part :: parts) = .ok p) :
    ∃ q, t.step start part = .ok q ∧ t.walk q parts = .ok p := by
  unfold walk at walked
  rw [List.foldlM_cons] at walked
  cases stepped : t.step start part with
  | error fault => rw [stepped] at walked; cases walked
  | ok q =>
      rw [stepped] at walked
      exact ⟨q, rfl, walked⟩

/-- A walk goes on from where its first half leads. -/
theorem walk_append {parts rest : List String} (walked : t.walk start parts = .ok q) :
    t.walk start (parts ++ rest) = t.walk q rest := by
  unfold walk at walked ⊢
  rw [List.foldlM_append, walked]
  rfl

/-- A walk in two halves comes by a place between them, and goes on only from a directory. -/
theorem walk_append_eq_ok {parts rest : List String} (walked : t.walk start (parts ++ rest) = .ok q) :
    ∃ p, t.walk start parts = .ok p ∧ (rest = [] ∧ p = q ∨ t.isDirectory p = true) := by
  have halves := walked
  unfold walk at halves
  rw [List.foldlM_append] at halves
  cases front : t.walk start parts with
  | error fault =>
      unfold walk at front
      rw [front] at halves
      cases halves
  | ok p =>
      refine ⟨p, rfl, ?_⟩
      rw [walk_append front] at walked
      cases rest with
      | nil => exact .inl ⟨rfl, Except.ok.inj walked⟩
      | cons part rest =>
          obtain ⟨_, stepped, -⟩ := walk_cons_eq_ok walked
          exact .inr (step_eq_ok stepped).1

/-- A step leads to the same place as long as directories stay. -/
theorem step_of_keeps (keeps : Keeps t t') (stepped : t.step p part = .ok q) :
    t'.step p part = .ok q := by
  have here := (step_eq_ok stepped).1
  have there := keeps.directory p here
  rw [step, isDirectory_iff.mp here] at stepped
  rw [step, isDirectory_iff.mp there]
  exact stepped

/-- A walk leads to the same place as long as directories stay. -/
theorem walk_of_keeps (keeps : Keeps t t') {parts : List String} :
    ∀ {start : TreePath}, t.walk start parts = .ok p → t'.walk start parts = .ok p := by
  induction parts with
  | nil => exact id
  | cons part rest ih =>
      intro start walked
      obtain ⟨next, stepped, onward⟩ := walk_cons_eq_ok walked
      unfold walk
      rw [List.foldlM_cons, step_of_keeps keeps stepped]
      exact ih onward

/-- A walk that comes to a new place comes from the directory around it. -/
theorem Rooted.directory_around (rooted : t.Rooted) (begun : t.isDirectory start = true)
    {parts : List String} (walked : t.walk start parts = .ok p) (new : t.contains p = false) :
    t.isDirectory p.dropLast = true := by
  induction parts using List.reverseRecOn with
  | nil =>
      obtain rfl := Except.ok.inj walked
      exact absurd (contains_of_isDirectory begun) (Bool.eq_false_iff.mp new)
  | append_singleton rest part ih =>
      rw [walk_child] at walked
      cases before : t.walk start rest with
      | error fault => rw [before] at walked; cases walked
      | ok last =>
          rw [before] at walked
          obtain ⟨directory, rfl | rfl | rfl⟩ := step_eq_ok walked
          next => exact absurd (contains_of_isDirectory directory) (Bool.eq_false_iff.mp new)
          next =>
            have around := rooted last (contains_of_isDirectory directory)
            exact absurd (contains_of_isDirectory around) (Bool.eq_false_iff.mp new)
          next => rwa [List.dropLast_concat]

end FileTree

end PrimeSearch
