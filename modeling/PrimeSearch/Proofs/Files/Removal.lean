/-
Module: PrimeSearch.Proofs.Files.Removal
Purpose: What is left of a file tree after directories were removed from it.
Main exports: FileTree.Proper, FileTree.ProperName, FileTree.Proper.put_at, FileTree.Proper.removeTree,
  FileTree.removeAll, FileTree.get?_removeAll_of_apart, FileTree.get?_removeAll_of_gone,
  FileTree.children_removeAll, FileTree.walk_congr, FileTree.walk_plain
-/
import Mathlib.Data.List.Nodup
import PrimeSearch.Proofs.Files.Tree

namespace PrimeSearch

namespace FileTree

/-!
Removing a directory takes out the entries that lie below it, so a tree stays rooted, and what lies
elsewhere is as it was.  A walk depends on no more than what is at the places it passes, so it leads
where it led unless it passes below what was removed.
-/

variable {t t' : FileTree} {p q d start : TreePath} {e : Entry} {name : String}

/-! ### Entries that are left -/

theorem find?_filter (keep : TreePath → Bool) (entries : List (TreePath × Entry)) :
    find? p (entries.filter fun entry => keep entry.1) =
      if keep p then find? p entries else none := by
  induction entries with
  | nil => simp [find?]
  | cons entry rest ih =>
      obtain ⟨r, e⟩ := entry
      by_cases here : r = p
      · subst here
        cases kept : keep r with
        | true => simp [kept, find?]
        | false =>
            rw [List.filter_cons_of_neg (by simp [kept]), ih, kept]
            rfl
      · have other : find? p ((r, e) :: rest) = find? p rest := by rw [find?, if_neg here]
        rw [other, ← ih]
        cases kept : keep r with
        | true => rw [List.filter_cons_of_pos (by simp [kept]), find?, if_neg here]
        | false => rw [List.filter_cons_of_neg (by simp [kept])]

/-- What is removed is gone with all below it, and nothing else is. -/
theorem get?_removeTree (inside : d ≠ []) :
    (t.removeTree d).get? p = if d <+: p then none else t.get? p := by
  by_cases top : p = []
  · subst top
    rw [if_neg fun below => inside (List.prefix_nil.mp below)]
    rfl
  · have left := find?_filter (p := p) (fun q => !d.isPrefixOf q) t.entries
    rw [get?, get?, if_neg top, if_neg top]
    refine left.trans ?_
    by_cases below : d <+: p
    · rw [if_pos below, List.isPrefixOf_iff_prefix.mpr below]
      rfl
    · rw [if_neg below, Bool.eq_false_iff.mpr fun here => below (List.isPrefixOf_iff_prefix.mp here)]
      rfl

/-! ### Proper trees -/

/-- A tree as it is found on a disk: everything lies in a directory, nothing is there twice, and every
name is one that goes down and has no slash in it. -/
structure Proper (t : FileTree) : Prop where
  rooted : t.Rooted
  distinct : (t.entries.map Prod.fst).Nodup
  plain : ∀ p ∈ t.entries.map Prod.fst, ∀ name ∈ p, Plain name
  flat : ∀ p ∈ t.entries.map Prod.fst, ∀ name ∈ p, '/' ∉ name.toList

/-- The name of a place in a directory, if it lies there. -/
def nameIn (p q : TreePath) : Option String :=
  match q.getLast? with
  | some name => if q.dropLast = p then some name else none
  | none => none

theorem nameIn_eq_some_iff : nameIn p q = some name ↔ q = p ++ [name] := by
  cases q using List.reverseRecOn with
  | nil => simp [nameIn]
  | append_singleton front last =>
      simp only [nameIn, List.getLast?_concat, List.dropLast_concat, Option.ite_none_right_eq_some,
        Option.some.injEq, List.append_singleton_inj]

theorem children_eq (t : FileTree) (p : TreePath) :
    t.children p = (t.entries.map Prod.fst).filterMap (nameIn p) := by
  rw [List.filterMap_map]
  rfl

theorem mem_children_iff_mem : name ∈ t.children p ↔ p ++ [name] ∈ t.entries.map Prod.fst := by
  simp only [children_eq, List.mem_filterMap, nameIn_eq_some_iff, exists_eq_right]

theorem contains_of_mem_entries (member : p ∈ t.entries.map Prod.fst) : t.contains p = true := by
  by_cases top : p = []
  · subst top
    rfl
  rw [contains, get?, if_neg top]
  revert member
  induction t.entries with
  | nil => exact fun member => absurd member List.not_mem_nil
  | cons entry rest ih =>
      obtain ⟨r, e⟩ := entry
      intro member
      rw [find?]
      split
      next => rfl
      next other =>
        rcases List.mem_cons.mp member with same | later
        · exact absurd same.symm other
        · exact ih later

/-- The names in a directory are those of what is there. -/
theorem mem_children_iff : name ∈ t.children p ↔ t.contains (p ++ [name]) = true := by
  rw [mem_children_iff_mem]
  exact ⟨contains_of_mem_entries, fun there => mem_entries_of_contains there (List.concat_ne_nil _ _)⟩

namespace Proper

theorem plain_of_mem_children (proper : t.Proper) (member : name ∈ t.children p) : Plain name :=
  proper.plain _ (mem_children_iff_mem.mp member) name (by simp)

theorem flat_of_mem_children (proper : t.Proper) (member : name ∈ t.children p) :
    '/' ∉ name.toList :=
  proper.flat _ (mem_children_iff_mem.mp member) name (by simp)

/-- No name is twice in a directory. -/
theorem nodup_children (proper : t.Proper) (p : TreePath) : (t.children p).Nodup := by
  rw [children_eq]
  refine proper.distinct.filterMap fun q q' name named named' => ?_
  rw [Option.mem_def, nameIn_eq_some_iff] at named named'
  rw [named, named']

/-- Some names are those in a directory if they are the names of what is there. -/
theorem children_perm {names : List String} (proper : t.Proper) (distinct : names.Nodup)
    (there : ∀ name, t.contains (p ++ [name]) = true ↔ name ∈ names) : (t.children p).Perm names :=
  (List.perm_ext_iff_of_nodup (proper.nodup_children p) distinct).mpr fun name =>
    mem_children_iff.trans (there name)

end Proper

/-- The paths of a tree after something was put into it. -/
theorem paths_insert (p : TreePath) (e : Entry) (entries : List (TreePath × Entry)) :
    (insert p e entries).map Prod.fst =
      if p ∈ entries.map Prod.fst then entries.map Prod.fst else entries.map Prod.fst ++ [p] := by
  induction entries with
  | nil => rfl
  | cons entry rest ih =>
      obtain ⟨q, old⟩ := entry
      by_cases here : q = p
      · subst here
        simp [insert]
      · rw [insert, if_neg here, List.map_cons, ih]
        by_cases there : p ∈ rest.map Prod.fst
        · have member : p ∈ ((q, old) :: rest).map Prod.fst := List.mem_cons_of_mem q there
          rw [if_pos there, if_pos member]
          rfl
        · have absent : p ∉ ((q, old) :: rest).map Prod.fst := fun member =>
            (List.mem_cons.mp member).elim (fun same => here same.symm) there
          rw [if_neg there, if_neg absent]
          rfl

/-- A name that something in a proper tree may have. -/
def ProperName (name : String) : Prop := Plain name ∧ '/' ∉ name.toList

/-- The names on the way to what is there. -/
theorem Proper.names (proper : t.Proper) (there : t.contains p = true) :
    ∀ name ∈ p, ProperName name := by
  by_cases top : p = []
  · rw [top]
    exact fun name member => absurd member List.not_mem_nil
  · have entry := mem_entries_of_contains there top
    exact fun name member => ⟨proper.plain p entry name member, proper.flat p entry name member⟩

/-- A tree stays proper when something with proper names is put into one of its directories. -/
theorem Proper.put_at (proper : t.Proper) (around : t.isDirectory p.dropLast = true)
    (names : ∀ name ∈ p, ProperName name) (kind : t.isDirectory p = true → e = .directory) :
    (t.put p e).Proper := by
  have named {good : String → Prop} (new : ∀ name ∈ p, good name)
      (old : ∀ q ∈ t.entries.map Prod.fst, ∀ name ∈ q, good name) :
      ∀ q ∈ (t.put p e).entries.map Prod.fst, ∀ name ∈ q, good name := by
    intro q member
    rw [FileTree.put, paths_insert] at member
    split at member
    next => exact old q member
    next =>
      rcases List.mem_append.mp member with before | last
      · exact old q before
      · rw [List.mem_singleton.mp last]
        exact new
  refine ⟨proper.rooted.put kind around, ?_, named (fun name member => (names name member).1) proper.plain,
    named (fun name member => (names name member).2) proper.flat⟩
  rw [FileTree.put, paths_insert]
  split
  next => exact proper.distinct
  next new =>
    refine List.nodup_append.mpr ⟨proper.distinct, List.nodup_singleton _, ?_⟩
    rintro q old q' last rfl
    exact new (List.mem_singleton.mp last ▸ old)

/-- Something with a proper name is put into a directory. -/
theorem Proper.put (proper : t.Proper) (directory : t.isDirectory d = true) (plain : Plain name)
    (flat : '/' ∉ name.toList) (kind : t.isDirectory (d ++ [name]) = true → e = .directory) :
    (t.put (d ++ [name]) e).Proper := by
  refine proper.put_at ?_ (List.forall_mem_append.mpr
    ⟨proper.names (contains_of_isDirectory directory), List.forall_mem_singleton.mpr ⟨plain, flat⟩⟩) kind
  rw [List.dropLast_concat]
  exact directory

theorem entries_removeTree (t : FileTree) (d : TreePath) :
    (t.removeTree d).entries.map Prod.fst =
      (t.entries.map Prod.fst).filter fun q => !d.isPrefixOf q := by
  rw [List.filter_map]
  rfl

/-- The names that are left in a directory. -/
theorem children_removeTree (t : FileTree) (d p : TreePath) :
    (t.removeTree d).children p = (t.children p).filter fun name => !d.isPrefixOf (p ++ [name]) := by
  rw [children_eq, children_eq, entries_removeTree, List.filterMap_filter, List.filter_filterMap]
  refine List.filterMap_congr fun q _ => ?_
  cases named : nameIn p q with
  | none => simp
  | some name =>
      rw [nameIn_eq_some_iff] at named
      subst named
      simp [Option.filter]

/-- Nothing that is left lies in a directory that is gone. -/
theorem Rooted.removeTree (rooted : t.Rooted) (inside : d ≠ []) : (t.removeTree d).Rooted := by
  intro p there
  rw [contains, get?_removeTree inside] at there
  split at there
  next => cases there
  next outside =>
    have around := rooted p there
    rw [isDirectory_iff, get?_removeTree inside, if_neg, ← isDirectory_iff]
    · exact around
    · exact fun below => outside (below.trans (List.dropLast_prefix p))

namespace Proper

theorem removeTree (proper : t.Proper) (inside : d ≠ []) : (t.removeTree d).Proper := by
  have part : (t.removeTree d).entries.map Prod.fst ⊆ t.entries.map Prod.fst :=
    (List.filter_sublist.map Prod.fst).subset
  exact ⟨proper.rooted.removeTree inside,
    proper.distinct.sublist (List.filter_sublist.map Prod.fst),
    fun p member => proper.plain p (part member), fun p member => proper.flat p (part member)⟩

end Proper

/-! ### Several removals -/

/-- What is left when several directories are removed, one after another. -/
def removeAll (t : FileTree) (ds : List TreePath) : FileTree := ds.foldl removeTree t

/-- Nothing changes apart from what is removed. -/
theorem get?_removeAll_of_apart {ds : List TreePath} (apart : ∀ d ∈ ds, ¬ d <+: p) :
    (t.removeAll ds).get? p = t.get? p := by
  induction ds generalizing t with
  | nil => rfl
  | cons d ds ih =>
      obtain ⟨outside, others⟩ := List.forall_mem_cons.mp apart
      have inside : d ≠ [] := by
        rintro rfl
        exact outside List.nil_prefix
      refine (ih others).trans ?_
      rw [get?_removeTree inside, if_neg outside]

/-- What is removed, or was not there, is not there afterwards. -/
theorem get?_removeAll_of_gone {ds : List TreePath} (inside : ∀ d ∈ ds, d ≠ [])
    (gone : t.get? p = none ∨ ∃ d ∈ ds, d <+: p) : (t.removeAll ds).get? p = none := by
  induction ds generalizing t with
  | nil => exact gone.resolve_right fun ⟨_, member, _⟩ => List.not_mem_nil member
  | cons first ds ih =>
      obtain ⟨inside, others⟩ := List.forall_mem_cons.mp inside
      refine ih others ?_
      rw [get?_removeTree inside]
      rcases gone with absent | ⟨d, member, below⟩
      · refine .inl ?_
        split
        next => rfl
        next => exact absent
      · rcases List.mem_cons.mp member with rfl | later
        · exact .inl (if_pos below)
        · exact .inr ⟨d, later, below⟩

theorem Proper.removeAll {ds : List TreePath} (proper : t.Proper) (inside : ∀ d ∈ ds, d ≠ []) :
    (t.removeAll ds).Proper := by
  induction ds generalizing t with
  | nil => exact proper
  | cons d ds ih =>
      obtain ⟨inside, others⟩ := List.forall_mem_cons.mp inside
      exact ih (proper.removeTree inside) others

theorem children_removeAll (t : FileTree) (ds : List TreePath) (p : TreePath) :
    (t.removeAll ds).children p =
      (t.children p).filter fun name => ds.all fun d => !d.isPrefixOf (p ++ [name]) := by
  induction ds generalizing t with
  | nil => exact (List.filter_true _).symm
  | cons d ds ih =>
      refine (ih (t.removeTree d)).trans ?_
      rw [children_removeTree, List.filter_filter]
      simp only [List.all_cons, Bool.and_comm]

/-! ### Walks -/

theorem step_congr {part : String} (same : t'.get? p = t.get? p) :
    t'.step p part = t.step p part := by
  rw [step, step, same]

/-- A walk looks only at the places that it passes. -/
theorem walk_congr {parts : List String}
    (same : ∀ front, front <+: parts → ∀ q, t.walk start front = .ok q → t'.get? q = t.get? q) :
    t'.walk start parts = t.walk start parts := by
  induction parts using List.reverseRecOn with
  | nil => rfl
  | append_singleton parts part ih =>
      rw [walk_child, walk_child, ih fun front before => same front (before.trans (List.prefix_append _ _))]
      cases walked : t.walk start parts with
      | error fault => rfl
      | ok q => exact step_congr (same parts (List.prefix_append _ _) q walked)

/-- Names that go down lead where they are appended. -/
theorem walk_plain {parts : List String} (plain : ∀ part ∈ parts, Plain part)
    (walked : t.walk start parts = .ok p) : p = start ++ parts := by
  induction parts generalizing start with
  | nil => rw [List.append_nil]; exact (Except.ok.inj walked).symm
  | cons part parts ih =>
      obtain ⟨first, others⟩ := List.forall_mem_cons.mp plain
      obtain ⟨next, stepped, onward⟩ := walk_cons_eq_ok walked
      rw [step_plain (step_eq_ok stepped).1 first] at stepped
      split at stepped
      next => cases stepped
      next =>
        obtain rfl := Except.ok.inj stepped
        rw [ih others onward, List.append_assoc]
        rfl

/-- A walk along names that have no slash in them keeps to proper names. -/
theorem names_of_walk {parts : List String} (flat : ∀ part ∈ parts, '/' ∉ part.toList)
    (names : ∀ name ∈ start, ProperName name) (walked : t.walk start parts = .ok p) :
    ∀ name ∈ p, ProperName name := by
  induction parts generalizing start with
  | nil => exact Except.ok.inj walked ▸ names
  | cons part parts ih =>
      obtain ⟨first, others⟩ := List.forall_mem_cons.mp flat
      obtain ⟨q, stepped, onward⟩ := walk_cons_eq_ok walked
      refine ih others ?_ onward
      rw [(step_wording stepped).2]
      split
      next => exact names
      next moves =>
        split
        next => exact fun name member => names name (List.dropLast_subset start member)
        next down =>
          obtain ⟨some_, noDot⟩ := not_or.mp moves
          exact List.forall_mem_append.mpr
            ⟨names, List.forall_mem_singleton.mpr ⟨⟨some_, noDot, down⟩, first⟩⟩

end FileTree

end PrimeSearch
