/-
Module: PrimeSearch.Files.Tree
Purpose: A tree of directories and text files as a plain value.
Main exports: Entry, FileTree, FileFault, FileTree.get?, FileTree.walk, FileTree.read,
  FileTree.write, FileTree.append, FileTree.makeDirectory, FileTree.children,
  FileTree.removeTree, FileTree.place, FileTree.listing
-/
import PrimeSearch.Text.Quoted

namespace PrimeSearch

/-!
Files are texts and directories hold names.  Symbolic links are left out: a path leads to one
place only, so that what is found at a place, and what is removed below it, never lies elsewhere.
-/

/-- What is found at a path. -/
inductive Entry where
  | directory
  | file (text : String)
deriving Repr, DecidableEq, Inhabited

/-- Why something cannot be done at a path. -/
inductive FileFault where
  | missing
  | exists
  | notDirectory
  | isDirectory
  | nameTooLong
  /-- A path with a null character in it. -/
  | nullByte
  /-- A path with halves of surrogate pairs from one place to another. -/
  | unencodable (unit first last : Nat)
deriving Repr, DecidableEq

namespace FileFault

/-- Wording of a fault of a path. -/
def message (path : String) : FileFault → String
  | .missing => "[Errno 2] No such file or directory: " ++ quoted path
  | .exists => "[Errno 17] File exists: " ++ quoted path
  | .notDirectory => "[Errno 20] Not a directory: " ++ quoted path
  | .isDirectory => "[Errno 21] Is a directory: " ++ quoted path
  | .nameTooLong => "[Errno 36] File name too long: " ++ quoted path
  | .nullByte => "embedded null byte"
  | .unencodable unit first last =>
      let unitText := String.ofList (hexDigits 4 unit)
      "'utf-8' codec can't encode " ++
        (if first = last then s!"character '\\u{unitText}' in position {first}"
          else s!"characters in position {first}-{last}") ++ ": surrogates not allowed"

/-- Whether a fault means no more than that there is nothing at a path. -/
def isAbsence : FileFault → Bool
  | .missing | .notDirectory | .nullByte | .unencodable .. => true
  | _ => false

end FileFault

/-- A path from the top of the tree. -/
abbrev TreePath := List String

/-- All paths that lead to a path, the top first and the path itself last. -/
def TreePath.leading : TreePath → List TreePath
  | [] => [[]]
  | name :: rest => [] :: (leading rest).map (name :: ·)

/-- Directories and files by path.  The top always is a directory. -/
structure FileTree where
  entries : List (TreePath × Entry)
deriving Repr, Inhabited

namespace FileTree

/-- The first entry of a path in a list. -/
def find? (p : TreePath) : List (TreePath × Entry) → Option Entry
  | [] => none
  | (q, e) :: rest => if q = p then some e else find? p rest

/-- Set the entry of a path in a list; a new one goes to the end. -/
def insert (p : TreePath) (e : Entry) : List (TreePath × Entry) → List (TreePath × Entry)
  | [] => [(p, e)]
  | (q, old) :: rest => if q = p then (q, e) :: rest else (q, old) :: insert p e rest

/-- What is at a path. -/
def get? (t : FileTree) (p : TreePath) : Option Entry :=
  if p = [] then some .directory else find? p t.entries

/-- Put something at a path. -/
def put (t : FileTree) (p : TreePath) (e : Entry) : FileTree := ⟨insert p e t.entries⟩

/-- Whether there is anything at a path. -/
def contains (t : FileTree) (p : TreePath) : Bool := (t.get? p).isSome

/-- Whether there is a directory at a path. -/
def isDirectory (t : FileTree) (p : TreePath) : Bool := t.get? p = some .directory

/-- Most bytes in the name of a directory or a file. -/
def nameLimit : Nat := 255

/-- Go one part further from a place, which has to be a directory. -/
def step (t : FileTree) (p : TreePath) (part : String) : Except FileFault TreePath :=
  match t.get? p with
  | none => .error .missing
  | some (.file _) => .error .notDirectory
  | some .directory =>
      if part = "" ∨ part = "." then .ok p
      else if part = ".." then .ok p.dropLast
      else if nameLimit < byteSize part then .error .nameTooLong
      else .ok (p ++ [part])

/-- Go along the parts of a path.  Nothing needs to be at its end. -/
def walk (t : FileTree) (start : TreePath) (parts : List String) : Except FileFault TreePath :=
  parts.foldlM t.step start

/-- Text of a file. -/
def read (t : FileTree) (p : TreePath) : Except FileFault String :=
  match t.get? p with
  | some (.file text) => .ok text
  | some .directory => .error .isDirectory
  | none => .error .missing

/-- Make a file with a text, or replace the text of one. -/
def write (t : FileTree) (p : TreePath) (text : String) : Except FileFault FileTree :=
  if t.isDirectory p then .error .isDirectory else .ok (t.put p (.file text))

/-- Add text at the end of a file that exists; a file that is gone stays gone. -/
def append (t : FileTree) (p : TreePath) (text : String) : FileTree :=
  match t.get? p with
  | some (.file old) => t.put p (.file (old ++ text))
  | _ => t

/-- Make a directory where there is nothing yet. -/
def makeDirectory (t : FileTree) (p : TreePath) : Except FileFault FileTree :=
  if t.contains p then .error .exists else .ok (t.put p .directory)

/-- Names in a directory, in the order in which they were made. -/
def children (t : FileTree) (p : TreePath) : List String :=
  t.entries.filterMap fun (q, _) =>
    match q.getLast? with
    | some name => if q.dropLast = p then some name else none
    | none => none

/-- Remove whatever is at a path and below it. -/
def removeTree (t : FileTree) (p : TreePath) : FileTree :=
  ⟨t.entries.filter fun (q, _) => !p.isPrefixOf q⟩

/-- Make the directories of some paths where nothing is yet. -/
def placeDirectories (t : FileTree) (ps : List TreePath) : FileTree :=
  ps.foldl (fun t p => if t.contains p then t else t.put p .directory) t

/-- Put a file at a path, or a directory if there is no text, together with the directories
that lead there. -/
def place (t : FileTree) (p : TreePath) (text : Option String) : FileTree :=
  match text with
  | some text => (t.placeDirectories (TreePath.leading p.dropLast)).put p (.file text)
  | none => t.placeDirectories (TreePath.leading p)

/-- What is left of a path below another one. -/
def below? : TreePath → TreePath → Option TreePath
  | [], p => some p
  | _ :: _, [] => none
  | a :: base, b :: p => if a = b then below? base p else none

/-- All entries below a directory with their paths as texts, where directories end in a
slash, in the order of these texts. -/
def listing (t : FileTree) (base : TreePath) : List (String × Entry) :=
  let rows := t.entries.filterMap fun (p, e) =>
    match below? base p with
    | none | some [] => none
    | some rest =>
        some (String.intercalate "/" rest ++ if e = .directory then "/" else "", e)
  rows.mergeSort fun a b => decide (a.1 ≤ b.1)

end FileTree

end PrimeSearch
