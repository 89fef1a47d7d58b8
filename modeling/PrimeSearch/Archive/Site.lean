/-
Module: PrimeSearch.Archive.Site
Purpose: The files, the working directory and the clock that saved runs depend on, and
  the saving and loading of values there.
Main exports: Site, Site.find, Site.resolve, ArchiveError, Filing, Filing.now,
  Filing.contains, Filing.makeDirectory, Filing.saveJson, Filing.loadJson
-/
import PrimeSearch.Archive.Clock
import PrimeSearch.Archive.Metadata
import PrimeSearch.Files.Location
import PrimeSearch.Files.Tree
import PrimeSearch.Json.Misfit
import PrimeSearch.Json.Reader

namespace PrimeSearch

/-- Where a program runs. -/
structure Site where
  files : FileTree
  /-- A directory that is shown by a name of its own. -/
  home : TreePath
  homeName : String
  /-- The working directory. -/
  here : TreePath
  clock : Clock
deriving Inhabited

/-- Why saved runs cannot be read or changed. -/
inductive ArchiveError where
  | file (fault : FileFault) (path : String)
  | malformed (error : Json.ReadError)
  | metadata (error : MetadataError)
  | unknownStatus (given : Json)
  | misfit (error : Misfit)

/-- Wording of an archive error. -/
def ArchiveError.message : ArchiveError → String
  | .file fault path => fault.message path
  | .malformed error => error.message
  | .metadata error => error.message
  | .unknownStatus given =>
      "Unknown run status " ++ given.literal ++ "; expected one of (" ++
        joinWith ", " (runStatuses.map quoted) ++ ")"
  | .misfit error => error.message

/-- A computation on a site.  What it has changed before it fails stays changed. -/
abbrev Filing (α : Type) := ExceptT ArchiveError (StateM Site) α

namespace Site

/-- Most bytes in a path. -/
def pathLimit : Nat := 4095

/-- Whether a half of a surrogate pair stands for a byte in the name of a file. -/
def isByte (unit : Nat) : Bool := 0xdc80 ≤ unit && unit ≤ 0xdcff

/-- The first code points of a path that no name of a file can hold; `place` of them were
passed. -/
def unencodable? (place : Nat) : List Nat → Option FileFault
  | [] => none
  | code :: codes =>
      if isSurrogate code && !isByte code then
        some (.unencodable code place (place + (codes.takeWhile isSurrogate).length))
      else unencodable? (place + 1) codes

/-- What is wrong with a path before anyone looks for it. -/
def writtenFault? (text : String) : Option FileFault :=
  match unencodable? 0 ((characters text.toList).map codeOf) with
  | some fault => some fault
  | none =>
      if text.toList.contains '\x00' then some .nullByte
      else if pathLimit < byteSize text then some .nameTooLong
      else none

/-- Where a path begins. -/
def start (s : Site) (l : Location) : TreePath := if l.isAbsolute then [] else s.here

/-- The place in the tree that a path leads to, if all on the way there are directories. -/
def find (s : Site) (l : Location) : Except FileFault TreePath :=
  match writtenFault? l.text with
  | some fault => .error fault
  | none => s.files.walk (s.start l) l.parts

/-- Go from a place along the parts of a path, whatever is there; two dots go up. -/
def walkFrom (start : TreePath) (parts : List String) : TreePath :=
  parts.foldl (fun p part =>
    if part = "" ∨ part = "." then p else if part = ".." then p.dropLast else p ++ [part]) start

/-- The place that a path leads to by its wording alone. -/
def resolve (s : Site) (l : Location) : TreePath := walkFrom (s.start l) l.parts

/-- A path as it is shown. -/
def pathText (s : Site) (l : Location) : String :=
  match FileTree.below? s.home l.parts with
  | some rest =>
      if l.isAbsolute && !s.home.isEmpty then joinWith "/" (s.homeName :: rest) else l.text
  | none => l.text

end Site

namespace Filing

/-- Name the path of a fault. -/
def named (l : Location) {α : Type} (r : Except FileFault α) : Filing α := do
  match r with
  | .ok a => return a
  | .error fault => throw (.file fault ((← get).pathText l))

/-- Read the clock. -/
def now : Filing DateTime :=
  modifyGet fun s =>
    let (t, clock) := s.clock.read
    (t, { s with clock })

/-- The place in the tree that a path leads to. -/
def find (l : Location) : Filing TreePath := do
  let s ← get
  named l (s.find l)

/-- Whether something holds of a place.  It does not where there is nothing to be found. -/
def holds (test : FileTree → TreePath → Bool) (l : Location) : Filing Bool := do
  let s ← get
  match s.find l with
  | .ok p => return test s.files p
  | .error fault => if fault.isAbsence then return false else named l (.error fault)

/-- Whether there is anything at a path. -/
def contains (l : Location) : Filing Bool := holds FileTree.contains l

/-- Whether there is a directory at a path. -/
def isDirectory (l : Location) : Filing Bool := holds FileTree.isDirectory l

/-- Text of a file. -/
def readText (l : Location) : Filing String := do
  let p ← find l
  named l ((← get).files.read p)

/-- Write a file. -/
def writeText (l : Location) (text : String) : Filing Unit := do
  let p ← find l
  let files ← named l ((← get).files.write p text)
  modify fun s => { s with files }

/-- Make one directory, unless it is there already.  It is said whether the directory around
it is there. -/
def makeOne (l : Location) : Filing Bool := do
  let s ← get
  match (s.find l).bind s.files.makeDirectory with
  | .ok files => do
      set { s with files }
      return true
  | .error .missing => return false
  | .error fault => if ← isDirectory l then return true else named l (.error fault)

/-- Make a directory and, if they are missing, those it lies in, so many at most. -/
def makeWithin : Nat → Location → Filing Unit
  | 0, l => do
      unless ← makeOne l do named l (.error .missing)
  | depth + 1, l => do
      unless ← makeOne l do
        makeWithin depth l.parent
        makeWithin 0 l

/-- Make a directory and all that lead to it. -/
def makeDirectory (l : Location) : Filing Unit := makeWithin l.parts.length l

/-- Remove a directory and all that is in it. -/
def removeTree (l : Location) : Filing Unit := do
  let p ← find l
  modify fun s => { s with files := s.files.removeTree p }

/-- Names in a directory. -/
def children (l : Location) : Filing (List String) := do
  let p ← find l
  return (← get).files.children p

/-- Save a value in a file. -/
def saveJson (l : Location) (j : Json) : Filing Unit := writeText l j.indented

/-- Load a value from a file. -/
def loadJson (l : Location) : Filing Json := do
  let text ← readText l
  match Json.readFile text with
  | .ok j => return j
  | .error e => throw (.malformed e)

end Filing

end PrimeSearch
