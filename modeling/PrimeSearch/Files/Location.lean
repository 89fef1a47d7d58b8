/-
Module: PrimeSearch.Files.Location
Purpose: Written paths.
Main exports: Location, Location.ofText, Location.asWritten, Location.text, Location.join,
  Location.child, Location.parent, Location.name
-/
import PrimeSearch.Text.Quoted

namespace PrimeSearch

/-- A path as it is written: from the top of the file tree, or from the working
directory. -/
structure Location where
  /-- The slashes in front of a path from the top; other paths have none. -/
  root : String
  parts : List String
deriving Repr, DecidableEq, Inhabited

namespace Location

/-- The parts of a written path; empty ones and single dots say nothing. -/
def partsOf (text : String) : List String :=
  ((splitAtChar '/' text.toList).map String.ofList).filter fun part => part ≠ "" ∧ part ≠ "."

/-- The slashes that a path from the top keeps: two of them stay two. -/
def rootOf (text : String) : String :=
  match (text.toList.takeWhile (· = '/')).length with
  | 0 => ""
  | 2 => "//"
  | _ => "/"

/-- Read a path in its simplest form. -/
def ofText (text : String) : Location := ⟨rootOf text, partsOf text⟩

/-- Read a path with all that it says, such as a slash at its end. -/
def asWritten (text : String) : Location :=
  match text.toList with
  | '/' :: rest => ⟨"/", (splitAtChar '/' rest).map String.ofList⟩
  | cs => ⟨"", (splitAtChar '/' cs).map String.ofList⟩

/-- Whether a path begins at the top. -/
def isAbsolute (l : Location) : Bool := l.root ≠ ""

/-- Go on along a written path; one from the top does not depend on where it starts. -/
def join (l : Location) (text : String) : Location :=
  let next := ofText text
  if next.isAbsolute then next else { l with parts := l.parts ++ next.parts }

/-- Append one part. -/
def child (l : Location) (name : String) : Location := { l with parts := l.parts ++ [name] }

/-- Drop the last part. -/
def parent (l : Location) : Location := { l with parts := l.parts.dropLast }

/-- Last part of a path. -/
def name (l : Location) : String := l.parts.getLast?.getD ""

/-- Write a path. -/
def text (l : Location) : String :=
  if l.parts.isEmpty && !l.isAbsolute then "." else l.root ++ joinWith "/" l.parts

end Location

end PrimeSearch
