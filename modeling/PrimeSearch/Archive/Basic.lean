/-
Module: PrimeSearch.Archive.Basic
Purpose: The directory of all saved runs: making, finding, listing and removing them.
Main exports: Archive, Archive.open, Archive.create, Archive.get?, Archive.list,
  Archive.cleanup, defaultBase
-/
import PrimeSearch.Archive.Run

namespace PrimeSearch

/-- Saved runs are kept in the directory `runs` below a base directory. -/
structure Archive where
  base : Location
deriving Repr, DecidableEq, Inhabited

/-- The place for saved runs if none is given: beside the sources of the project around
the working directory, or in the working directory. -/
def defaultBase (s : Site) : Location :=
  let around := (TreePath.leading s.here).reverse.filter (· ≠ [])
  match around.find? fun p => s.files.contains (p ++ ["src", "primefold"]) with
  | some p => ⟨"/", p ++ ["output"]⟩
  | none => ⟨"", ["output"]⟩

namespace Archive

/-- The directory that holds the run directories. -/
def runs (a : Archive) : Location := a.base.child "runs"

/-- Use a base directory; the directory of runs is made if it is missing. -/
def «open» (base : Option Location) : Filing Archive := do
  let s ← get
  let a : Archive := ⟨base.getD (defaultBase s)⟩
  Filing.makeDirectory a.runs
  return a

/-- Number of characters of a description in a directory name. -/
def labelLength : Nat := 30

/-- A description in a form that suits a directory name. -/
def label (description : String) : String :=
  let plain := description.toList.map fun c =>
    if c = ' ' then '_' else if c = '/' then '-' else c
  String.ofList ((characters plain).take labelLength).flatten

/-- A name, or one of its variants `name_2`, `name_3`, …. -/
def variant (name : String) (k : Nat) : String :=
  if k = 1 then name else name ++ "_" ++ Numeral.ofNat k

/-- The first variant of a name that is not taken, from a number on. -/
def freeName (a : Archive) (name : String) : Nat → Nat → Filing Location
  | 0, k => return a.runs.join (variant name k)
  | tries + 1, k => do
      if ← Filing.contains (a.runs.join (variant name k)) then a.freeName name tries (k + 1)
      else return a.runs.join (variant name k)

/-- Make a run directory, named by time, type and description. -/
def create (a : Archive) (runType : Json) (description : String) (config tags : Json) :
    Filing SavedRun := do
  let time ← Filing.now
  let wanted := time.stamp ++ "_" ++ runType.display ++ "_" ++ label description
  let directory ← a.freeName wanted (← get).files.entries.length 1
  Filing.makeDirectory (directory.child "checkpoints")
  Filing.makeDirectory (directory.child "logs")
  let run : SavedRun := ⟨directory, {
    runId := .str directory.name
    runType
    description := .str description
    createdAt := .str time.iso
    tags := if tags.isTruthy then tags else .arr [] }⟩
  run.saveMetadata
  if config.isTruthy then run.saveConfig config
  return run

/-- The run of a given name, if there are notes about it. -/
def get? (a : Archive) (runId : String) : Filing (Option SavedRun) := do
  let directory := a.runs.join runId
  if ← Filing.contains (SavedRun.metadataFile directory) then
    let j ← Filing.loadJson (SavedRun.metadataFile directory)
    match RunMetadata.ofJson j with
    | .ok metadata => return some ⟨directory, metadata⟩
    | .error e => throw (.metadata e)
  else return none

/-- Whether a run is of a type; no type or an empty one stands for all. -/
def isOfType (runType : Json) (r : SavedRun) : Bool :=
  !runType.isTruthy || r.metadata.runType.agrees runType

/-- The first runs of a type among some names. -/
def collect (a : Archive) (runType : Json) : Nat → List String → Filing (List SavedRun)
  | 0, _ | _ + 1, [] => return []
  | limit + 1, name :: rest => do
      let found ←
        if ← Filing.isDirectory (a.runs.child name) then a.get? name else pure none
      match found with
      | some r =>
          if isOfType runType r then
            let others ← a.collect runType limit rest
            return r :: others
          else a.collect runType (limit + 1) rest
      | none => a.collect runType (limit + 1) rest

/-- Names in the directory of runs, last name first. -/
def names (a : Archive) : Filing (List String) := do
  let all ← Filing.children a.runs
  return all.mergeSort fun x y => decide (y ≤ x)

/-- Runs by name, last name first, of one type or of all. -/
def list (a : Archive) (runType : Json) (limit : Int) : Filing (List SavedRun) := do
  a.collect runType limit.toNat (← a.names)

/-- How many runs a cleanup looks at. -/
def cleanupLimit : Int := 10000

/-- What is left of a list without its first `keep` members; a negative number counts the
members that are left. -/
def dropKept {α : Type} (keep : Int) (xs : List α) : List α :=
  if 0 ≤ keep then xs.drop keep.toNat else xs.drop (xs.length - (-keep).toNat)

/-- Remove some run directories. -/
def removeEach : List SavedRun → Filing Unit
  | [] => return
  | r :: rest => do
      Filing.removeTree r.directory
      removeEach rest

/-- Remove all but the first `keep` runs of a type, or only say which those are. -/
def cleanup (a : Archive) (keep : Int) (runType : Json) (dryRun : Bool) :
    Filing (List Json) := do
  let doomed := dropKept keep (← a.list runType cleanupLimit)
  unless dryRun do removeEach doomed
  return doomed.map (·.metadata.runId)

end Archive

end PrimeSearch
