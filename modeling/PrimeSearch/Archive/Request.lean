/-
Module: PrimeSearch.Archive.Request
Purpose: What an archive and its runs are asked for in values of any kind.
Main exports: Archive.openFor, Archive.createFor, Archive.getFor, Archive.listFor,
  Archive.cleanupFor, SavedRun.saveResultsFor, SavedRun.completeFor
-/
import PrimeSearch.Archive.Basic

namespace PrimeSearch

/-!
Everything an archive is told may come as a structured value.  A request does as much as its
values allow, in the order of the work, before it ends in a misfit.
-/

namespace Archive

/-- Break off a request. -/
def unfit {α : Type} (m : Misfit) : Filing α := throw (.misfit m)

/-- Use a base directory; null stands for the usual one. -/
def openFor (base : Json) : Filing Archive :=
  match base with
  | .null => Archive.open none
  | .str text => Archive.open (some (.ofText text))
  | j => unfit (.notAPath j.typeName)

/-- Make a run directory.  The time is taken before the description is looked at. -/
def createFor (a : Archive) (runType description config tags : Json) : Filing SavedRun :=
  match description with
  | .str text => a.create runType text config tags
  | j => do
      let _ ← Filing.now
      unfit (.noMember j.typeName "replace")

/-- The run of a given name. -/
def getFor (a : Archive) (runId : Json) : Filing (Option SavedRun) :=
  match runId with
  | .str name => a.get? name
  | j => unfit (.notJoinable j.typeName)

/-- Runs of one type or of all.  A limit is only looked at where there is anything. -/
def listFor (a : Archive) (runType limit : Json) : Filing (List SavedRun) := do
  let names ← a.names
  match Quantity.ofJson? limit with
  | some q => a.collect runType (q.ceiling names.length) names
  | none =>
      if names.isEmpty then return []
      else unfit (.unordered ">=" "int" limit.typeName)

/-- How many of `count` members a slice leaves out at the front; null stands for none. -/
def keptFor (keep : Json) : Except Misfit Int :=
  match keep with
  | .null => .ok 0
  | j =>
      match (Quantity.ofJson? j).bind Quantity.whole? with
      | some n => .ok n
      | none => .error .notAPlace

/-- Remove all but the first runs of a type, or only say which those are. -/
def cleanupFor (a : Archive) (keep runType : Json) (dryRun : Bool) : Filing (List Json) :=
  match keptFor keep with
  | .ok n => a.cleanup n runType dryRun
  | .error e => do
      let _ ← a.list runType cleanupLimit
      unfit e

end Archive

namespace SavedRun

/-- Name of a field that is given as a value. -/
def fieldName : Json → Except Misfit String
  | .str s => .ok s
  | .int n => .ok (Numeral.ofInt n)
  | .real x => .ok (Numeral.shortest x)
  | .bool b => .ok (if b then "true" else "false")
  | .null => .ok "null"
  | j => .error (.notHashable j.typeName)

/-- The field that the member of a list at some place stands for: it has to be a pair. -/
def pairOf (place : Nat) (j : Json) : Except Misfit (String × Json) :=
  let members : Option (List Json) :=
    match j with
    | .arr items => some items
    | .obj fields => some (fields.map fun (name, _) => .str name)
    | .str s => some ((characters s.toList).map fun c => .str (String.ofList c))
    | _ => none
  match members with
  | some [name, value] => (fieldName name).map (·, value)
  | some others => .error (.notAPair place others.length)
  | none => .error (.notASequence place)

/-- The fields that the members of a list stand for; those at the front were read. -/
def pairsOf : Nat → List Json → Except Misfit (List (String × Json))
  | _, [] => .ok []
  | place, j :: rest => do
      let first ← pairOf place j
      return first :: (← pairsOf (place + 1) rest)

/-- The fields that a value stands for: an object has some, and a list of pairs or an empty
text will do. -/
def fieldsFor (j : Json) : Except Misfit (List (String × Json)) :=
  match j with
  | .obj fields => .ok fields
  | .arr items => do
      let pairs ← pairsOf 0 items
      return pairs.foldl (fun fields (name, value) => Json.put name value fields) []
  | .str s =>
      if s = "" then .ok [] else .error (.notAPair 0 1)
  | j => .error (.notIterable j.typeName)

/-- Save the results, whatever fields they stand for. -/
def saveResultsFor (r : SavedRun) (results : Json) : Filing Unit :=
  match fieldsFor results with
  | .ok fields => r.saveResults fields
  | .error e => throw (.misfit e)

/-- Record the end of a run with a status of any kind. -/
def completeFor (r : SavedRun) (status summary : Json) :
    StateM Site (Except ArchiveError Unit × SavedRun) :=
  match status with
  | .str name => r.complete name summary
  | j => return (.error (.unknownStatus j), r)

end SavedRun

end PrimeSearch
