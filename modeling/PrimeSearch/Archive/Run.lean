/-
Module: PrimeSearch.Archive.Run
Purpose: One saved run: its directory and what is kept there.
Main exports: SavedRun, SavedRun.saveMetadata, SavedRun.saveConfig, SavedRun.saveResults,
  SavedRun.saveCheckpoint, SavedRun.complete
-/
import PrimeSearch.Archive.Site

namespace PrimeSearch

/-- A run directory and the notes about it. -/
structure SavedRun where
  directory : Location
  metadata : RunMetadata
deriving Inhabited

namespace SavedRun

/-- File of the notes. -/
def metadataFile (directory : Location) : Location := directory.child "metadata.json"

/-- File of the settings. -/
def configFile (r : SavedRun) : Location := r.directory.child "config.json"

/-- File of the results. -/
def resultsFile (r : SavedRun) : Location := r.directory.child "results.json"

/-- File of a checkpoint. -/
def checkpointFile (r : SavedRun) (name : String) : Location :=
  (r.directory.child "checkpoints").join ("checkpoint_" ++ name ++ ".json")

/-- File of the log. -/
def logFile (r : SavedRun) : Location := (r.directory.child "logs").child "search.log"

/-- Save the notes. -/
def saveMetadata (r : SavedRun) : Filing Unit :=
  Filing.saveJson (metadataFile r.directory) r.metadata.toJson

/-- Save the settings. -/
def saveConfig (r : SavedRun) (config : Json) : Filing Unit :=
  Filing.saveJson r.configFile config

/-- Load the settings. -/
def loadConfig (r : SavedRun) : Filing Json := Filing.loadJson r.configFile

/-- Save the results with the name of the run and the time. -/
def saveResults (r : SavedRun) (results : List (String × Json)) : Filing Unit := do
  let stamped := Json.put "_run_id" r.metadata.runId results
  let time ← Filing.now
  Filing.saveJson r.resultsFile (.obj (Json.put "_completed_at" (.str time.iso) stamped))

/-- Load the results, if there are any. -/
def loadResults (r : SavedRun) : Filing Json := do
  if ← Filing.contains r.resultsFile then Filing.loadJson r.resultsFile else return .null

/-- Save a checkpoint under a name; the path of its file is given back. -/
def saveCheckpoint (r : SavedRun) (data : Json) (name : String) : Filing Location := do
  Filing.saveJson (r.checkpointFile name) data
  return r.checkpointFile name

/-- Notes of a run that has ended; an empty summary leaves the old one. -/
def completed (m : RunMetadata) (status : String) (time : DateTime) (summary : Json) :
    RunMetadata :=
  { m with
    status := .str status
    completedAt := .str time.iso
    summary := if summary.isTruthy then summary else m.summary }

/-- Record the end of a run.  The run with its new notes is given back together with the
outcome of saving them. -/
def complete (r : SavedRun) (status : String) (summary : Json) :
    StateM Site (Except ArchiveError Unit × SavedRun) := do
  if runStatuses.contains status then
    let time ← modifyGet fun (s : Site) =>
      let (t, clock) := s.clock.read
      (t, { s with clock })
    let r := { r with metadata := completed r.metadata status time summary }
    let outcome ← r.saveMetadata.run
    return (outcome, r)
  else return (.error (.unknownStatus (.str status)), r)

end SavedRun

end PrimeSearch
