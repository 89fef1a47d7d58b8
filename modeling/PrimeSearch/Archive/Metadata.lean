/-
Module: PrimeSearch.Archive.Metadata
Purpose: What is noted about a saved run.
Main exports: runStatuses, RunMetadata, RunMetadata.toJson, RunMetadata.ofJson,
  MetadataError
-/
import PrimeSearch.Json.Writer

namespace PrimeSearch

/-- States of a saved run that may be recorded. -/
def runStatuses : List String := ["running", "completed", "stopped", "failed"]

/-- Notes about a saved run.  They are kept in files that anyone may edit, and a value of
an unexpected kind is carried along as it was found. -/
structure RunMetadata where
  runId : Json
  runType : Json
  description : Json
  createdAt : Json
  completedAt : Json := .null
  status : Json := .str "running"
  /-- Whatever was found worth noting at the end. -/
  summary : Json := .null
  tags : Json := .null
deriving Inhabited

/-- Why a value cannot be read as metadata. -/
inductive MetadataError where
  | noFields (kind : String)
  | missing (names : List String)
deriving Repr, DecidableEq

namespace MetadataError

/-- Names in a sentence. -/
def enumerated : List String → String
  | [] => ""
  | [a] => a
  | [a, b] => a ++ " and " ++ b
  | names =>
      joinWith ", " names.dropLast ++ ", and " ++ (names.getLast?.getD "")

/-- Wording of the error. -/
def message : MetadataError → String
  | .noFields kind => "'" ++ kind ++ "' object has no attribute 'items'"
  | .missing names =>
      let noun := if names.length = 1 then "argument" else "arguments"
      s!"RunMetadata.__init__() missing {names.length} required positional {noun}: " ++
        enumerated (names.map quoted)

end MetadataError

namespace RunMetadata

/-- Metadata as it is saved. -/
def toJson (m : RunMetadata) : Json :=
  .obj [("run_id", m.runId), ("run_type", m.runType), ("description", m.description),
    ("created_at", m.createdAt), ("completed_at", m.completedAt), ("status", m.status),
    ("summary", m.summary), ("tags", m.tags)]

/-- Fields that metadata cannot do without. -/
def required : List String := ["run_id", "run_type", "description", "created_at"]

/-- Read metadata; fields with other names are ignored. -/
def ofJson (j : Json) : Except MetadataError RunMetadata :=
  match j with
  | .obj _ =>
      match required.filter fun name => (j.get? name).isNone with
      | [] =>
          let field (name : String) : Json := (j.get? name).getD .null
          .ok {
            runId := field "run_id"
            runType := field "run_type"
            description := field "description"
            createdAt := field "created_at"
            completedAt := field "completed_at"
            status := (j.get? "status").getD (.str "running")
            summary := field "summary"
            tags := field "tags" }
      | names => .error (.missing names)
  | j => .error (.noFields j.typeName)

/-- Short form for lists and messages. -/
def label (m : RunMetadata) : String :=
  "Run(" ++ m.runId.display ++ ", type=" ++ m.runType.display ++ ", status=" ++
    m.status.display ++ ")"

end RunMetadata

end PrimeSearch
