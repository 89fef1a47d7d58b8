/-
Module: PrimeSearch.Cli.Log
Purpose: What the program notes about its work.
Main exports: Severity, LogEntry, LogEntry.fileLine, LogEntry.consoleLine
-/
import PrimeSearch.Archive.Clock
import PrimeSearch.Search.Controller

namespace PrimeSearch

/-- How important an entry of the log is. -/
inductive Severity where
  | debug
  | info
deriving Repr, DecidableEq

/-- Name of a severity. -/
def Severity.name : Severity → String
  | .debug => "DEBUG"
  | .info => "INFO"

/-- An entry of the log. -/
structure LogEntry where
  severity : Severity
  /-- The part of the program that the entry is about. -/
  topic : String
  message : String
deriving Repr, DecidableEq

namespace LogEntry

/-- Width of the column of severities in a log file. -/
def severityWidth : Nat := 8

/-- An entry in a log file. -/
def fileLine (time : DateTime) (e : LogEntry) : String :=
  joinWith " | " [time.date ++ " " ++ time.timeOfDay,
    Numeral.padRight severityWidth e.severity.name, e.topic, e.message]

/-- An entry on the console. -/
def consoleLine (e : LogEntry) : String := e.severity.name ++ ": " ++ e.message

/-- The oracle has run its sieve. -/
def sieved (s : Sieving) : LogEntry where
  severity := .debug
  topic := "primefold.core.sieve"
  message := s!"Pre-cached {s.count} primes up to {s.limit}"

/-- An evaluator is being made. -/
def makingEvaluator (mode : Mode) (sampleSize : Quantity) : LogEntry where
  severity := .debug
  topic := "primefold.discovery.context"
  message := s!"Creating {mode.name} evaluator with sample size {sampleSize.truncated 0}"

/-- A search begins. -/
def starting (c : SearchConfig) : LogEntry where
  severity := .info
  topic := "primefold.discovery.controller"
  message := s!"Starting {c.algorithm.name} search ({c.mode.name}, {c.maxIterations.given.truncated 0} iterations)"

/-- A search has ended. -/
def ended (r : SearchResult) : LogEntry where
  severity := .info
  topic := "primefold.discovery.controller"
  message :=
    let best := Numeral.fixed 4 (r.bestTotal.getD Binary64.nan)
    s!"Search {r.status.name} after {r.iterations} iterations: best {best} for {r.best}"

/-- A text is no expression. -/
def unparsable (text : String) (error : ParseError) : LogEntry where
  severity := .debug
  topic := "primefold.expression.parser"
  message := s!"Failed to parse {quoted text}: {error.message}"

/-- Counters of the oracle. -/
def oracleUse (s : OracleStats) : LogEntry where
  severity := .debug
  topic := "primefold"
  message := s!"Prime cache: {s.toJson.literal}"

end LogEntry

end PrimeSearch
