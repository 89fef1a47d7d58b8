/-
Module: PrimeSearch.Fitness.Config
Purpose: Which measures a fold is scored by and with what weight, and how settings are
  read from structured values.
Main exports: Metric, MetricSettings, ConfigError, FitnessConfig, FitnessConfig.ofJson,
  FitnessConfig.toJson
-/
import PrimeSearch.Json.Misfit
import PrimeSearch.Json.Reader

namespace PrimeSearch

/-- The measures a fold is scored by. -/
inductive Metric where
  | areaCoverage | separation | contrast | significance | specificity
deriving Repr, DecidableEq, Inhabited

namespace Metric

/-- All measures in the order of scoring. -/
def all : List Metric := [.areaCoverage, .separation, .contrast, .significance, .specificity]

/-- Name of a measure. -/
def name : Metric → String
  | .areaCoverage => "area_coverage"
  | .separation => "separation"
  | .contrast => "contrast"
  | .significance => "significance"
  | .specificity => "specificity"

/-- Names of all measures. -/
def names : List String := all.map name

/-- The measure that a name in a configuration stands for; coverage has three
spellings. -/
def ofName? (text : String) : Option Metric :=
  if text = "areaCoverage" ∨ text = "area" then some .areaCoverage
  else all.find? (·.name = text)

end Metric

/-- Why a fitness configuration is refused. -/
inductive ConfigError where
  | negativeWeight (given : Quantity)
  | thresholdOutOfRange (given : Quantity)
  | unknownMetric (name : String)
  | noSettings (name : String)
  /-- A value that is no number, or a configuration that has no fields at all. -/
  | misfit (error : Misfit)
  | malformedText (error : Json.ReadError)
deriving Inhabited

/-- Wording of a configuration error. -/
def ConfigError.message : ConfigError → String
  | .negativeWeight given => "weight must be >= 0, got " ++ given.text
  | .thresholdOutOfRange given => "threshold must be in [0, 1], got " ++ given.text
  | .unknownMetric name => "Unknown fitness metric: " ++ quoted name
  | .noSettings name => "Settings for " ++ quoted name ++ " must be a mapping"
  | .misfit error => error.message
  | .malformedText error => error.message

/-- Whether an error is about the values in a configuration.  The others are about its
form, and the command line does not expect them. -/
def ConfigError.isExpected : ConfigError → Bool
  | .misfit error => error.concern = .value
  | _ => true

/-- Settings of one measure. -/
structure MetricSettings where
  enabled : Bool
  weight : Float
  /-- Least value, for the measures that have one. -/
  threshold : Option Float
deriving Inhabited

namespace MetricSettings

/-- Check the numbers of a measure's settings. -/
def make (enabled : Bool) (weight : Quantity) (threshold : Option Quantity) :
    Except ConfigError MetricSettings :=
  if weight.isBelow 0 then .error (.negativeWeight weight)
  else
    match threshold with
    | none => .ok ⟨enabled, weight.toFloat, none⟩
    | some t =>
        if t.isShare then .ok ⟨enabled, weight.toFloat, some t.toFloat⟩
        else .error (.thresholdOutOfRange t)

/-- Settings made of values of any kind; the threshold may be null. -/
def ofValues (enabled : Bool) (weight threshold : Json) : Except ConfigError MetricSettings :=
  match Quantity.ofJson? weight, Quantity.ofJson? threshold, threshold with
  | some w, some t, _ => make enabled w (some t)
  | some w, none, .null => make enabled w none
  | some w, none, t => do
      let _ ← make enabled w none
      throw (.misfit (.unordered "<=" "float" t.typeName))
  | none, _, _ => .error (.misfit (.unordered "<" weight.typeName "int"))

/-- The number that a setting gives. -/
def number (j : Json) : Except ConfigError Float := j.number.mapError .misfit

/-- Settings with some fields replaced. -/
def merged (s : MetricSettings) (overrides : List (String × Json)) :
    Except ConfigError MetricSettings := do
  let enabled := ((Json.lookup "enabled" overrides).map Json.isTruthy).getD s.enabled
  let weight ←
    match Json.lookup "weight" overrides with
    | none => pure s.weight
    | some j => number j
  let threshold ←
    match Json.lookup "threshold" overrides with
    | none => pure s.threshold
    | some .null => pure none
    | some j => some <$> number j
  make enabled (.real weight) (threshold.map .real)

/-- Settings as they are saved. -/
def toJson (s : MetricSettings) : Json :=
  .obj [("enabled", .bool s.enabled), ("weight", .real s.weight),
    ("threshold", Json.ofReal? s.threshold)]

end MetricSettings

/-- Settings of all measures. -/
structure FitnessConfig where
  settings : Metric → MetricSettings

namespace FitnessConfig

/-- Coverage below which a fold is scored on coverage alone, unless set otherwise. -/
def defaultAreaThreshold : Float := 0.15

/-- The settings that apply where nothing is configured. -/
def default : FitnessConfig where
  settings
    | .areaCoverage => ⟨true, 0.50, some defaultAreaThreshold⟩
    | .separation => ⟨true, 0.25, none⟩
    | .contrast => ⟨true, 0.20, none⟩
    | .significance => ⟨true, 0.10, none⟩
    | .specificity => ⟨true, 0.05, none⟩

instance : Inhabited FitnessConfig := ⟨default⟩

/-- Coverage below which a fold is scored on coverage alone. -/
def areaThreshold (c : FitnessConfig) : Float :=
  (c.settings .areaCoverage).threshold.getD defaultAreaThreshold

/-- The measures that are enabled, in the order of scoring. -/
def enabledMetrics (c : FitnessConfig) : List Metric :=
  Metric.all.filter fun m => (c.settings m).enabled

/-- Change the settings of one measure. -/
def set (c : FitnessConfig) (m : Metric) (s : MetricSettings) : FitnessConfig :=
  ⟨fun k => if k = m then s else c.settings k⟩

/-- Apply one field of a configuration. -/
def configure (c : FitnessConfig) (field : String × Json) : Except ConfigError FitnessConfig :=
  match Metric.ofName? field.1 with
  | none => .error (.unknownMetric field.1)
  | some m =>
      match field.2 with
      | .obj overrides => return c.set m (← (c.settings m).merged overrides)
      | _ => .error (.noSettings field.1)

/-- Read a configuration; what it does not mention keeps its default, and an empty value
is no configuration. -/
def ofJson (j : Json) : Except ConfigError FitnessConfig :=
  if j.isTruthy then
    match j with
    | .obj fields => fields.foldlM configure default
    | j => .error (.misfit (.noMember j.typeName "items"))
  else .ok default

/-- Read a configuration from the contents of a file. -/
def ofText (contents : String) : Except ConfigError FitnessConfig :=
  match Json.readFile contents with
  | .ok j => ofJson j
  | .error e => .error (.malformedText e)

/-- A configuration as it is saved. -/
def toJson (c : FitnessConfig) : Json :=
  .obj (Metric.all.map fun m => (m.name, (c.settings m).toJson))

end FitnessConfig

end PrimeSearch
