/-
Module: PrimeSearch.Search.Config
Purpose: The settings of a search, as they are asked for and as they are accepted.
Main exports: SearchRequest, SearchRequestError, SearchConfig, SearchRequest.check,
  SearchRequest.ofFields, SearchConfig.toJson
-/
import PrimeSearch.Json.Misfit
import PrimeSearch.Json.Writer
import PrimeSearch.Search.Operators

namespace PrimeSearch

-- Powers are the core library's, whatever else is imported.
attribute [local instance (high)] instPowNat

/-!
Settings are asked for by any values whatever.  A check turns them into settings of their
own kinds or names the first that does not do.  Accepted settings are saved the way they
were given.
-/

/-- Settings of a search as they are asked for. -/
structure SearchRequest where
  mode : Json := .str Mode.primeGen.name
  algorithm : Json := .str Algorithm.lateAcceptance.name
  maxIterations : Json := .int 1000
  sampleSize : Json := .int 200
  maxDepth : Json := .int 3
  enforceSymmetry : Json := .bool false
  maxAttempts : Json := .int 10
  symmetricRate : Json := .null
  historyLength : Json := .int 50
  populationSize : Json := .int 10
  tournamentSize : Json := .int 3
  randomRate : Json := .real 0.1
  mutationRate : Json := .real 0.3
  startTemperature : Json := .real 10.0
  coolingRate : Json := .real 0.99
deriving Inhabited

/-- Why settings of a search are refused. -/
inductive SearchRequestError where
  | unexpectedField (name : String)
  | invalidMode (given : Json)
  | unknownAlgorithm (given : Json)
  /-- A number of things below the least that makes sense. -/
  | tooSmall (name : String) (least : Nat) (given : Quantity)
  /-- A number of things that is not finite.  Nothing is wrong with it as a setting, but no
  search comes to its end with it, or not even to its beginning: none is described. -/
  | boundless (name : String) (given : Quantity)
  | temperatureNotPositive (given : Quantity)
  | coolingOutOfRange (given : Quantity)
  | rateOutOfRange (name : String) (given : Quantity)
  /-- A value that is no number, or one that cannot be computed with. -/
  | misfit (error : Misfit)
deriving Inhabited

/-- Wording of the error. -/
def SearchRequestError.message : SearchRequestError → String
  | .unexpectedField name =>
      "SearchConfig.__init__() got an unexpected keyword argument " ++ quoted name
  | .invalidMode given => given.literal ++ " is not a valid SearchMode"
  | .unknownAlgorithm given =>
      "Unknown algorithm " ++ given.literal ++ "; expected one of (" ++
        joinWith ", " (Algorithm.names.map quoted) ++ ")"
  | .tooSmall name least given => s!"{name} must be >= {least}, got {given.text}"
  | .boundless name given => s!"{name} must be finite, got {given.text}"
  | .temperatureNotPositive given => "start_temperature must be > 0, got " ++ given.text
  | .coolingOutOfRange given => "cooling_rate must be in (0, 1], got " ++ given.text
  | .rateOutOfRange name given => name ++ " must be in [0, 1], got " ++ given.text
  | .misfit error => error.message

/-- Settings that a search can run with. -/
structure SearchConfig where
  mode : Mode := .primeGen
  algorithm : Algorithm := .lateAcceptance
  maxIterations : Count 0 := .ofNat 1000
  sampleSize : Count 1 := .ofNat 200
  maxDepth : Count 0 := .ofNat 3
  /-- Two functions always are related by a transform, if this counts as a yes. -/
  enforceSymmetry : Json := .bool false
  /-- Tries for a proposal that is new and, where that matters, can be scored. -/
  maxAttempts : Count 1 := .ofNat 10
  /-- Share of changes by a transform; the algorithm's own if not set. -/
  symmetricRate : Option Quantity := none
  historyLength : Count 1 := .ofNat 50
  populationSize : Count 2 := .ofNat 10
  tournamentSize : Count 1 := .ofNat 3
  randomRate : Option Quantity := some (.real 0.1)
  mutationRate : Option Quantity := some (.real 0.3)
  startTemperature : Quantity := .real 10.0
  coolingRate : Quantity := .real 0.99

/-- Whether the genetic algorithm can multiply its tries for one candidate with the size of
its population: a whole number beyond the doubles is not multiplied with a real one. -/
def SearchConfig.hasPatience (c : SearchConfig) : Bool :=
  c.maxAttempts.isWhole && c.populationSize.isWhole ||
    c.maxAttempts.given.isWithinDoubles && c.populationSize.given.isWithinDoubles

namespace SearchRequest

/-- A finite number of things that is not below the least that makes sense. -/
def count (name : String) (least : Nat) (given : Json) :
    Except SearchRequestError (Count least) :=
  match Quantity.ofJson? given with
  | none => .error (.misfit (.unordered "<" given.typeName "int"))
  | some q =>
      if q.isBelow least then .error (.tooSmall name least q)
      else
        match Count.ofQuantity? q with
        | some c => .ok c
        | none => .error (.boundless name q)

/-- A share that may be left open. -/
def rate (name : String) : Json → Except SearchRequestError (Option Quantity)
  | .null => .ok none
  | given => do
      let q ← (given.rightOf "<=").mapError .misfit
      if q.isShare then .ok (some q) else .error (.rateOutOfRange name q)

/-- A temperature above zero. -/
def temperature (given : Json) : Except SearchRequestError Quantity :=
  match Quantity.ofJson? given with
  | none => .error (.misfit (.unordered "<=" given.typeName "int"))
  | some q => if q.isAtMost 0 then .error (.temperatureNotPositive q) else .ok q

/-- A factor above zero and at most one. -/
def cooling (given : Json) : Except SearchRequestError Quantity := do
  let q ← (given.rightOf "<").mapError .misfit
  if q.isAbove 0 && q.isAtMost 1 then .ok q else .error (.coolingOutOfRange q)

/-- The mode that a value names. -/
def checkMode (given : Json) : Except SearchRequestError Mode :=
  match given with
  | .str text =>
      match Mode.ofName? text with
      | some mode => .ok mode
      | none => .error (.invalidMode given)
  | _ => .error (.invalidMode given)

/-- The algorithm that a value names. -/
def checkAlgorithm (given : Json) : Except SearchRequestError Algorithm :=
  match given with
  | .str text =>
      match Algorithm.ofName? text with
      | some algorithm => .ok algorithm
      | none => .error (.unknownAlgorithm given)
  | _ => .error (.unknownAlgorithm given)

/-- Accept settings, or name the first that is not as it should be.  Last of all settings are
refused with which no genetic search can be begun. -/
def check (r : SearchRequest) : Except SearchRequestError SearchConfig := do
  let mode ← checkMode r.mode
  let algorithm ← checkAlgorithm r.algorithm
  let maxIterations ← count "max_iterations" 0 r.maxIterations
  let sampleSize ← count "sample_size" 1 r.sampleSize
  let maxAttempts ← count "max_attempts" 1 r.maxAttempts
  let historyLength ← count "history_length" 1 r.historyLength
  let tournamentSize ← count "tournament_size" 1 r.tournamentSize
  let populationSize ← count "population_size" 2 r.populationSize
  let maxDepth ← count "max_depth" 0 r.maxDepth
  let startTemperature ← temperature r.startTemperature
  let coolingRate ← cooling r.coolingRate
  let randomRate ← rate "random_rate" r.randomRate
  let mutationRate ← rate "mutation_rate" r.mutationRate
  let symmetricRate ← rate "symmetric_rate" r.symmetricRate
  let config : SearchConfig := {
    mode, algorithm, maxIterations, sampleSize, maxDepth
    enforceSymmetry := r.enforceSymmetry
    maxAttempts, symmetricRate, historyLength, populationSize, tournamentSize, randomRate,
    mutationRate, startTemperature, coolingRate }
  if algorithm = .genetic ∧ !config.hasPatience then .error (.misfit .numberTooLarge)
  else return config

/-- Change one setting by name. -/
def withField (r : SearchRequest) (field : String × Json) :
    Except SearchRequestError SearchRequest :=
  let (name, value) := field
  match name with
  | "mode" => .ok { r with mode := value }
  | "algorithm" => .ok { r with algorithm := value }
  | "max_iterations" => .ok { r with maxIterations := value }
  | "sample_size" => .ok { r with sampleSize := value }
  | "max_depth" => .ok { r with maxDepth := value }
  | "enforce_symmetry" => .ok { r with enforceSymmetry := value }
  | "max_attempts" => .ok { r with maxAttempts := value }
  | "symmetric_rate" => .ok { r with symmetricRate := value }
  | "history_length" => .ok { r with historyLength := value }
  | "population_size" => .ok { r with populationSize := value }
  | "tournament_size" => .ok { r with tournamentSize := value }
  | "random_rate" => .ok { r with randomRate := value }
  | "mutation_rate" => .ok { r with mutationRate := value }
  | "start_temperature" => .ok { r with startTemperature := value }
  | "cooling_rate" => .ok { r with coolingRate := value }
  | other => .error (.unexpectedField other)

/-- Settings given by name; whatever is not mentioned keeps its default. -/
def ofFields (fields : List (String × Json)) : Except SearchRequestError SearchConfig := do
  let request ← fields.foldlM withField {}
  request.check

end SearchRequest

namespace SearchConfig

/-- The operators of a search. -/
def operators (c : SearchConfig) : Operators :=
  Operators.new c.mode c.maxDepth.value c.enforceSymmetry.isTruthy

/-- Whether a search cannot compute with its temperature: annealing that starts at a whole
number beyond the doubles. -/
def isTooHot (c : SearchConfig) : Bool :=
  decide (c.algorithm = .annealing) && !c.startTemperature.isWithinDoubles

/-- Share of changes by a transform that an algorithm uses of its own accord. -/
def defaultSymmetricRate : Algorithm → Float
  | .lateAcceptance => 0.20
  | .genetic | .annealing => 0.15

/-- Share of changes by a transform. -/
def effectiveSymmetricRate (c : SearchConfig) : Float :=
  (c.symmetricRate.map Quantity.toFloat).getD (defaultSymmetricRate c.algorithm)

/-- How many failures end the making of a population or a generation: the tries for one
candidate times the size of the population.  A product of real numbers is rounded to a
double, but not beyond what both come to when they are rounded up. -/
def patience (c : SearchConfig) : Nat :=
  let bound := c.maxAttempts.value * c.populationSize.value
  if c.maxAttempts.isWhole && c.populationSize.isWhole then bound
  else
    let product := c.maxAttempts.given.toFloat * c.populationSize.given.toFloat
    min bound ((Quantity.real product).ceiling bound)

/-- A quantity, or null. -/
def quantityJson : Option Quantity → Json
  | some q => q.toJson
  | none => .null

/-- Settings as they are saved. -/
def toJson (c : SearchConfig) : Json :=
  .obj [("mode", .str c.mode.name), ("algorithm", .str c.algorithm.name),
    ("max_iterations", c.maxIterations.given.toJson),
    ("sample_size", c.sampleSize.given.toJson), ("max_depth", c.maxDepth.given.toJson),
    ("enforce_symmetry", c.enforceSymmetry),
    ("max_attempts", c.maxAttempts.given.toJson),
    ("symmetric_rate", quantityJson c.symmetricRate),
    ("history_length", c.historyLength.given.toJson),
    ("population_size", c.populationSize.given.toJson),
    ("tournament_size", c.tournamentSize.given.toJson),
    ("random_rate", quantityJson c.randomRate), ("mutation_rate", quantityJson c.mutationRate),
    ("start_temperature", c.startTemperature.toJson), ("cooling_rate", c.coolingRate.toJson)]

end SearchConfig

end PrimeSearch
