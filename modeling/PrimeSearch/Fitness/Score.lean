/-
Module: PrimeSearch.Fitness.Score
Purpose: The fitness of a candidate.
Main exports: Score, Score.zero, Score.toJson, effective
-/
import PrimeSearch.Json.Basic

namespace PrimeSearch

/-- Fitness of a candidate: the total that a search maximises and what it was made of. -/
structure Score where
  total : Float
  /-- Named parts, in the order in which they are shown. -/
  components : List (String × Float)
  /-- Whether the candidate could be scored at all. -/
  valid : Bool
deriving Inhabited

namespace Score

/-- The score of a candidate that could not be scored. -/
def zero (names : List String) : Score := ⟨0.0, names.map fun name => (name, 0.0), false⟩

/-- A score as it is saved. -/
def toJson (s : Score) : Json :=
  .obj [("total", .real s.total),
    ("components", .obj (s.components.map fun (name, value) => (name, .real value))),
    ("valid", .bool s.valid)]

/-- A score, if there is one, as it is saved. -/
def toJson? : Option Score → Json
  | some s => s.toJson
  | none => .null

end Score

/-- Fitness for comparisons: below everything when there is no valid score. -/
def effective : Option Score → Float
  | some s => if s.valid then s.total else -Binary64.infinity
  | none => -Binary64.infinity

end PrimeSearch
