/-
Module: PrimeSearch.Cli.Footprint
Purpose: Which places a command may look at or change.
Main exports: Depth, Command.footprint
-/
import PrimeSearch.Cli.Perform

namespace PrimeSearch

/-- How much has to be known about a place: what is there, or also all that is below. -/
inductive Depth where
  | shallow
  | deep
deriving Repr, DecidableEq

/-- Places where saved runs may be kept when the command line names none: beside the
sources of every directory that leads to the working directory, or right there. -/
def defaultPlaces (here : TreePath) : List (TreePath × Depth) :=
  (TreePath.leading here).flatMap fun p =>
    [(p ++ ["src", "primefold"], .shallow), (p ++ ["output", "runs"], .deep)]

/-- The places that a path passes, its end included. -/
def passed (s : Site) (l : Location) : List (TreePath × Depth) :=
  (List.range (l.parts.length + 1)).map fun k =>
    (s.resolve { l with parts := l.parts.take k }, .shallow)

/-- Places of saved runs below a written base directory. -/
def runPlaces (s : Site) : Option String → List (TreePath × Depth)
  | some base =>
      let runs := (Location.ofText base).child "runs"
      passed s runs ++ [(s.resolve runs, .deep)]
  | none => defaultPlaces s.here

/-- The places that lead to a configuration file. -/
def filePlace (s : Site) (path : Option String) : List (TreePath × Depth) :=
  path.toList.flatMap fun text => passed s (.asWritten text)

/-- All places that matter to a command. -/
def Command.footprint (s : Site) : Command → List (TreePath × Depth)
  | .search o => filePlace s o.fitnessConfig ++ if o.save then runPlaces s o.outputDir else []
  | .score o => filePlace s o.fitnessConfig
  | .parse _ _ => []
  | .runs o => runPlaces s o.outputDir

end PrimeSearch
