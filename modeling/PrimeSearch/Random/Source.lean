/-
Module: PrimeSearch.Random.Source
Purpose: The source of randomness of a search as a plain value: numbers laid out in
  advance, then a seeded generator.
Main exports: Source, Source.next, Seeding, Draw, Draw.unit, Draw.between, Draw.index,
  Draw.integer, Draw.choose
-/
import PrimeSearch.Number.Binary64

namespace PrimeSearch

-- Powers are the core library's, whatever else is imported.
attribute [local instance (high)] instPowNat

/-!
Every random decision of a search takes one number of the unit interval from a source.
A computation that needs randomness is a `Draw`, a state computation over the source, so
equal sources give equal decisions.
-/

/-- A source of numbers in `[0, 1)`.  Scripted numbers are used up first. -/
structure Source where
  /-- Numbers still to be used before the generator is asked. -/
  script : List Float
  /-- State of the generator. -/
  state : UInt64
  /-- How many numbers have been taken so far. -/
  used : Nat
deriving Repr, Inhabited

namespace Source

/-- The source that starts from a seed, of which the last 64 bits count. -/
def ofSeed (seed : Int) : Source := ⟨[], UInt64.ofNat (seed % 2 ^ (64 : Nat)).toNat, 0⟩

/-- Replace the scripted numbers that have not been used yet. -/
def withScript (s : Source) (script : List Float) : Source := { s with script }

/-- Increment of the generator's state. -/
def increment : UInt64 := 0x9E3779B97F4A7C15

/-- Output of the generator for a state. -/
def scramble (state : UInt64) : UInt64 :=
  let z := (state ^^^ (state >>> 30)) * 0xBF58476D1CE4E5B9
  let z := (z ^^^ (z >>> 27)) * 0x94D049BB133111EB
  z ^^^ (z >>> 31)

/-- Take the next number: a scripted one, or the top 53 bits of the generator's output as
a fraction. -/
def next (s : Source) : Float × Source :=
  match s.script with
  | u :: rest => (u, { s with script := rest, used := s.used + 1 })
  | [] =>
      let state := s.state + increment
      let bits := (scramble state >>> 11).toNat
      (Binary64.ofScaled false bits (-53), { s with state, used := s.used + 1 })

end Source

/-- A seed that no source starts from. -/
structure SeedError where
deriving Repr, DecidableEq

/-- Wording of the error. -/
def SeedError.message (_ : SeedError) : String := "expected non-negative integer"

/-- How a source starts from a seed, or without one.  The source of a program is not made
here, so which seeds will do is for its surroundings to say. -/
abbrev Seeding := Option Int → Except SeedError Source

namespace Seeding

/-- Every seed will do; without one a source starts from zero. -/
def all : Seeding := fun seed => .ok (.ofSeed (seed.getD 0))

/-- Only a seed that is not negative will do. -/
def natural : Seeding := fun seed => if seed.getD 0 < 0 then .error {} else all seed

end Seeding

/-- A computation that draws from a source. -/
abbrev Draw (α : Type) := StateM Source α

namespace Draw

/-- A number of the unit interval. -/
def unit : Draw Float := modifyGet Source.next

/-- A number between two bounds. -/
def between (low high : Float) : Draw Float := do
  let u ← unit
  return low + (high - low) * u

/-- The index below `n` that a number of the unit interval falls on. -/
def indexOf (n : Nat) (u : Float) : Nat :=
  min ((Binary64.floorInt? (u * Binary64.ofInt n)).getD 0).toNat (n - 1)

theorem indexOf_lt {n : Nat} (h : 0 < n) (u : Float) : indexOf n u < n := by
  unfold indexOf
  omega

/-- An index below a positive bound. -/
def index (n : Nat) (h : 0 < n) : Draw (Fin n) := do
  let u ← unit
  return ⟨indexOf n u, indexOf_lt h u⟩

/-- One of the `count` integers from `low` on. -/
def integer (low : Int) (count : Nat) (h : 0 < count) : Draw Int := do
  let i ← index count h
  return low + i.val

/-- A member of a non-empty list. -/
def choose {α : Type} (options : List α) (h : 0 < options.length) : Draw α := do
  let i ← index options.length h
  return options[i]

/-- Whether a fresh number lies below a bound. -/
def below (bound : Float) : Draw Bool := do
  let u ← unit
  return decide (u < bound)

end Draw

end PrimeSearch
