/-
Module: PrimeSearch.Archive.Clock
Purpose: Dates and times, and a clock that advances by a second whenever it is read.
Main exports: DateTime, DateTime.stamp, DateTime.iso, DateTime.next, Clock, Clock.read,
  Clock.hold
-/
import PrimeSearch.Number.Numeral

namespace PrimeSearch

/-- A date and a time of the day. -/
structure DateTime where
  year : Nat
  month : Nat
  day : Nat
  hour : Nat
  minute : Nat
  second : Nat
deriving Repr, DecidableEq, Inhabited

namespace DateTime

/-- Whether a year has a leap day. -/
def isLeap (year : Nat) : Bool := year % 4 == 0 && (year % 100 != 0 || year % 400 == 0)

/-- Number of days of a month. -/
def daysIn (year month : Nat) : Nat :=
  if month = 2 then (if isLeap year then 29 else 28)
  else if month = 4 ∨ month = 6 ∨ month = 9 ∨ month = 11 then 30
  else 31

/-- The next day at midnight. -/
def nextDay (t : DateTime) : DateTime :=
  if t.day < daysIn t.year t.month then ⟨t.year, t.month, t.day + 1, 0, 0, 0⟩
  else if t.month < 12 then ⟨t.year, t.month + 1, 1, 0, 0, 0⟩
  else ⟨t.year + 1, 1, 1, 0, 0, 0⟩

/-- One second later. -/
def next (t : DateTime) : DateTime :=
  if t.second < 59 then { t with second := t.second + 1 }
  else if t.minute < 59 then { t with minute := t.minute + 1, second := 0 }
  else if t.hour < 23 then { t with hour := t.hour + 1, minute := 0, second := 0 }
  else t.nextDay

/-- A number with leading zeros. -/
def padded (width n : Nat) : String := Numeral.padLeft '0' width (Numeral.ofNat n)

/-- The short form in the names of run directories. -/
def stamp (t : DateTime) : String :=
  padded 4 t.year ++ padded 2 t.month ++ padded 2 t.day ++ "_" ++
    padded 2 t.hour ++ padded 2 t.minute ++ padded 2 t.second

/-- Year, month and day. -/
def date (t : DateTime) : String :=
  padded 4 t.year ++ "-" ++ padded 2 t.month ++ "-" ++ padded 2 t.day

/-- Hour, minute and second. -/
def timeOfDay (t : DateTime) : String :=
  padded 2 t.hour ++ ":" ++ padded 2 t.minute ++ ":" ++ padded 2 t.second

/-- The form in saved values. -/
def iso (t : DateTime) : String := t.date ++ "T" ++ t.timeOfDay

end DateTime

/-- A clock, read a second later every time. -/
structure Clock where
  /-- What the next reading shows. -/
  upcoming : DateTime
  /-- What the latest reading showed. -/
  latest : Option DateTime
deriving Repr, DecidableEq, Inhabited

namespace Clock

/-- Read the clock. -/
def read (c : Clock) : DateTime × Clock := (c.upcoming, ⟨c.upcoming.next, some c.upcoming⟩)

/-- Let the next reading show the same as the latest one. -/
def hold (c : Clock) : Clock := { c with upcoming := c.latest.getD c.upcoming }

end Clock

end PrimeSearch
