/-
Module: PrimeSearch.Proofs.Loop
Purpose: Loops that end after a number of rounds.
Main exports: LoopEnds, LoopEnds.holds
-/

namespace PrimeSearch

/-!
A recursion that counts its rounds down says when it stops at the latest, but not that it would
have stopped by itself.  `LoopEnds` says that: the loop goes round only while its condition holds,
and it has come to a state in which the condition fails.
-/

/-- A loop goes from a state through a number of rounds, and stops as its condition fails. -/
inductive LoopEnds {α : Type} (goes : α → Prop) (round : α → α → Prop) : α → Nat → α → Prop
  | ended {a : α} (stops : ¬goes a) : LoopEnds goes round a 0 a
  | next {a b c : α} {rounds : Nat} (more : goes a) (step : round a b)
      (rest : LoopEnds goes round b rounds c) : LoopEnds goes round a (rounds + 1) c

namespace LoopEnds

variable {α : Type} {goes : α → Prop} {round : α → α → Prop} {a c : α} {rounds : Nat}

/-- The condition fails where a loop ends. -/
theorem stopped (ends : LoopEnds goes round a rounds c) : ¬goes c := by
  induction ends with
  | ended stops => exact stops
  | next _ _ _ ih => exact ih

/-- What every round keeps holds where a loop ends. -/
theorem holds {invariant : α → Prop}
    (kept : ∀ a b, goes a → round a b → invariant a → invariant b)
    (ends : LoopEnds goes round a rounds c) (first : invariant a) : invariant c := by
  induction ends with
  | ended => exact first
  | next more step _ ih => exact ih (kept _ _ more step first)

end LoopEnds

end PrimeSearch
