/-
Module: PrimeSearch.Proofs.Random.Stream
Purpose: What a source yields, and what computations that draw do to it.
Main exports: InUnit, Source.Fair, Source.Leads, Draw.Advances, Draw.Yields
-/
import Mathlib.Logic.Function.Iterate
import PrimeSearch.Random.Source
import PrimeSearch.Proofs.Number.Rounding
import PrimeSearch.Proofs.Number.Order

namespace PrimeSearch

open Binary64

/-- A number of the unit interval, one left out. -/
def InUnit (u : Float) : Prop := 0.0 ≤ u ∧ u < 1.0

namespace Source

/-!
A source is fair when its scripted numbers are numbers of the unit interval; those of the
generator always are.  Whatever draws from a source only ever takes numbers off it, so a fair
source stays fair.
-/

/-- All that is scripted lies in the unit interval. -/
def Fair (s : Source) : Prop := ∀ u ∈ s.script, InUnit u

/-- The source after one number was taken. -/
def advance (s : Source) : Source := s.next.2

/-- Some numbers taken off the first source leave the second. -/
def Leads (s t : Source) : Prop := ∃ count, t = advance^[count] s

theorem Leads.refl (s : Source) : s.Leads s := ⟨0, rfl⟩

theorem Leads.next (s : Source) : s.Leads s.next.2 := ⟨1, rfl⟩

theorem Leads.trans {s t u : Source} (first : s.Leads t) (second : t.Leads u) : s.Leads u := by
  obtain ⟨m, rfl⟩ := first
  obtain ⟨n, rfl⟩ := second
  exact ⟨n + m, (Function.iterate_add_apply advance n m s).symm⟩

/-! ### Numbers of the unit interval -/

/-- A multiple of the spacing of the generator is a double as it stands. -/
theorem decode_ofScaled {bits : Nat} (positive : 0 < bits) (short : bits < 2 ^ 53) :
    decode (ofScaled false bits (-53)) =
      .finite false (bits * 2 ^ (52 - bits.log2)) ((bits.log2 : Int) - 105) := by
  obtain ⟨digits, full, width⟩ := shifted_up positive short
  have scaled : (bits : ℚ) / (2 ^ 53 : Nat) / 2 ^ ((bits.log2 : Int) - 105) =
      (bits * 2 ^ (52 - bits.log2) : Nat) := by
    obtain ⟨k, hk⟩ : ∃ k, 52 - bits.log2 = k := ⟨_, rfl⟩
    rw [hk, show (bits.log2 : Int) - 105 = -53 - (k : Int) by omega, zpow_sub₀ two_ne_zero]
    push_cast
    rw [zpow_natCast]
    field_simp
    norm_num
  change decode (ofRatio false bits (2 ^ 53)) = _
  apply decode_ofRatio_of_contains
  · exact ⟨width, by simp only [minExponent]; omega, by omega, .inl full⟩
  · positivity
  · positivity
  · rw [scaled]
    exact contains_value _ (by positivity)

/-- The generator yields numbers of the unit interval. -/
theorem inUnit_ofScaled {bits : Nat} (short : bits < 2 ^ 53) :
    InUnit (ofScaled false bits (-53)) := by
  have zero : decode 0.0 = .finite false 0 minExponent := by decide
  have one : decode 1.0 = .finite false (2 ^ 52) (-52) := by decide
  rcases Nat.eq_zero_or_pos bits with rfl | positive
  · unfold InUnit
    decide
  · have value := decode_ofScaled positive short
    have canonical := canonical_decode (ofScaled false bits (-53))
    have digits : bits.log2 < 53 := (Nat.log2_lt positive.ne').mpr short
    rw [value] at canonical
    obtain ⟨width, -⟩ := canonical
    constructor
    · rw [le_iff, zero, value]
      refine ⟨by simp, by simp, ?_⟩
      rw [key, key, zero, value]
      simp only [Value.key, Value.negative, Value.magnitude, minExponent, fractionBits,
        Bool.false_eq_true, if_false]
      omega
    · rw [lt_iff, value, one]
      refine ⟨by simp, by simp, ?_⟩
      rw [key, key, value, one]
      simp only [Value.key, Value.negative, Value.magnitude, minExponent, fractionBits,
        Bool.false_eq_true, if_false]
      omega

/-- A fair source yields a number of the unit interval. -/
theorem Fair.next {s : Source} (fair : s.Fair) : InUnit s.next.1 := by
  unfold Source.next
  split
  next u rest script =>
    apply fair
    rw [script]
    exact List.mem_cons_self
  · apply inUnit_ofScaled
    have bound := (scramble (s.state + increment)).toNat_lt
    rw [UInt64.toNat_shiftRight, Nat.shiftRight_eq_div_pow,
      show UInt64.toNat 11 % 64 = 11 from rfl]
    omega

theorem script_advance (s : Source) : s.advance.script = s.script.tail := by
  obtain ⟨script, state, used⟩ := s
  cases script <;> rfl

theorem Fair.advance {s : Source} (fair : s.Fair) : s.advance.Fair := by
  intro u listed
  rw [script_advance] at listed
  exact fair u (List.mem_of_mem_tail listed)

/-- What is taken off a fair source leaves it fair. -/
theorem Fair.leads {s t : Source} (fair : s.Fair) (taken : s.Leads t) : t.Fair := by
  obtain ⟨count, rfl⟩ := taken
  induction count with
  | zero => exact fair
  | succ count ih =>
      rw [Function.iterate_succ_apply']
      exact ih.advance

end Source

/-! ### Computations that draw -/

namespace Draw

variable {α β : Type}

/-- A computation only ever takes numbers off its source. -/
def Advances (d : Draw α) : Prop := ∀ s : Source, s.Leads (d.run s).2

theorem Advances.pure (a : α) : Advances (Pure.pure a : Draw α) := fun s => .refl s

theorem Advances.bind {d : Draw α} {f : α → Draw β} (first : Advances d)
    (rest : ∀ a, Advances (f a)) : Advances (d >>= f) :=
  fun s => (first s).trans (rest _ _)

theorem Advances.ite {c : Prop} [Decidable c] {d e : Draw α} (yes : c → Advances d)
    (no : ¬c → Advances e) : Advances (if c then d else e) := by
  split
  next holds => exact yes holds
  next fails => exact no fails

theorem Advances.unit : Advances unit := fun s => .next s

theorem Advances.between (low high : Float) : Advances (between low high) :=
  .bind .unit fun _ => .pure _

theorem Advances.index (n : Nat) (positive : 0 < n) : Advances (index n positive) :=
  .bind .unit fun _ => .pure _

theorem Advances.integer (low : Int) (count : Nat) (positive : 0 < count) :
    Advances (integer low count positive) :=
  .bind (.index count positive) fun _ => .pure _

theorem Advances.choose (options : List α) (some : 0 < options.length) :
    Advances (choose options some) :=
  .bind (.index options.length some) fun _ => .pure _

theorem Advances.below (bound : Float) : Advances (below bound) :=
  .bind .unit fun _ => .pure _

/-! ### What is drawn

What is made of the numbers that are drawn often is settled by how it is made, whatever the numbers.
-/

/-- Whatever the source, the result is as `Q` says. -/
def Yields (d : Draw α) (Q : α → Prop) : Prop := ∀ source : Source, Q (d.run source).1

namespace Yields

variable {Q : α → Prop} {R : β → Prop}

theorem pure {a : α} (result : Q a) : (Pure.pure a : Draw α).Yields Q := fun _ => result

theorem any (d : Draw α) : d.Yields fun _ => True := fun _ => trivial

theorem mono {d : Draw α} {Q' : α → Prop} (yields : d.Yields Q) (weaker : ∀ a, Q a → Q' a) :
    d.Yields Q' := fun source => weaker _ (yields source)

theorem bind {d : Draw β} {f : β → Draw α} (first : d.Yields R)
    (rest : ∀ b, R b → (f b).Yields Q) : (d >>= f).Yields Q :=
  fun source => rest _ (first source) _

theorem ite {c : Prop} [Decidable c] {d e : Draw α} (yes : c → d.Yields Q)
    (no : ¬c → e.Yields Q) : (if c then d else e).Yields Q := by
  split
  next holds => exact yes holds
  next fails => exact no fails

/-- A drawn integer is one of those asked for. -/
theorem integer (low : Int) (count : Nat) (positive : 0 < count) :
    (Draw.integer low count positive).Yields fun i => low ≤ i ∧ i < low + count := by
  refine .bind (.any _) fun i _ => .pure ?_
  have bound := i.isLt
  omega

/-- What is chosen is one of the options. -/
theorem choose (options : List α) (some : 0 < options.length) :
    (Draw.choose options some).Yields (· ∈ options) :=
  .bind (.any _) fun _ _ => .pure (List.getElem_mem _)

end Yields

end Draw

end PrimeSearch
