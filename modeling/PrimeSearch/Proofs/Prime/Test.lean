/-
Module: PrimeSearch.Proofs.Prime.Test
Purpose: Trial division decides primality.
Main exports: noDivisorFrom_iff, trialDivision_iff, isPrime_iff_of_lt
-/
import PrimeSearch.Prime.Test
import Mathlib.Data.Nat.Prime.Basic
import Mathlib.Tactic.Linarith

namespace PrimeSearch

/-- No number from two on and below `i` divides `n`. -/
def CoprimeBelow (n i : Nat) : Prop := ∀ d, 2 ≤ d → d < i → ¬ d ∣ n

theorem CoprimeBelow.prime {n i : Nat} (coprime : CoprimeBelow n i) (two : 2 ≤ n)
    (done : n < i * i) : n.Prime := by
  rw [Nat.prime_def_le_sqrt]
  refine ⟨two, fun d least root => coprime d least ?_⟩
  have square := Nat.le_sqrt.mp root
  exact Nat.mul_self_lt_mul_self_iff.mp (by omega)

/-- The numbers between two candidates are multiples of two or three. -/
theorem CoprimeBelow.step {n i : Nat} (coprime : CoprimeBelow n i) (five : 5 ≤ i)
    (wheel : i % 6 = 5) (first : ¬ i ∣ n) (second : ¬ (i + 2) ∣ n) : CoprimeBelow n (i + 6) := by
  have even {d : Nat} (h : d % 2 = 0) : ¬ d ∣ n := fun divides =>
    coprime 2 (le_refl 2) (by omega) ((Nat.dvd_of_mod_eq_zero h).trans divides)
  have triple {d : Nat} (h : d % 3 = 0) : ¬ d ∣ n := fun divides =>
    coprime 3 (by omega) (by omega) ((Nat.dvd_of_mod_eq_zero h).trans divides)
  intro d two below
  obtain h | rfl | rfl | rfl | rfl | rfl | rfl : d < i ∨ d = i ∨ d = i + 1 ∨ d = i + 2 ∨
      d = i + 3 ∨ d = i + 4 ∨ d = i + 5 := by omega
  · exact coprime d two h
  · exact first
  · exact even (by omega)
  · exact second
  · exact even (by omega)
  · exact triple (by omega)
  · exact even (by omega)

/-- Trying the candidates `6k ± 1` from `i` on decides primality. -/
theorem noDivisorFrom_iff {n fuel i : Nat} (coprime : CoprimeBelow n i) (two : 2 ≤ n)
    (five : 5 ≤ i) (wheel : i % 6 = 5) (enough : n < i + fuel) :
    noDivisorFrom n fuel i = true ↔ n.Prime := by
  induction fuel generalizing i with
  | zero =>
      have prime := coprime.prime two (by nlinarith)
      simp [noDivisorFrom, prime]
  | succ fuel ih =>
      unfold noDivisorFrom
      split
      next more =>
        split
        next divided =>
          have composite : ¬ n.Prime := by
            intro prime
            rcases divided with first | second
            · rcases (Nat.dvd_prime prime).mp (Nat.dvd_of_mod_eq_zero first) with one | whole
              · omega
              · nlinarith
            · rcases (Nat.dvd_prime prime).mp (Nat.dvd_of_mod_eq_zero second) with one | whole
              · omega
              · nlinarith
          simp [composite]
        next undivided =>
          obtain ⟨first, second⟩ := not_or.mp undivided
          exact ih (coprime.step five wheel (mt Nat.mod_eq_zero_of_dvd first)
            (mt Nat.mod_eq_zero_of_dvd second)) (by omega) (by omega) (by omega)
      next done =>
        have prime := coprime.prime two (by omega)
        simp [prime]

theorem trialDivision_iff {n : Nat} (four : 4 ≤ n) : trialDivision n = true ↔ n.Prime := by
  unfold trialDivision
  split
  next even =>
    have composite : ¬ n.Prime := fun prime => by
      rcases (Nat.dvd_prime prime).mp (Nat.dvd_of_mod_eq_zero even) with h | h <;> omega
    simp [composite]
    omega
  next odd =>
    split
    next triple =>
      have composite : ¬ n.Prime := fun prime => by
        rcases (Nat.dvd_prime prime).mp (Nat.dvd_of_mod_eq_zero triple) with h | h <;> omega
      simp [composite]
      omega
    next notTriple =>
      have coprime : CoprimeBelow n 5 := by
        intro d two below divides
        obtain rfl | rfl | rfl : d = 2 ∨ d = 3 ∨ d = 4 := by omega
        all_goals have := Nat.mod_eq_zero_of_dvd divides; omega
      exact noDivisorFrom_iff coprime (by omega) (by omega) (by omega) (by omega)

/-- Below the limit of trial division the test is exact. -/
theorem isPrime_iff_of_lt {n : Int} (small : n < trialLimit) :
    isPrime n = true ↔ n.toNat.Prime := by
  unfold isPrime
  split
  next tiny =>
    have notPrime : ¬ n.toNat.Prime := fun prime => by
      have := prime.two_le
      omega
    simp [notPrime]
  next notTiny =>
    unfold isPrimeNat
    rw [if_neg (by omega)]
    split
    next below =>
      have prime : n.toNat.Prime := by
        obtain h | h : n.toNat = 2 ∨ n.toNat = 3 := by omega
        · rw [h]
          exact Nat.prime_two
        · rw [h]
          exact Nat.prime_three
      simp [prime]
    next four =>
      rw [if_pos (by omega)]
      exact trialDivision_iff (by omega)

end PrimeSearch
