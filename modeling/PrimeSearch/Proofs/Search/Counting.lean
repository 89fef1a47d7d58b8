/-
Module: PrimeSearch.Proofs.Search.Counting
Purpose: Every step of a search counts as one, whether it succeeds or fails.
Main exports: Plan.neutral_count, Strategy.begin_counts, Strategy.run_finishes, Strategy.step_counts
-/
import PrimeSearch.Proofs.Search.Invariants
import PrimeSearch.Proofs.Search.Reported

namespace PrimeSearch

open Move

variable {σ ε : Type}

/-!
An algorithm counts its iteration first.  Whatever it does afterwards leaves the number of
iterations as it is, so that a step that fails half way has been counted as well.
-/

/-- So many iterations were counted. -/
def Search.HasCounted (count : Nat) (s : Search σ ε) : Prop := s.iteration = count

theorem evaluate_keeps_count (p : Plan σ) (c : Candidate) (count : Nat) :
    Keeps (Search.HasCounted count) (p.evaluate c : Move σ ε (Option Score)) := by
  intro s holds
  apply (p.evaluate_ends c s).mono
  · rintro _ _ ⟨-, rfl⟩
    exact ⟨trivial, holds⟩
  · rintro _ rfl
    exact holds

theorem Plan.neutral_count (p : Plan σ) (count : Nat) :
    p.Neutral (Search.HasCounted (ε := ε) count) where
  quiet := by
    rintro s t holds ⟨source, -, rfl⟩
    exact holds
  best _ _ _ holds _ := holds
  current _ _ _ holds := holds
  own _ _ holds := holds
  scored s c holds _ := (evaluate_keeps_count p c count s holds).mono (fun _ _ after => after.2)
    fun _ after => after

/-! ### Beginnings -/

theorem Plan.begin_counts (p : Plan σ) (own : ε) (w : Surroundings σ) :
    (p.begin own w).2.iteration = 0 := by
  have scored : Keeps (Search.HasCounted 0) (p.scoreFirst : Move σ ε Unit) :=
    .get_bind fun s _ => .bind (evaluate_keeps_count p _ 0) fun _ _ => .modify fun _ holds => holds
  exact scored.state (s := p.unscored own w) rfl

namespace Genetic

theorem enlarge_keeps_count (p : Plan σ) (c : Candidate) (count : Nat) :
    Keeps (Search.HasCounted count) (enlarge p c) :=
  .bind (evaluate_keeps_count p c count) fun score _ => .bind (.modify fun _ holds => holds)
    fun _ _ => record_keeps (p.neutral_count count) c score

theorem fillAny_keeps_count (p : Plan σ) (places count : Nat) :
    Keeps (Search.HasCounted count) (fillAny p places) := by
  induction places with
  | zero => exact .pure trivial
  | succ places ih =>
      refine .bind ((p.neutral_count count).draws (.draw (Operators.random_advances _))) ?_
      exact fun c _ => .bind (enlarge_keeps_count p c count) fun _ _ => ih

theorem fillNew_keeps_count (p : Plan σ) (tries places count : Nat) :
    Keeps (Search.HasCounted count) (fillNew p tries places) := by
  induction tries generalizing places with
  | zero => exact fillAny_keeps_count p places count
  | succ tries ih =>
      cases places with
      | zero => exact .pure trivial
      | succ places =>
          refine .bind ((p.neutral_count count).draws (.draw (Operators.random_advances _))) ?_
          refine fun c _ => .bind ((p.neutral_count count).draws (.wasSeen c)) fun seen _ => ?_
          refine .ite (fun _ => ih (places + 1)) fun _ => ?_
          exact .bind (enlarge_keeps_count p c count) fun _ _ => ih places

theorem populate_keeps_count (p : Plan σ) (count : Nat) :
    Keeps (Search.HasCounted count) (populate p) :=
  .bind (.modify fun _ holds => holds) fun _ _ => fillNew_keeps_count p _ _ count

end Genetic

/-! ### Runs -/

namespace Strategy

/-- No step was taken when a search begins. -/
theorem begin_counts {p : Plan σ} {w v : Surroundings σ} {s : Strategy}
    (begun : begin p w = (.ok s, v)) : s.iteration = 0 := by
  rcases begin_eq_ok begun with ⟨-, t, started, rfl, rfl⟩ | ⟨-, t, started, rfl, rfl⟩ |
    ⟨-, t, started, rfl, rfl⟩
  · have start := p.begin_counts ([] : LateAcceptance.History) w
    rw [LateAcceptance.begin] at started
    rw [started] at start
    exact start
  · obtain ⟨s, first, populated⟩ := Genetic.begin_eq_ok started
    have start := p.begin_counts (⟨[], ∅⟩ : Population) w
    rw [first] at start
    have filled := (Genetic.populate_keeps_count p 0).state start
    rw [populated] at filled
    exact filled
  · have start := p.begin_counts p.config.startTemperature.toFloat w
    rw [Annealing.begin] at started
    rw [started] at start
    exact start

/-- What a step keeps holds of the search that it leaves behind, and its result tells that search. -/
theorem run_finishes (wrap : Progress ε → Strategy) {move : Move σ ε StepResult}
    {I : Search σ ε → Prop} (finishes : FinishesStep I move) (s : Progress ε) (w : Surroundings σ)
    (start : I ⟨{ s with iteration := s.iteration + 1 }, w⟩) :
    ∃ t : Search σ ε, (run wrap move s w).2.1 = wrap t.toProgress ∧ I t ∧
      ∀ r, (run wrap move s w).1 = .ok r → r.Describes t := by
  have ends := finishes ⟨s, w⟩ start
  refine ⟨_, rfl, (ends.mono (fun _ _ both => both.1) fun _ after => after).state, ?_⟩
  intro r succeeds
  exact (ends.result succeeds).2

theorem run_counts {wrap : Progress ε → Strategy} {move : Move σ ε StepResult}
    (told : ∀ s, (wrap s).iteration = s.iteration) (s : Progress ε) (w : Surroundings σ)
    (finishes : FinishesStep (Search.HasCounted (s.iteration + 1)) move) :
    (run wrap move s w).2.1.iteration = s.iteration + 1 ∧
      ∀ r, (run wrap move s w).1 = .ok r → r.iteration = s.iteration + 1 := by
  obtain ⟨t, left, counted, describes⟩ := run_finishes wrap finishes s w rfl
  rw [left]
  exact ⟨(told _).trans counted, fun r succeeds => (describes r succeeds).1.trans counted⟩

/-- A step counts as one, whether it succeeds or fails, and its result tells the number of steps
so far. -/
theorem step_counts (p : Plan σ) (s : Strategy) (w : Surroundings σ) :
    (step p s w).2.1.iteration = s.iteration + 1 ∧
      ∀ r, (step p s w).1 = .ok r → r.iteration = s.iteration + 1 := by
  unfold step
  split
  · cases s <;> exact ⟨rfl, fun r succeeds => by cases succeeds⟩
  · cases s with
    | lateAcceptance s =>
        exact run_counts (fun _ => rfl) s w (LateAcceptance.step_finishes (p.neutral_count _))
    | genetic s => exact run_counts (fun _ => rfl) s w (Genetic.step_finishes (p.neutral_count _))
    | annealing s =>
        exact run_counts (fun _ => rfl) s w (Annealing.step_finishes (p.neutral_count _))

end Strategy

end PrimeSearch
