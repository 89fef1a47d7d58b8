/-
Module: PrimeSearch.Proofs.Search.Calls
Purpose: Runs of a search, and the calls of the evaluator that a run makes.
Main exports: Plan.reached, Evaluator.logged, Plan.calls, Plan.reached_logged
-/
import PrimeSearch.Proofs.Search.Agreement

namespace PrimeSearch

variable {σ : Type}

/-! ### Runs -/

/-- The state after so many steps, whether the steps succeed or fail. -/
def Strategy.after (p : Plan σ) (start : Strategy × Surroundings σ) :
    Nat → Strategy × Surroundings σ
  | 0 => start
  | steps + 1 => (Strategy.step p (after p start steps).1 (after p start steps).2).2

/-- The state that a search reaches with so many steps from its beginning. -/
def Plan.reached (p : Plan σ) (w : Surroundings σ) (steps : Nat) :
    Except SearchError (Strategy × Surroundings σ) :=
  match Strategy.begin p w with
  | (.ok s, v) => .ok (Strategy.after p (s, v) steps)
  | (.error e, _) => .error e

/-- What is reached is reached from a beginning that succeeds. -/
theorem Plan.reached_eq_ok {p : Plan σ} {w : Surroundings σ} {steps : Nat}
    {x : Strategy × Surroundings σ} (reached : p.reached w steps = .ok x) :
    ∃ s v, Strategy.begin p w = (.ok s, v) ∧ x = Strategy.after p (s, v) steps := by
  unfold Plan.reached at reached
  split at reached
  next s v begun => exact ⟨s, v, begun, (Except.ok.inj reached).symm⟩
  next => cases reached

theorem Plan.reached_of_begin {p : Plan σ} {w : Surroundings σ} {s : Strategy}
    {v : Surroundings σ} (begun : Strategy.begin p w = (.ok s, v)) (steps : Nat) :
    p.reached w steps = .ok (Strategy.after p (s, v) steps) := by
  unfold Plan.reached
  rw [begun]

theorem Plan.reached_succ {p : Plan σ} {w : Surroundings σ} {steps : Nat}
    {x : Strategy × Surroundings σ} (reached : p.reached w steps = .ok x) :
    p.reached w (steps + 1) = .ok (Strategy.step p x.1 x.2).2 := by
  obtain ⟨s, v, begun, rfl⟩ := Plan.reached_eq_ok reached
  exact Plan.reached_of_begin begun (steps + 1)

/-! ### Calls

An evaluator that writes down every call in its memory scores as it did before, so a search
with it is the same search, and its memory tells what was scored, in which order.
-/

/-- What was scored and with which score, in the order of the calls. -/
abbrev Calls := List (Candidate × Score)

/-- The evaluator that writes down its calls. -/
def Evaluator.logged (e : Evaluator σ) : Evaluator (σ × Calls) where
  mode := e.mode
  score c := fun w =>
    let (score, v) := (e.score c).run ⟨w.source, w.memory.1⟩
    (score, ⟨v.source, v.memory, w.memory.2 ++ [(c, score)]⟩)

/-- The plan whose evaluator writes down its calls. -/
def Plan.logged (p : Plan σ) : Plan (σ × Calls) := ⟨p.config, p.evaluator.logged⟩

/-- Surroundings in which these calls were made so far. -/
def Surroundings.withCalls (w : Surroundings σ) (calls : Calls) : Surroundings (σ × Calls) :=
  ⟨w.source, w.memory, calls⟩

/-- The calls of the evaluator from the beginning of a search through so many steps. -/
def Plan.calls (p : Plan σ) (w : Surroundings σ) (steps : Nat) : Calls :=
  match p.logged.reached (w.withCalls []) steps with
  | .ok (_, v) => v.memory.2
  | .error _ => []

/-- A memory beside which calls are written down. -/
def Remembers (m : σ × Calls) (n : σ) : Prop := m.1 = n

theorem Evaluator.logged_agrees (e : Evaluator σ) : e.logged.Agrees Remembers e where
  mode := rfl
  score c w v related := by
    obtain ⟨source, memory⟩ := w
    obtain ⟨_, _⟩ := v
    obtain ⟨rfl, rfl⟩ := related
    exact ⟨rfl, rfl, rfl⟩

theorem Strategy.after_logged (p : Plan σ) (s : Strategy) {w : Surroundings (σ × Calls)}
    {v : Surroundings σ} (related : w.Matches Remembers v) (steps : Nat) :
    (after p.logged (s, w) steps).1 = (after p (s, v) steps).1 ∧
      (after p.logged (s, w) steps).2.Matches Remembers (after p (s, v) steps).2 := by
  induction steps with
  | zero => exact ⟨rfl, related⟩
  | succ steps ih =>
      obtain ⟨same, surroundings⟩ := ih
      unfold after
      rw [same]
      exact (step_agrees p.evaluator.logged_agrees _ surroundings).2

/-- A memory beside calls, split into both. -/
theorem Surroundings.Matches.eq_withCalls {w : Surroundings (σ × Calls)} {v : Surroundings σ}
    (related : w.Matches Remembers v) : w = v.withCalls w.memory.2 := by
  obtain ⟨source, memory, calls⟩ := w
  obtain ⟨rfl, rfl⟩ := related
  rfl

/-- A search whose evaluator writes down its calls is the same search. -/
theorem Plan.reached_logged {p : Plan σ} {w : Surroundings σ} {steps : Nat} {s : Strategy}
    {v : Surroundings σ} (reached : p.reached w steps = .ok (s, v)) :
    p.logged.reached (w.withCalls []) steps = .ok (s, v.withCalls (p.calls w steps)) := by
  obtain ⟨s', v', begun, final⟩ := Plan.reached_eq_ok reached
  obtain ⟨same, surroundings⟩ : (Strategy.begin p.logged (w.withCalls [])).1 =
      (Strategy.begin p w).1 ∧ (Strategy.begin p.logged (w.withCalls [])).2.Matches Remembers
        (Strategy.begin p w).2 := Strategy.begin_agrees p.evaluator.logged_agrees ⟨rfl, rfl⟩
  rw [begun] at same surroundings
  have begunLogged : Strategy.begin p.logged (w.withCalls []) =
      (.ok s', (Strategy.begin p.logged (w.withCalls [])).2) := Prod.ext same rfl
  obtain ⟨sameState, final'⟩ := Strategy.after_logged p s' surroundings steps
  rw [← final] at sameState final'
  have calls := Plan.reached_of_begin begunLogged steps
  unfold Plan.calls
  rw [calls]
  exact congrArg Except.ok (Prod.ext sameState final'.eq_withCalls)

/-- A step of that search is the step that the search takes. -/
theorem Plan.step_logged {p : Plan σ} {w : Surroundings σ} {steps : Nat} {s : Strategy}
    {v : Surroundings σ} (reached : p.reached w steps = .ok (s, v)) :
    Strategy.step p.logged s (v.withCalls (p.calls w steps)) =
      ((Strategy.step p s v).1, (Strategy.step p s v).2.1,
        (Strategy.step p s v).2.2.withCalls (p.calls w (steps + 1))) := by
  have related : (v.withCalls (p.calls w steps)).Matches Remembers v := ⟨rfl, rfl⟩
  have same : (Strategy.step p.logged s (v.withCalls (p.calls w steps))).1 =
      (Strategy.step p s v).1 := (Strategy.step_agrees p.evaluator.logged_agrees s related).1
  have next := Plan.reached_succ (Plan.reached_logged reached)
  rw [Plan.reached_logged (Plan.reached_succ reached)] at next
  exact Prod.ext same (Except.ok.inj next).symm

end PrimeSearch
