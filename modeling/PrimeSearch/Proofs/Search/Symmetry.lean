/-
Module: PrimeSearch.Proofs.Search.Symmetry
Purpose: A search that enforces symmetry never leaves the pairs that a transform relates.
Main exports: Candidate.Symmetric, Plan.closed_symmetric, Plan.reached_symmetric
-/
import PrimeSearch.Proofs.Search.Kinds

namespace PrimeSearch

variable {σ : Type}

/-!
With symmetry enforced every operator makes the second function anew, as the image of the first
under a random transform, whatever the second functions of its arguments were.  The one operator
that changes both functions by a transform does not do so, and it is not used then.
-/

/-- There are exactly two functions, and the second is the image of the first under one of the
transforms. -/
def Candidate.Symmetric (c : Candidate) : Prop :=
  ∃ f, ∃ t ∈ Transform.all, c.trees = [f, t.apply f]

namespace Operators

theorem symmetricCandidate_yields_symmetric (f : Expr) :
    (symmetricCandidate f).Yields Candidate.Symmetric := by
  have related : (SymmetricPair.derive f).Yields fun p =>
      p.f = f ∧ ∃ t ∈ Transform.all, p.g = t.apply f :=
    .bind (.choose _ _) fun t member => .pure ⟨rfl, t, member, rfl⟩
  refine .bind related fun p derived => .pure ?_
  obtain ⟨first, t, member, second⟩ := derived
  exact ⟨f, t, member, by rw [Candidate.trees, first, second]⟩

variable {o : Operators} (two : o.mode = .primeFold) (symmetric : o.symmetric = true)
include two symmetric

theorem random_yields_symmetric : o.random.Yields Candidate.Symmetric := by
  refine .bind (.any _) fun f _ => ?_
  rw [two]
  dsimp only
  rw [if_pos symmetric]
  exact symmetricCandidate_yields_symmetric f

theorem mutate_yields_symmetric (c : Candidate) (rate : Float) (both : Bool) :
    (o.mutate c rate both).Yields Candidate.Symmetric := by
  unfold mutate
  rw [two]
  dsimp only
  rw [if_pos symmetric]
  exact .bind (.any _) fun f _ => .draw (symmetricCandidate_yields_symmetric f)

theorem crossover_yields_symmetric (first second : Candidate) :
    (o.crossover first second).Yields fun children =>
      children.1.Symmetric ∧ children.2.Symmetric := by
  unfold crossover
  rw [two]
  dsimp only
  rw [if_pos symmetric]
  refine .bind (.any _) fun (a, b) _ => ?_
  refine .bind (.draw (symmetricCandidate_yields_symmetric a)) fun c related => ?_
  refine .bind (.draw (symmetricCandidate_yields_symmetric b)) fun d related' => ?_
  exact .pure ⟨related, related'⟩

end Operators

section
variable {p : Plan σ} (two : p.config.mode = .primeFold)
  (enforced : p.config.enforceSymmetry.isTruthy = true)
include two enforced

theorem Plan.operators_symmetric : p.config.operators.symmetric = true := by
  simp [SearchConfig.operators, Operators.new, two, enforced]

/-- With symmetry enforced the operators of a plan only make pairs that a transform relates. -/
theorem Plan.closed_symmetric : p.Closed Candidate.Symmetric fun _ => True := by
  have symmetric := Plan.operators_symmetric two enforced
  have fold : p.config.operators.mode = .primeFold := two
  constructor
  · exact Operators.random_yields_symmetric fold symmetric
  · intro c _ rate both
    exact Operators.mutate_yields_symmetric fold symmetric c rate both
  · intro c d _ _
    exact Operators.crossover_yields_symmetric fold symmetric c d
  · intro _ free
    rw [symmetric] at free
    cases free
  · intros
    trivial

end

/-- A search for two functions that enforces symmetry only ever holds pairs that a transform relates,
and scores no others: in every state that it reaches, also after steps that fail, and where it cannot
begin.  This is so for every algorithm, every evaluator and every source, and for all other settings.
The calls are those of the same search with an evaluator that writes them down. -/
theorem Plan.reached_symmetric (p : Plan σ) (two : p.config.mode = .primeFold)
    (enforced : p.config.enforceSymmetry.isTruthy = true) (w : Surroundings σ) :
    (∀ call ∈ (Strategy.begin p.logged (w.withCalls [])).2.memory.2, call.1.Symmetric) ∧
      ∀ steps s v, p.reached w steps = .ok (s, v) →
        p.logged.reached (w.withCalls []) steps = .ok (s, v.withCalls (p.calls w steps)) ∧
          (∀ c ∈ s.candidates, c.Symmetric) ∧ ∀ call ∈ p.calls w steps, call.1.Symmetric := by
  have closed := p.closed_symmetric two enforced
  have none : CallsHold Candidate.Symmetric (w.withCalls []).memory := by
    intro call listed
    cases listed
  refine ⟨(Strategy.begin_holds closed.logged none).1, fun steps s v reached => ?_⟩
  exact ⟨Plan.reached_logged reached, (Plan.reached_holds closed trivial reached).1,
    Plan.calls_holds closed w steps⟩

/-- One step of a genetic search for related pairs of leaves. -/
theorem Plan.reached_symmetric_leaves :
    let p : Plan Unit := ⟨{
      mode := .primeFold, algorithm := .genetic, maxDepth := .ofNat 0, enforceSymmetry := .bool true
      populationSize := .ofNat 2 }, { Evaluator.byShape with mode := .primeFold }⟩
    let w : Surroundings Unit := ⟨⟨[0.0, 0.9, 0.0], 7, 0⟩, ()⟩
    ∃ s v, p.reached w 1 = .ok (s, v) ∧ (∀ c ∈ s.candidates, c.Symmetric) ∧
      s.candidates.length = 4 := by
  intro p w
  have begins : (p.reached w 1).toOption.map (fun x => x.1.candidates.length) = some 4 := by
    decide +kernel
  cases reached : p.reached w 1 with
  | error e =>
      rw [reached] at begins
      cases begins
  | ok x =>
      rw [reached] at begins
      exact ⟨x.1, x.2, rfl, ((p.reached_symmetric rfl rfl w).2 1 _ _ reached).2.1,
        Option.some.inj begins⟩

end PrimeSearch
