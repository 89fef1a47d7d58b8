/-
Module: PrimeSearch.Proofs.Search.Modes
Purpose: A search stays in its mode, so its evaluator never refuses a candidate, and with settings
  of the kinds that its algorithm needs no step fails.
Main exports: makeEvaluator_eq_ok, Plan.closed_inMode, Progress.InMode, SearchConfig.Proper,
  Strategy.begin_inMode, Strategy.step_succeeds
-/
import PrimeSearch.Proofs.Search.Kinds

namespace PrimeSearch

variable {σ ε α β : Type}

/-- An evaluator is of the mode that it was made for, and it is one of three: for one function, for
one function whose values cannot be laid out, or for two. -/
theorem makeEvaluator_eq_ok {fitness : FitnessConfig} {mode : Mode} {size : Quantity}
    {w v : Surroundings Oracle} {e : Evaluator Oracle}
    (made : (makeEvaluator fitness mode size).run.run w = (.ok e, v)) :
    e.mode = mode ∧
      ((∃ share : PrimeShare, e = share.evaluator) ∨ e = unscorable ∨
        ∃ fold : FoldTest, e = fold.evaluator) := by
  cases mode with
  | primeGen =>
      rw [makeEvaluator] at made
      split at made
      · cases (Prod.mk.inj made).1
      · obtain rfl := Except.ok.inj (Prod.mk.inj made).1
        cases PrimeShare.ofQuantity? size with
        | none => exact ⟨rfl, .inr (.inl rfl)⟩
        | some share => exact ⟨rfl, .inl ⟨share, rfl⟩⟩
  | primeFold =>
      have outcome : (w.memory.samplesFor size).1.map (fun samples =>
          (FoldTest.mk (samples.1.map Int.ofNat) (samples.2.map Int.ofNat) fitness).evaluator) =
            .ok e := congrArg Prod.fst made
      cases asked : (w.memory.samplesFor size).1 with
      | error err =>
          rw [asked] at outcome
          cases outcome
      | ok samples =>
          rw [asked] at outcome
          obtain rfl := Except.ok.inj outcome
          exact ⟨rfl, .inr (.inr ⟨_, rfl⟩)⟩

/-! ### Operators of a mode

The number of functions of a candidate is settled by how it is put together.
-/

namespace Operators

/-- A candidate of two functions has a second function. -/
theorem partner_yields {c : Candidate} (two : c.mode = .primeFold) :
    (partner c).Yields fun _ => True := by
  cases c with
  | single f => cases two
  | pair f g => exact .pure trivial

theorem symmetricCandidate_yields (f : Expr) :
    (symmetricCandidate f).Yields fun c => c.mode = .primeFold :=
  .bind (.any _) fun _ _ => .pure rfl

theorem random_yields (o : Operators) : o.random.Yields fun c => c.mode = o.mode := by
  refine .bind (.any _) fun f _ => ?_
  cases o.mode with
  | primeGen => exact .pure rfl
  | primeFold =>
      apply Draw.Yields.ite
      · intro _
        exact symmetricCandidate_yields f
      · intro _
        exact .bind (.any _) fun g _ => .pure rfl

theorem symmetricMutation_yields {c : Candidate} (two : c.mode = .primeFold) :
    (symmetricMutation c).Yields fun d => d.mode = .primeFold :=
  .bind (partner_yields two) fun _ _ => .bind (.any _) fun _ _ => .pure rfl

/-- A change of a candidate of the mode is of the mode again. -/
theorem mutate_yields (o : Operators) {c : Candidate} (inMode : c.mode = o.mode) (rate : Float)
    (both : Bool) : (o.mutate c rate both).Yields fun d => d.mode = o.mode := by
  unfold mutate
  cases mode : o.mode with
  | primeGen => exact .bind (.any _) fun _ _ => .pure rfl
  | primeFold =>
      have two : c.mode = .primeFold := inMode.trans mode
      apply Trial.Yields.ite
      · intro _
        exact .bind (.any _) fun f _ => .draw (symmetricCandidate_yields f)
      intro _
      apply Trial.Yields.bind (.any _)
      intro together _
      apply Trial.Yields.ite
      · intro _
        exact symmetricMutation_yields two
      intro _
      apply Trial.Yields.ite
      · intro _
        exact .bind (.any _) fun _ _ => .bind (partner_yields two) fun _ _ =>
          .bind (.any _) fun _ _ => .pure rfl
      intro _
      apply Trial.Yields.bind (.any _)
      intro first _
      apply Trial.Yields.ite
      · intro _
        exact .bind (.any _) fun _ _ => .bind (partner_yields two) fun _ _ => .pure rfl
      · intro _
        exact .bind (partner_yields two) fun _ _ => .bind (.any _) fun _ _ => .pure rfl

/-- Children of candidates of the mode are of the mode. -/
theorem crossover_yields (o : Operators) {first second : Candidate}
    (inMode : first.mode = o.mode) (inMode' : second.mode = o.mode) :
    (o.crossover first second).Yields fun children =>
      children.1.mode = o.mode ∧ children.2.mode = o.mode := by
  unfold crossover
  cases mode : o.mode with
  | primeGen => exact .bind (.any _) fun _ _ => .pure ⟨rfl, rfl⟩
  | primeFold =>
      have two := inMode.trans mode
      have two' := inMode'.trans mode
      apply Trial.Yields.ite
      · intro _
        apply Trial.Yields.bind (.any _)
        intro (a, b) _
        apply Trial.Yields.bind (.draw (symmetricCandidate_yields a))
        intro c fold
        apply Trial.Yields.bind (.draw (symmetricCandidate_yields b))
        intro d fold'
        exact .pure ⟨fold, fold'⟩
      intro _
      apply Trial.Yields.bind (.any _)
      intro exchange _
      apply Trial.Yields.ite
      · intro _
        exact .bind (partner_yields two') fun _ _ => .bind (partner_yields two) fun _ _ =>
          .pure ⟨rfl, rfl⟩
      · intro _
        exact .bind (.any _) fun _ _ => .bind (partner_yields two) fun _ _ =>
          .bind (partner_yields two') fun _ _ => .bind (.any _) fun _ _ => .pure ⟨rfl, rfl⟩

end Operators

/-! ### Searches in one mode -/

/-- The operators of a plan stay in its mode. -/
theorem Plan.closed_inMode (p : Plan σ) : p.Closed (fun c => c.mode = p.config.mode) fun _ => True where
  random := Operators.random_yields _
  mutate inMode rate both := Operators.mutate_yields _ inMode rate both
  crossover inMode inMode' := Operators.crossover_yields _ inMode inMode'
  transform two _ _ inMode := by
    rw [two] at inMode ⊢
    exact Operators.symmetricMutation_yields inMode
  memory _ _ := trivial

/-- The evaluator of a plan scores the candidates of its mode. -/
def Plan.Fits (p : Plan σ) : Prop := p.evaluator.mode = p.config.mode

/-- The evaluator of the mode of a search never is of another mode than its candidates. -/
theorem Plan.Fits.not_mismatches {p : Plan σ} (fits : p.Fits) {e : SearchError} :
    ¬p.Mismatches (fun c => c.mode = p.config.mode) e := by
  rintro ⟨inMode, other⟩
  exact other (inMode.trans fits.symm)

/-- All candidates that a search holds are of one mode: the current one, the best one, and those
that its algorithm keeps. -/
structure Progress.InMode (kept : ε → List Candidate) (mode : Mode) (s : Progress ε) : Prop where
  current : s.current.mode = mode
  best : s.best.mode = mode
  kept : ∀ c ∈ kept s.own, c.mode = mode

theorem Progress.inMode_iff {kept : ε → List Candidate} {mode : Mode} {s : Progress ε} :
    s.InMode kept mode ↔ ∀ c ∈ s.candidates kept, c.mode = mode := by
  simp only [Progress.candidates, List.forall_mem_cons]
  constructor
  · intro inMode
    exact ⟨inMode.current, inMode.best, inMode.kept⟩
  · rintro ⟨current, best, kept⟩
    exact ⟨current, best, kept⟩

/-- Settings that a step can work with: tries and places of a tournament are whole numbers, the rates of
the genetic algorithm are given, and annealing can compute with its temperature. -/
structure SearchConfig.Proper (c : SearchConfig) : Prop where
  attempts : c.maxAttempts.isWhole = true
  tournament : c.tournamentSize.isWhole = true
  random : c.randomRate.isSome = true
  mutation : c.mutationRate.isSome = true
  temperature : c.isTooHot = false

instance SearchConfig.decidableProper (c : SearchConfig) : Decidable c.Proper :=
  decidable_of_iff (c.maxAttempts.isWhole = true ∧ c.tournamentSize.isWhole = true ∧
    c.randomRate.isSome = true ∧ c.mutationRate.isSome = true ∧ c.isTooHot = false)
    ⟨fun ⟨attempts, tournament, random, mutation, temperature⟩ =>
        ⟨attempts, tournament, random, mutation, temperature⟩,
      fun proper => ⟨proper.attempts, proper.tournament, proper.random, proper.mutation,
        proper.temperature⟩⟩

namespace Strategy

/-- All candidates of a search are of a mode. -/
def InMode (mode : Mode) : Strategy → Prop
  | .lateAcceptance s => s.InMode (fun _ => []) mode
  | .genetic s => s.InMode Population.members mode
  | .annealing s => s.InMode (fun _ => []) mode

theorem inMode_iff {mode : Mode} {s : Strategy} :
    s.InMode mode ↔ ∀ c ∈ s.candidates, c.mode = mode := by
  cases s with
  | lateAcceptance | genetic | annealing => exact Progress.inMode_iff

/-- A search begins in the mode of its settings. -/
theorem begin_inMode {p : Plan σ} {w v : Surroundings σ} {s : Strategy}
    (begun : begin p w = (.ok s, v)) : s.InMode p.config.mode := by
  obtain ⟨-, held, -⟩ := begin_holds p.closed_inMode (w := w) trivial
  exact inMode_iff.mpr (held s (congrArg Prod.fst begun))

/-- With an evaluator of its mode a genetic search can be begun. -/
theorem begin_genetic {p : Plan σ} (fits : p.Fits) (genetic : p.config.algorithm = .genetic)
    (w : Surroundings σ) : ∃ s, (begin p w).1 = .ok s := by
  obtain ⟨-, -, reason⟩ := split_holds .genetic (fun _ => rfl)
    (Genetic.begin_holds p.closed_inMode (w := w) trivial)
  unfold begin
  rw [genetic]
  cases outcome : (split .genetic (Genetic.begin p w)).1 with
  | ok s => exact ⟨s, rfl⟩
  | error e => exact absurd (reason e outcome) fits.not_mismatches

theorem countFault_eq_none {least : Nat} {c : Count least} (whole : c.isWhole = true) :
    countFault c = none := by
  rw [countFault, if_pos whole]

theorem stepFault_eq_none {c : SearchConfig} (proper : c.Proper) : stepFault c = none := by
  unfold Strategy.stepFault
  cases c.algorithm with
  | lateAcceptance | annealing => exact countFault_eq_none proper.attempts
  | genetic => exact countFault_eq_none proper.tournament

/-- With proper settings a search in its mode makes its step, and stays in its mode. -/
theorem step_succeeds {p : Plan σ} (fits : p.Fits) (proper : p.config.Proper) {s : Strategy}
    (inMode : s.InMode p.config.mode) (w : Surroundings σ) :
    (∃ r, (step p s w).1 = .ok r) ∧ (step p s w).2.1.InMode p.config.mode := by
  obtain ⟨held, -, reason⟩ := step_holds p.closed_inMode (inMode_iff.mp inMode) (w := w) trivial
  refine ⟨?_, inMode_iff.mpr held⟩
  cases outcome : (step p s w).1 with
  | ok r => exact ⟨r, rfl⟩
  | error e =>
      cases reason e outcome with
      | uncounted cause =>
          rw [stepFault_eq_none proper] at cause
          cases cause
      | openRate missing =>
          rcases missing with random | mutation
          · exact absurd proper.random (by simp [random])
          · exact absurd proper.mutation (by simp [mutation])
      | tooHot hot =>
          rw [proper.temperature] at hot
          cases hot
      | mismatch mismatch => exact absurd mismatch fits.not_mismatches

end Strategy

end PrimeSearch
