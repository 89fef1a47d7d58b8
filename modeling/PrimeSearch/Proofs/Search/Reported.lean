/-
Module: PrimeSearch.Proofs.Search.Reported
Purpose: The best that a search reports is the best that it has scored, at any time and by any
  algorithm.
Main exports: Strategy.Stands, Strategy.begin_stands, Strategy.step_stands,
  Plan.reached_earliestBest
-/
import PrimeSearch.Proofs.Search.Climbing
import PrimeSearch.Proofs.Search.Breeding

namespace PrimeSearch

open Binary64

variable {σ ε : Type} {p : Plan σ} {base : Calls}

/-- The invariant of the algorithm that is at work. -/
def Strategy.Stands (base : Calls) : Strategy → Surroundings (σ × Calls) → Prop
  | .lateAcceptance progress, w => Climbing base ⟨progress, w⟩
  | .genetic progress, w => Breeding base ⟨progress, w⟩
  | .annealing progress, w => Climbing base ⟨progress, w⟩

/-! ### Beginnings -/

/-- The first candidate is the best and the current one of the only call. -/
theorem Plan.scoreFirst_settled (regular : p.evaluator.Regular) {s : Search (σ × Calls) ε}
    (fair : s.source.Fair) (fresh : s.calls = []) (same : s.best = s.current) :
    Move.Ends p.logged.scoreFirst s
      (fun _ t => Settled [] t ∧ t.currentScore = t.bestScore) (fun _ => True) := by
  refine .get_bind (.bind (p.logged.evaluate_ends s.current s |>.mono
    (fun _ _ after => after) fun _ _ => trivial) ?_)
  rintro score t ⟨rfl, rfl⟩
  refine .modify ⟨⟨List.nil_prefix, ?_, ?_, ?_⟩, rfl⟩
  · exact regular.source s.current ⟨s.source, s.memory.1⟩ fair
  · rw [effective_counted]
    exact regular.effective_number s.current (w := ⟨s.source, s.memory.1⟩) fair
  · change EarliestBest (s.calls ++ [(s.current, _)]) s.best _
    rw [fresh, same]
    exact .single _ _

theorem Plan.begin_settled (regular : p.evaluator.Regular) (own : ε)
    {w : Surroundings (σ × Calls)} (fair : w.source.Fair) (fresh : w.memory.2 = [])
    (begun : (Plan.begin p.logged own w).1 = .ok ()) :
    Settled [] (Plan.begin p.logged own w).2 ∧
      (Plan.begin p.logged own w).2.currentScore = (Plan.begin p.logged own w).2.bestScore := by
  have drawn : (p.logged.config.operators.random.run w.source).2.Fair :=
    fair.leads (Operators.random_advances _ w.source)
  exact (p.scoreFirst_settled (s := ⟨⟨0, ∅, _, none, _, none, own⟩, ⟨_, w.memory⟩⟩) regular drawn
    fresh rfl).result begun

/-- A search whose current score is the best one is ready to climb. -/
theorem Settled.climbing {s : Search (σ × Calls) ε} (settled : Settled base s)
    (first : s.currentScore = s.bestScore) : Climbing base s := by
  refine ⟨settled, ?_⟩
  rw [first]
  exact Binary64.le_refl settled.number

theorem Genetic.begin_breeding (regular : p.evaluator.Regular)
    {w : Surroundings (σ × Calls)} (fair : w.source.Fair) (fresh : w.memory.2 = [])
    (begun : (Genetic.begin p.logged w).1 = .ok ()) :
    Breeding [] (Genetic.begin p.logged w).2 := by
  have settled := p.begin_settled regular (⟨[], ∅⟩ : Population) fair fresh
  unfold Genetic.begin at begun ⊢
  generalize Plan.begin p.logged _ w = start at begun settled ⊢
  obtain ⟨outcome, s⟩ := start
  cases outcome with
  | ok _ => exact (populate_breeding regular (settled rfl).1 (settled rfl).2).state
  | error e => cases begun

/-- A genetic search begins with its first candidate, and fills its population. -/
theorem Genetic.begin_eq_ok {plan : Plan σ} {w : Surroundings σ} {t : Search σ Population}
    (begun : Genetic.begin plan w = (.ok (), t)) :
    ∃ s, plan.begin ⟨[], ∅⟩ w = (.ok (), s) ∧ (populate plan).run.run s = (.ok (), t) := by
  unfold Genetic.begin at begun
  split at begun
  next s first => exact ⟨s, first, begun⟩
  next failed other => exact (other t begun).elim

namespace Strategy

/-- A search that has begun is the one that its algorithm began. -/
theorem split_eq_ok {wrap : Progress ε → Strategy}
    {begun : Except SearchError Unit × Search σ ε} {s : Strategy} {v : Surroundings σ}
    (ok : split wrap begun = (.ok s, v)) :
    begun.1 = .ok () ∧ wrap begun.2.toProgress = s ∧ begun.2.toSurroundings = v := by
  obtain ⟨outcome, search⟩ := begun
  cases outcome with
  | ok _ =>
      obtain ⟨state, surroundings⟩ := Prod.mk.inj ok
      exact ⟨rfl, Except.ok.inj state, surroundings⟩
  | error e => cases (Prod.mk.inj ok).1

theorem requireLength_eq_ok {config : SearchConfig}
    {begun : Except SearchError Strategy × Surroundings σ} {s : Strategy} {v : Surroundings σ}
    (ok : requireLength config begun = (.ok s, v)) : begun = (.ok s, v) := by
  unfold requireLength at ok
  obtain ⟨outcome, w⟩ := begun
  split at ok
  · cases outcome <;> cases (Prod.mk.inj ok).1
  · split at ok
    · cases outcome <;> cases (Prod.mk.inj ok).1
    · exact ok

/-- What a beginning by each of the algorithms leads to. -/
theorem begin_eq_ok {plan : Plan σ} {w v : Surroundings σ} {s : Strategy}
    (begun : begin plan w = (.ok s, v)) :
    (plan.config.algorithm = .lateAcceptance ∧ ∃ t, LateAcceptance.begin plan w = (.ok (), t) ∧
        s = .lateAcceptance t.toProgress ∧ v = t.toSurroundings) ∨
      (plan.config.algorithm = .genetic ∧ ∃ t, Genetic.begin plan w = (.ok (), t) ∧
        s = .genetic t.toProgress ∧ v = t.toSurroundings) ∨
      (plan.config.algorithm = .annealing ∧ ∃ t, Annealing.begin plan w = (.ok (), t) ∧
        s = .annealing t.toProgress ∧ v = t.toSurroundings) := by
  unfold Strategy.begin at begun
  cases algorithm : plan.config.algorithm with
  | lateAcceptance =>
      rw [algorithm] at begun
      obtain ⟨ok, rfl, rfl⟩ := split_eq_ok (requireLength_eq_ok begun)
      exact .inl ⟨rfl, _, Prod.ext ok rfl, rfl, rfl⟩
  | genetic =>
      rw [algorithm] at begun
      obtain ⟨ok, rfl, rfl⟩ := split_eq_ok begun
      exact .inr (.inl ⟨rfl, _, Prod.ext ok rfl, rfl, rfl⟩)
  | annealing =>
      rw [algorithm] at begun
      obtain ⟨ok, rfl, rfl⟩ := split_eq_ok begun
      exact .inr (.inr ⟨rfl, _, Prod.ext ok rfl, rfl, rfl⟩)

/-- The invariant holds from the beginning. -/
theorem begin_stands (regular : p.evaluator.Regular) {w v : Surroundings (σ × Calls)}
    {s : Strategy} (fair : w.source.Fair) (fresh : w.memory.2 = [])
    (begun : begin p.logged w = (.ok s, v)) : s.Stands [] v := by
  unfold Strategy.begin at begun
  cases algorithm : p.logged.config.algorithm with
  | lateAcceptance =>
      rw [algorithm] at begun
      obtain ⟨ok, rfl, rfl⟩ := split_eq_ok (requireLength_eq_ok begun)
      have start := p.begin_settled regular _ fair fresh ok
      exact start.1.climbing start.2
  | genetic =>
      rw [algorithm] at begun
      obtain ⟨ok, rfl, rfl⟩ := split_eq_ok begun
      exact Genetic.begin_breeding regular fair fresh ok
  | annealing =>
      rw [algorithm] at begun
      obtain ⟨ok, rfl, rfl⟩ := split_eq_ok begun
      have start := p.begin_settled regular _ fair fresh ok
      exact start.1.climbing start.2

/-! ### Steps -/

theorem Stands.skipStep {s : Strategy} {w : Surroundings (σ × Calls)} (stands : s.Stands base w) :
    s.skipStep.Stands base w := by
  cases s with
  | lateAcceptance progress | annealing progress =>
      exact ⟨stands.toSettled.frame rfl rfl rfl, stands.behind⟩
  | genetic progress => exact ⟨stands.toSettled.frame rfl rfl rfl, stands.covered⟩

/-- A step keeps the invariant, whether it succeeds or fails. -/
theorem step_stands (regular : p.evaluator.Regular) {s : Strategy} {w : Surroundings (σ × Calls)}
    (stands : s.Stands base w) :
    (step p.logged s w).2.1.Stands base (step p.logged s w).2.2 := by
  unfold step
  split
  · exact stands.skipStep
  · cases s with
    | lateAcceptance progress => exact (LateAcceptance.step_climbing regular stands).state
    | genetic progress => exact (Genetic.step_breeding regular stands).state
    | annealing progress => exact (Annealing.step_climbing regular stands).state

theorem after_stands (regular : p.evaluator.Regular) {s : Strategy} {w : Surroundings (σ × Calls)}
    (stands : s.Stands base w) (steps : Nat) :
    (after p.logged (s, w) steps).1.Stands base (after p.logged (s, w) steps).2 := by
  induction steps with
  | zero => exact stands
  | succ steps ih => exact step_stands regular ih

theorem after_add (p : Plan σ) (start : Strategy × Surroundings σ) (first more : Nat) :
    after p start (first + more) = after p (after p start first) more := by
  induction more with
  | zero => rfl
  | succ more ih =>
      change (step p (after p start (first + more)).1 (after p start (first + more)).2).2 = _
      rw [ih]
      rfl

/-! ### What is reported -/

/-- The invariants agree on the best candidate. -/
theorem Stands.best {s : Strategy} {w : Surroundings (σ × Calls)} (stands : s.Stands base w) :
    base <+: w.memory.2 ∧ decode (effective s.bestScore) ≠ .nan ∧
      EarliestBest w.memory.2 s.best s.bestScore := by
  cases s with
  | lateAcceptance progress => exact ⟨stands.grown, stands.number, stands.toSettled.best⟩
  | genetic progress => exact ⟨stands.grown, stands.number, stands.toSettled.best⟩
  | annealing progress => exact ⟨stands.grown, stands.number, stands.toSettled.best⟩

/-- The calls so far can be taken as the first ones from now on. -/
theorem Stands.rebase {s : Strategy} {w : Surroundings (σ × Calls)} (stands : s.Stands base w) :
    s.Stands w.memory.2 w := by
  cases s with
  | lateAcceptance progress | annealing progress =>
      exact ⟨⟨List.prefix_rfl, stands.fair, stands.number, stands.toSettled.best⟩, stands.behind⟩
  | genetic progress =>
      exact ⟨⟨List.prefix_rfl, stands.fair, stands.number, stands.toSettled.best⟩,
        stands.covered⟩

end Strategy

/-- The best score only rises as more calls follow. -/
theorem EarliestBest.rises {calls more : Calls} {c d : Candidate} {score score' : Option Score}
    (best : EarliestBest calls c score) (best' : EarliestBest more d score')
    (grown : calls <+: more) (number : decode (effective score') ≠ .nan) :
    effective score ≤ effective score' := by
  obtain ⟨before, given, after, rfl, rfl, -, -⟩ := best
  rw [effective_counted]
  exact best'.le number (c, given) (grown.subset (by simp))

/-- Whatever the algorithm, its settings and the random numbers: what a search reports as the best
candidate and score is the first of all calls of its evaluator with the greatest effective score,
so no call was better, and the best score never falls.  The calls are those of the same search
with an evaluator that writes them down. -/
theorem Plan.reached_earliestBest (p : Plan σ) (regular : p.evaluator.Regular)
    {w : Surroundings σ} (fair : w.source.Fair) {steps : Nat} {s : Strategy} {v : Surroundings σ}
    (reached : p.reached w steps = .ok (s, v)) :
    p.logged.reached (w.withCalls []) steps = .ok (s, v.withCalls (p.calls w steps)) ∧
      EarliestBest (p.calls w steps) s.best s.bestScore ∧
      (∀ call ∈ p.calls w steps, effective (some call.2) ≤ effective s.bestScore) ∧
      ∀ earlier s' v', earlier ≤ steps → p.reached w earlier = .ok (s', v') →
        effective s'.bestScore ≤ effective s.bestScore := by
  have logged := Plan.reached_logged reached
  obtain ⟨start, v₀, begun, final⟩ := Plan.reached_eq_ok logged
  have stands := Strategy.begin_stands regular (w := w.withCalls []) fair rfl begun
  have ends := Strategy.after_stands regular stands steps
  rw [← final] at ends
  obtain ⟨-, number, best⟩ := ends.best
  refine ⟨logged, best, best.le number, fun earlier s' v' before reached' => ?_⟩
  obtain ⟨more, rfl⟩ := Nat.exists_eq_add_of_le before
  have logged' := Plan.reached_logged reached'
  obtain ⟨start', v₀', begun', final'⟩ := Plan.reached_eq_ok logged'
  rw [begun] at begun'
  obtain ⟨start_eq, v_eq⟩ := Prod.mk.inj begun'
  obtain rfl := Except.ok.inj start_eq
  subst v_eq
  have middle := Strategy.after_stands regular stands earlier
  have later := Strategy.after_stands regular middle.rebase more
  rw [← Strategy.after_add, ← final] at later
  rw [← final'] at middle later
  exact middle.best.2.2.rises best later.best.1 number

/-- Functions of one number, those that are no leaf being worth more. -/
def Evaluator.byShape : Evaluator Unit where
  mode := .primeGen
  score c := return ⟨if c.size = 1 then 1.0 else 2.0, [], true⟩

/-- Three steps of annealing, the first of them with random numbers that are laid out. -/
theorem Plan.reached_earliestBest_byShape :
    let p : Plan Unit := ⟨{ algorithm := .annealing }, .byShape⟩
    let w : Surroundings Unit := ⟨⟨[0.5, 0.25, 0.75], 7, 0⟩, ()⟩
    ∃ s v, p.reached w 3 = .ok (s, v) ∧ EarliestBest (p.calls w 3) s.best s.bestScore := by
  intro p w
  have regular : p.evaluator.Regular := by
    refine ⟨fun c w _ _ => ?_, fun c w fair => fair⟩
    change (if c.size = 1 then 1.0 else 2.0 : Float).isNaN = false
    split <;> decide +kernel
  have fair : w.source.Fair := by
    intro u listed
    simp only [w, List.mem_cons, List.not_mem_nil, or_false] at listed
    rcases listed with rfl | rfl | rfl <;> exact ⟨by decide +kernel, by decide +kernel⟩
  have begins : (p.reached w 3).toOption.isSome = true := by decide +kernel
  cases reached : p.reached w 3 with
  | error e =>
      rw [reached] at begins
      cases begins
  | ok x => exact ⟨x.1, x.2, rfl, (p.reached_earliestBest regular fair reached).2.1⟩

end PrimeSearch
