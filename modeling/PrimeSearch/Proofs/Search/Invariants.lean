/-
Module: PrimeSearch.Proofs.Search.Invariants
Purpose: What a step keeps, whatever the algorithm: an invariant that no single change of the state
  breaks, and that scoring an unseen candidate does not break.
Main exports: Plan.Neutral, StepResult.Describes, LateAcceptance.step_finishes,
  Annealing.step_finishes, Genetic.step_finishes
-/
import PrimeSearch.Proofs.Search.Breeding

namespace PrimeSearch

variable {σ ε α β : Type}

/-!
Between the counting of one iteration and the counting of the next, all algorithms are put together
from the same few changes of the state: numbers are drawn, a candidate that was not seen before is
scored, the best or the current candidate is replaced, or the data of the algorithm are.
-/

/-- An invariant that no part of a step breaks. -/
structure Plan.Neutral (p : Plan σ) (I : Search σ ε → Prop) : Prop where
  quiet : ∀ {s t}, I s → Move.Quiet s t → I t
  best : ∀ s c score, I s → effective s.bestScore < effective score →
    I { s with best := c, bestScore := score }
  current : ∀ s c score, I s → I { s with current := c, currentScore := score }
  own : ∀ s own, I s → I { s with own }
  scored : ∀ s c, I s → s.seen.contains c.key = false →
    Move.Ends (p.evaluate c) s (fun _ t => I t) I

namespace Plan.Neutral

open Move

variable {p : Plan σ} {I : Search σ ε → Prop}

theorem draws (neutral : p.Neutral I) {m : Move σ ε α} (only : OnlyDraws m) : Keeps I m :=
  fun s holds => (only s).mono (fun _ _ quiet => ⟨trivial, neutral.quiet holds quiet⟩) fun _ =>
    neutral.quiet holds

theorem updateBest (neutral : p.Neutral I) (c : Candidate) (score : Option Score) :
    Keeps I (updateBest c score : Move σ ε Bool) :=
  fun s holds => updateBest_ends (fun better => ⟨trivial, neutral.best s c score holds better⟩)
    fun _ => ⟨trivial, holds⟩

theorem setCurrent (neutral : p.Neutral I) (c : Candidate) (score : Option Score) :
    Keeps I (setCurrent c score : Move σ ε Unit) :=
  .modify fun s => neutral.current s c score

/-- A candidate is scored only if it was not seen. -/
theorem unseen (neutral : p.Neutral I) {c : Candidate} {again : Move σ ε α}
    {f : Option Score → Move σ ε α} (old : Keeps I again) (new : ∀ score, Keeps I (f score)) :
    Keeps I (do
      if ← wasSeen c then again
      else
        let score ← p.evaluate c
        f score) := by
  refine fun s holds => .get_bind (.ite (fun _ => old s holds) fun notSeen => ?_)
  exact (neutral.scored s c holds (Bool.eq_false_of_not_eq_true notSeen)).bind fun score t holds =>
    new score t holds

theorem propose (neutral : p.Neutral I) (parent : Candidate) (requireScore both : Bool) :
    Keeps I (p.propose parent requireScore both : Move σ ε (Candidate × Option Score)) := by
  have within (tries : Nat) (last : Candidate) :
      Keeps I (p.proposeWithin parent requireScore both tries last :
        Move σ ε (Candidate × Option Score)) := by
    induction tries generalizing last with
    | zero => exact .pure trivial
    | succ tries ih =>
        refine .bind (neutral.draws (.attempt (Operators.mutate_advances _ _ _ _))) fun c _ => ?_
        exact neutral.unseen (ih c) fun score => .ite (fun _ => .pure trivial) fun _ => ih c
  exact within _ parent

end Plan.Neutral

/-! ### Steps -/

/-- The result of a step tells the state that it leaves behind. -/
def StepResult.Describes (r : StepResult) (s : Search σ ε) : Prop :=
  r.iteration = s.iteration ∧ r.current = s.current ∧ r.currentScore = s.currentScore ∧
    r.best = s.best ∧ r.bestScore = s.bestScore

/-- A move keeps an invariant, and its result tells the state that it leaves behind. -/
def Move.Finishes (I : Search σ ε → Prop) (m : Move σ ε StepResult) : Prop :=
  ∀ s, I s → m.Ends s (fun r t => I t ∧ r.Describes t) I

section
variable {I : Search σ ε → Prop}

theorem Move.Finishes.bind {m : Move σ ε α} {f : α → Move σ ε StepResult} (first : Keeps I m)
    (rest : ∀ a, Finishes I (f a)) : Finishes I (m >>= f) :=
  fun s holds => (first s holds).bind fun a t holds => rest a t holds.2

theorem Move.Finishes.get_bind {f : Search σ ε → Move σ ε StepResult}
    (rest : ∀ s, Finishes I (f s)) : Finishes I (get >>= f) :=
  fun s holds => .get_bind (rest s s holds)

theorem Move.Finishes.ite {c : Prop} [Decidable c] {m n : Move σ ε StepResult}
    (yes : c → Finishes I m) (no : ¬c → Finishes I n) : Finishes I (if c then m else n) := by
  split
  next holds => exact yes holds
  next fails => exact no fails

theorem stepResult_finishes (accepted : Bool) :
    Move.Finishes I (stepResult accepted : Move σ ε StepResult) :=
  fun _ holds => .get_bind (.pure ⟨holds, rfl, rfl, rfl, rfl, rfl⟩)

/-- A step counts its iteration before anything else. -/
def Move.FinishesStep (I : Search σ ε → Prop) (m : Move σ ε StepResult) : Prop :=
  ∀ s, I { s with iteration := s.iteration + 1 } →
    m.Ends s (fun r t => I t ∧ r.Describes t) I

theorem Move.Finishes.counted {f : Unit → Move σ ε StepResult} (rest : Finishes I (f ())) :
    FinishesStep I (nextIteration >>= f) := fun _ holds => .modify_bind (rest _ holds)

end

open Move

theorem LateAcceptance.step_finishes {p : Plan σ} {I : Search σ History → Prop}
    (neutral : p.Neutral I) : FinishesStep I (LateAcceptance.step p) := by
  refine Finishes.counted (.get_bind fun s => .bind (neutral.propose _ _ _) fun (c, score) => ?_)
  refine .get_bind fun s => ?_
  have finish (accepted : Bool) : Finishes I (do
      modify fun s : Search σ History => { s with
        own := push p.config.historyLength.value s.own (effective s.currentScore) }
      stepResult accepted) :=
    .bind (.modify fun s => neutral.own s _) fun _ => stepResult_finishes accepted
  refine .ite (fun _ => ?_) fun _ => finish _
  exact .bind (neutral.setCurrent c score) fun _ => .bind (neutral.updateBest c score) fun _ =>
    finish _

theorem Annealing.step_finishes {p : Plan σ} {I : Search σ Temperature → Prop}
    (neutral : p.Neutral I) : FinishesStep I (Annealing.step p) := by
  refine Finishes.counted (.get_bind fun s => .bind (neutral.propose _ _ _) fun (c, score) => ?_)
  have finish (accepted : Bool) : Finishes I (do cool p; stepResult accepted) :=
    .bind (fun s holds => cool_ends (fun _ => ⟨trivial, neutral.own s _ holds⟩) fun _ => holds)
      fun _ => stepResult_finishes accepted
  cases score with
  | none => exact finish false
  | some score =>
      have considered : Keeps I (consider p c score) := by
        refine .get_bind fun s _ => .bind (neutral.draws (.draw (.below _))) fun accepted _ => ?_
        refine .bind (R := fun _ => True) (fun s holds => ?_) fun _ _ => ?_
        · exact useTemperature_ends ⟨trivial, holds⟩ fun _ _ => holds
        refine .ite (fun _ => ?_) fun _ => .pure trivial
        exact .bind (neutral.setCurrent c _) fun _ _ => .bind (neutral.updateBest c _) fun _ _ =>
          .pure trivial
      exact .bind considered finish

namespace Genetic

variable {p : Plan σ} {I : Search σ Population → Prop}

theorem record_keeps (neutral : p.Neutral I) (c : Candidate) (score : Option Score) :
    Keeps I (record c score) :=
  .bind (.modify fun s => neutral.own s _) fun _ _ => .bind (neutral.updateBest c score) fun _ _ =>
    .pure trivial

/-- A child is scored only if neither the search has seen it nor the brood holds it. -/
theorem offer_keeps (neutral : p.Neutral I) (b : Brood) (child : Candidate) :
    Keeps I (offer p b child) := by
  refine .ite (fun _ => .pure trivial) fun _ => ?_
  refine .bind (neutral.draws (mutateChild_onlyDraws p child)) fun c _ => ?_
  refine fun s holds => .get_bind (.ite (fun _ => .pure ⟨trivial, holds⟩) fun new => ?_)
  have notSeen : s.seen.contains c.key = false := by
    rw [Bool.or_eq_true, not_or] at new
    exact Bool.eq_false_of_not_eq_true new.1
  refine (neutral.scored s c holds notSeen).bind fun score t holds => ?_
  cases score with
  | none => exact .pure ⟨trivial, holds⟩
  | some score =>
      have taken : Keeps I (do
          record c (some score)
          setCurrent c (some score)
          return b.accept c) :=
        .bind (record_keeps neutral c _) fun _ _ => .bind (neutral.setCurrent c _) fun _ _ =>
          .pure trivial
      exact taken t holds

theorem breed_keeps (neutral : p.Neutral I) (rounds : Nat) (b : Brood) :
    Keeps I (breed p rounds b) := by
  induction rounds generalizing b with
  | zero => exact .pure trivial
  | succ rounds ih =>
      refine .ite (fun _ => ?_) fun _ => .pure trivial
      refine .bind (neutral.draws (selectParent_onlyDraws p)) fun first _ => ?_
      refine .bind (neutral.draws (selectParent_onlyDraws p)) fun second _ => ?_
      refine .bind (neutral.draws (.attempt (Operators.crossover_advances _ _ _))) ?_
      intro (one, other) _
      refine .bind (offer_keeps neutral b one) fun b _ => ?_
      exact .bind (offer_keeps neutral b other) fun b _ => ih b

/-- A random candidate that was seen is taken with the score that is remembered of it. -/
theorem topUp_keeps (neutral : p.Neutral I) (places : Nat) (b : Brood) :
    Keeps I (topUp p places b) := by
  induction places generalizing b with
  | zero => exact .pure trivial
  | succ places ih =>
      refine .bind (neutral.draws (.draw (Operators.random_advances _))) fun c _ => ?_
      have rest (score : Option Score) : Keeps I (do
          record c score
          topUp p places (b.accept c)) := .bind (record_keeps neutral c score) fun _ _ => ih _
      have known : Keeps I (do
          let score := scoreOf (← get).own c
          record c score
          topUp p places (b.accept c)) := .get_bind fun s _ => rest _
      exact neutral.unseen known rest

theorem step_finishes (neutral : p.Neutral I) : FinishesStep I (Genetic.step p) := by
  refine Finishes.counted (.get_bind fun s => .bind (breed_keeps neutral _ _) fun b => ?_)
  refine .bind (topUp_keeps neutral _ b) fun b => .bind (.modify fun s => neutral.own s _) ?_
  intro _
  exact stepResult_finishes true

end Genetic

end PrimeSearch
