/-
Module: PrimeSearch.Proofs.Search.Climbing
Purpose: Late acceptance and annealing never pass over a candidate better than the best one.
Main exports: Climbing, Plan.propose_proposed, LateAcceptance.step_climbing,
  Annealing.step_climbing
-/
import PrimeSearch.Proofs.Search.Best

namespace PrimeSearch

open Binary64

/-!
Both algorithms compare a proposal with the best candidate only after they have accepted it.
Nothing is lost by that: the current candidate is never better than the best one, so what is
better than the best one is better than the current one, and such a proposal is accepted.
-/

variable {σ ε α : Type} {p : Plan σ} {base : Calls} {s t : Search (σ × Calls) ε}

/-- Between two calls, with a current candidate that is not better than the best one. -/
structure Climbing (base : Calls) (s : Search (σ × Calls) ε) : Prop extends Settled base s where
  behind : effective s.currentScore ≤ effective s.bestScore

theorem Climbing.quiet (climbing : Climbing base s) (quiet : Move.Quiet s t) :
    Climbing base t := by
  have settled := climbing.toSettled.quiet quiet
  obtain ⟨source, taken, rfl⟩ := quiet
  exact ⟨settled, climbing.behind⟩

/-- A move that only draws does not disturb what follows it. -/
theorem Climbing.draws {α β : Type} {m : Move (σ × Calls) ε α} {f : α → Move (σ × Calls) ε β}
    {Q : β → Search (σ × Calls) ε → Prop} (climbing : Climbing base s) (only : m.OnlyDraws)
    (rest : ∀ a t, Climbing base t → (f a).Ends t Q (Climbing base)) :
    (m >>= f).Ends s Q (Climbing base) :=
  only.bind_ends (fun _ => climbing.quiet) rest

/-- A proposal has no score, or the valid score of the latest call, which is still to be
compared. -/
def Proposed (base : Calls) (proposal : Candidate × Option Score) (s : Search (σ × Calls) ε) :
    Prop :=
  proposal.2 = none ∧ Climbing base s ∨
    ∃ given, given.valid = true ∧ proposal.2 = some given ∧
      Unsettled base proposal.1 given s ∧ effective s.currentScore ≤ effective s.bestScore

theorem Plan.evaluate_proposed (regular : p.evaluator.Regular) (c : Candidate)
    (climbing : Climbing base s) :
    Move.Ends (p.logged.evaluate c) s (fun score t => Proposed base (c, score) t)
      (Climbing base) := by
  refine climbing.toSettled.evaluate regular (fun given seen source memory unsettled => ?_)
    fun settled => ⟨settled, climbing.behind⟩
  cases valid : given.valid with
  | true => exact .inr ⟨given, valid, by simp [Score.counted, valid], unsettled, climbing.behind⟩
  | false =>
      refine .inl ⟨by simp [Score.counted, valid], ?_⟩
      exact ⟨unsettled.settled_of_invalid valid, climbing.behind⟩

theorem Plan.proposeWithin_proposed (regular : p.evaluator.Regular) (parent : Candidate)
    (requireScore both : Bool) (tries : Nat) (last : Candidate) (climbing : Climbing base s) :
    Move.Ends (p.logged.proposeWithin parent requireScore both tries last) s (Proposed base)
      (Climbing base) := by
  induction tries generalizing last s with
  | zero => exact .pure (.inl ⟨rfl, climbing⟩)
  | succ tries ih =>
      refine climbing.draws (.attempt (Operators.mutate_advances _ _ _ _)) fun c t climbing => ?_
      refine climbing.draws (.wasSeen c) fun seen t climbing => ?_
      refine .ite (fun _ => ih c climbing) fun _ => ?_
      refine .bind (p.evaluate_proposed regular c climbing) fun score t proposed => ?_
      refine .ite (fun _ => .pure proposed) fun retry => ?_
      rcases proposed with ⟨-, climbing⟩ | ⟨given, -, kept, -⟩
      · exact ih c climbing
      · simp [show score = some given from kept] at retry

/-- A proposal, with the state that proposing leaves behind. -/
theorem Plan.propose_proposed (regular : p.evaluator.Regular) (parent : Candidate)
    (requireScore both : Bool) (climbing : Climbing base s) :
    Move.Ends (p.logged.propose parent requireScore both) s (Proposed base) (Climbing base) :=
  p.proposeWithin_proposed regular parent requireScore both _ parent climbing

/-- Accepting a candidate makes it the current one and compares it with the best one. -/
theorem accept_climbing {c : Candidate} {given : Score} {score : Option Score}
    (unsettled : Unsettled base c given s) (kept : score = given.counted)
    {f : Bool → Move (σ × Calls) ε α} {Q : α → Search (σ × Calls) ε → Prop}
    {E : Search (σ × Calls) ε → Prop}
    (rest : ∀ changed t, Climbing base t → (f changed).Ends t Q E) :
    Move.Ends (do
      setCurrent c score
      let changed ← updateBest c score
      f changed) s Q E := by
  refine .modify_bind (.bind (R := fun _ t => Climbing base t) ?_ rest)
  have moved : Unsettled base c given { s with current := c, currentScore := score } :=
    unsettled.frame rfl rfl rfl
  refine moved.updateBest kept fun changed t settled _ atMost same => ⟨settled, ?_⟩
  rw [same]
  exact atMost

/-- A candidate that is not accepted is not better than the current one, and so not better than
the best one. -/
theorem reject_climbing {c : Candidate} {given : Score} (unsettled : Unsettled base c given s)
    (behind : effective s.currentScore ≤ effective s.bestScore)
    (notBetter : ¬effective s.currentScore < effective (some given)) : Climbing base s := by
  have number := ((le_iff _ _).mp behind).1
  have atMost := Binary64.le_of_not_lt number unsettled.numberGiven notBetter
  exact ⟨unsettled.settled (Binary64.le_trans atMost behind), behind⟩

/-! ### Late acceptance -/

theorem LateAcceptance.step_climbing {s : Search (σ × Calls) LateAcceptance.History}
    (regular : p.evaluator.Regular) (climbing : Climbing base s) :
    Move.Ends (LateAcceptance.step p.logged) s (fun _ t => Climbing base t) (Climbing base) := by
  have start : Climbing base { s with iteration := s.iteration + 1 } :=
    ⟨climbing.toSettled.frame rfl rfl rfl, climbing.behind⟩
  refine .modify_bind (.get_bind (.bind (p.propose_proposed regular _ _ _ start) ?_))
  rintro ⟨c, score⟩ t proposed
  refine .get_bind ?_
  have finish (accepted : Bool) {t : Search (σ × Calls) LateAcceptance.History}
      (climbing : Climbing base t) : Move.Ends (do
        modify fun s => { s with
          own := push p.config.historyLength.value s.own (effective s.currentScore) }
        stepResult accepted) t (fun _ t => Climbing base t) (Climbing base) :=
    .modify_bind (.get_bind (.pure
      ⟨climbing.toSettled.frame rfl rfl rfl, climbing.behind⟩))
  dsimp only
  refine .ite (fun accepted => ?_) fun rejected => ?_
  · rcases proposed with ⟨noScore, -⟩ | ⟨given, valid, kept, unsettled, -⟩
    · simp [show score = none from noScore] at accepted
    · have counted : score = given.counted := by
        rw [show score = some given from kept, Score.counted, if_pos valid]
      exact accept_climbing unsettled counted fun _ t climbing => finish _ climbing
  · rcases proposed with ⟨-, climbing⟩ | ⟨given, valid, kept, unsettled, behind⟩
    · exact finish _ climbing
    · refine finish _ (reject_climbing unsettled behind fun better => rejected ?_)
      simp [show score = some given from kept, acceptsLate, better]

/-! ### Annealing -/

/-- What is better than the current candidate is accepted for certain. -/
theorem Annealing.consider_climbing {s : Search (σ × Calls) Annealing.Temperature}
    {c : Candidate} {given : Score} (valid : given.valid = true)
    (unsettled : Unsettled base c given s)
    (behind : effective s.currentScore ≤ effective s.bestScore) :
    Move.Ends (Annealing.consider p.logged c given) s (fun _ t => Climbing base t)
      (Climbing base) := by
  refine .get_bind (.bind (R := fun accepted t =>
    t = { s with source := s.source.next.2 } ∧
      accepted = decide (s.source.next.1 < acceptanceProbability
        (given.total - effective s.currentScore) s.own)) (.draw ⟨rfl, rfl⟩) ?_)
  rintro accepted t ⟨rfl, chance⟩
  have drawn : Unsettled base c given { s with source := s.source.next.2 } :=
    ⟨unsettled.grown, unsettled.fair.advance, unsettled.number, unsettled.numberGiven,
      unsettled.best⟩
  have gain (better : effective s.currentScore < effective (some given)) :
      0.0 < given.total - effective s.currentScore := by
    have total : effective (some given) = given.total := by rw [effective, if_pos valid]
    exact zero_lt_sub (total ▸ better)
  dsimp only
  refine .bind (R := fun _ t => t = { s with source := s.source.next.2 }) ?_ ?_
  · refine Annealing.useTemperature_ends rfl fun loss _ => ?_
    exact reject_climbing drawn behind fun better => by simp [gain better] at loss
  rintro - t rfl
  refine .ite (fun _ => ?_) fun rejected => .pure (reject_climbing drawn behind fun better => ?_)
  · have counted : some given = given.counted := by rw [Score.counted, if_pos valid]
    exact accept_climbing drawn counted fun _ t climbing => .pure climbing
  · rw [chance, acceptanceProbability, if_pos (gain better)] at rejected
    exact rejected (decide_eq_true unsettled.fair.next.2)

theorem Annealing.step_climbing {s : Search (σ × Calls) Annealing.Temperature}
    (regular : p.evaluator.Regular) (climbing : Climbing base s) :
    Move.Ends (Annealing.step p.logged) s (fun _ t => Climbing base t) (Climbing base) := by
  have start : Climbing base { s with iteration := s.iteration + 1 } :=
    ⟨climbing.toSettled.frame rfl rfl rfl, climbing.behind⟩
  refine .modify_bind (.get_bind (.bind (p.propose_proposed regular _ _ _ start) ?_))
  rintro ⟨c, score⟩ t proposed
  have finish (accepted : Bool) {t : Search (σ × Calls) Annealing.Temperature}
      (climbing : Climbing base t) :
      Move.Ends (do Annealing.cool p.logged; stepResult accepted) t (fun _ t => Climbing base t)
        (Climbing base) :=
    Annealing.cool_stepResult_ends
      (fun _ _ _ => ⟨climbing.toSettled.frame rfl rfl rfl, climbing.behind⟩) fun _ => climbing
  rcases proposed with ⟨noScore, climbing⟩ | ⟨given, valid, kept, unsettled, behind⟩
  · obtain rfl : score = none := noScore
    exact finish false climbing
  · obtain rfl : score = some given := kept
    exact .bind (Annealing.consider_climbing valid unsettled behind)
      fun accepted t climbing => finish accepted climbing

end PrimeSearch
