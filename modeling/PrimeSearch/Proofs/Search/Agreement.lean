/-
Module: PrimeSearch.Proofs.Search.Agreement
Purpose: Searches with evaluators that score alike run alike, whatever the evaluators remember.
Main exports: Evaluator.Agrees, Search.Matches, Move.Agrees, Strategy.begin_agrees,
  Strategy.step_agrees
-/
import PrimeSearch.Search.Strategy
import PrimeSearch.Proofs.Search.Moves

namespace PrimeSearch

variable {σ τ ε α β : Type} {R : σ → τ → Prop}

/-!
A search hands the memory of its evaluator on and never looks at it.  So when two evaluators
score alike as long as their memories are related, and keep them related, then searches with
them draw the same numbers, propose the same candidates and report the same results.
-/

/-- The same source, and related memories. -/
structure Surroundings.Matches (R : σ → τ → Prop) (w : Surroundings σ) (v : Surroundings τ) :
    Prop where
  source : w.source = v.source
  memory : R w.memory v.memory

/-- Evaluators of the same mode that score alike in surroundings that match. -/
structure Evaluator.Agrees (R : σ → τ → Prop) (e : Evaluator σ) (e' : Evaluator τ) : Prop where
  mode : e.mode = e'.mode
  score : ∀ c w v, w.Matches R v →
    ((e.score c).run w).1 = ((e'.score c).run v).1 ∧
      ((e.score c).run w).2.Matches R ((e'.score c).run v).2

theorem Evaluator.Agrees.evaluate {e : Evaluator σ} {e' : Evaluator τ} (alike : e.Agrees R e')
    (c : Candidate) {w : Surroundings σ} {v : Surroundings τ} (related : w.Matches R v) :
    ((e.evaluate c).run.run w).1 = ((e'.evaluate c).run.run v).1 ∧
      ((e.evaluate c).run.run w).2.Matches R ((e'.evaluate c).run.run v).2 := by
  unfold Evaluator.evaluate
  rw [alike.mode]
  split
  · obtain ⟨same, after⟩ := alike.score c w v related
    exact ⟨congrArg Except.ok same, after⟩
  · exact ⟨rfl, related⟩

/-- The same progress, in surroundings that match. -/
structure Search.Matches (R : σ → τ → Prop) (s : Search σ ε) (t : Search τ ε) : Prop where
  progress : s.toProgress = t.toProgress
  surroundings : s.toSurroundings.Matches R t.toSurroundings

namespace Move

/-- From states that match, two moves have the same outcome and end in states that match. -/
def Agrees (R : σ → τ → Prop) (m : Move σ ε α) (m' : Move τ ε α) : Prop :=
  ∀ s t, s.Matches R t →
    (m.run.run s).1 = (m'.run.run t).1 ∧ (m.run.run s).2.Matches R (m'.run.run t).2

section
variable {m : Move σ ε α} {m' : Move τ ε α}

theorem Agrees.pure (a : α) :
    Agrees R (Pure.pure a : Move σ ε α) (Pure.pure a : Move τ ε α) :=
  fun _ _ related => ⟨rfl, related⟩

theorem Agrees.throw (e : SearchError) :
    Agrees R (throw e : Move σ ε α) (throw e : Move τ ε α) :=
  fun _ _ related => ⟨rfl, related⟩

theorem Agrees.bind {f : α → Move σ ε β} {f' : α → Move τ ε β} (first : Agrees R m m')
    (rest : ∀ a, Agrees R (f a) (f' a)) : Agrees R (m >>= f) (m' >>= f') := by
  intro s t related
  have outcome := first s t related
  rw [ExceptT.run_bind, StateT.run_bind, ExceptT.run_bind, StateT.run_bind]
  generalize m.run.run s = before at outcome ⊢
  generalize m'.run.run t = before' at outcome ⊢
  obtain ⟨a, s⟩ := before
  obtain ⟨a', t⟩ := before'
  obtain ⟨same, related⟩ := outcome
  obtain rfl : a = a' := same
  cases a with
  | ok a => exact rest a s t related
  | error e => exact ⟨rfl, related⟩

/-- Two moves that read the state go on alike when they do so in states that match. -/
theorem Agrees.get_bind {f : Search σ ε → Move σ ε β} {f' : Search τ ε → Move τ ε β}
    (rest : ∀ s t, s.Matches R t → Agrees R (f s) (f' t)) :
    Agrees R (get >>= f) (get >>= f') :=
  fun s t related => rest s t related s t related

theorem Agrees.ite {c : Prop} [Decidable c] {n : Move σ ε α} {n' : Move τ ε α}
    (yes : c → Agrees R m m') (no : ¬c → Agrees R n n') :
    Agrees R (if c then m else n) (if c then m' else n') := by
  split
  next holds => exact yes holds
  next fails => exact no fails

/-- A change of the progress only. -/
theorem Agrees.progress (change : Progress ε → Progress ε) :
    Agrees R (modify fun s : Search σ ε => { s with toProgress := change s.toProgress })
      (modify fun t : Search τ ε => { t with toProgress := change t.toProgress }) :=
  fun _ _ related => ⟨rfl, ⟨congrArg change related.progress, related.surroundings⟩⟩

theorem Agrees.set {s : Search σ ε} {t : Search τ ε} (related : s.Matches R t) :
    Agrees R (set s : Move σ ε Unit) (set t) := fun _ _ _ => ⟨rfl, related⟩

theorem Agrees.draw (d : Draw α) :
    Agrees R (PrimeSearch.draw d : Move σ ε α) (PrimeSearch.draw d) := by
  intro s t related
  obtain ⟨same, ⟨source, memory⟩⟩ := related
  change (Except.ok (d.run s.source).1 : Except SearchError α) = .ok (d.run t.source).1 ∧ _
  rw [← source]
  exact ⟨rfl, ⟨same, ⟨congrArg (fun source => (d.run source).2) source, memory⟩⟩⟩

theorem Agrees.attempt (d : Trial α) :
    Agrees R (PrimeSearch.attempt d : Move σ ε α) (PrimeSearch.attempt d) := by
  intro s t related
  obtain ⟨same, ⟨source, memory⟩⟩ := related
  exact ⟨congrArg (fun source => (d.run.run source).1.mapError SearchError.noPartner) source,
    ⟨same, ⟨congrArg (fun source => (d.run.run source).2) source, memory⟩⟩⟩

end

/-! ### Moves of all algorithms -/

theorem wasSeen_agrees (c : Candidate) :
    Agrees R (wasSeen c : Move σ ε Bool) (wasSeen c) :=
  .get_bind fun s t related => by
    rw [related.progress]
    exact .pure _

theorem updateBest_agrees (c : Candidate) (score : Option Score) :
    Agrees R (updateBest c score : Move σ ε Bool) (updateBest c score) :=
  .get_bind fun s t related => by
    rw [related.progress]
    refine .ite (fun _ => .bind (.set ⟨rfl, related.surroundings⟩) fun _ => .pure _) fun _ => ?_
    exact .pure _

theorem setCurrent_agrees (c : Candidate) (score : Option Score) :
    Agrees R (setCurrent c score : Move σ ε Unit) (setCurrent c score) :=
  .progress fun s => { s with current := c, currentScore := score }

theorem nextIteration_agrees : Agrees R (nextIteration : Move σ ε Unit) nextIteration :=
  .progress fun s => { s with iteration := s.iteration + 1 }

theorem stepResult_agrees (accepted : Bool) :
    Agrees R (stepResult accepted : Move σ ε StepResult) (stepResult accepted) :=
  .get_bind fun s t related => by
    rw [related.progress]
    exact .pure _

end Move

namespace Plan

open Move

variable {config : SearchConfig} {e : Evaluator σ} {e' : Evaluator τ}

theorem evaluate_agrees (alike : e.Agrees R e') (c : Candidate) :
    Agrees R (evaluate ⟨config, e⟩ c : Move σ ε (Option Score)) (evaluate ⟨config, e'⟩ c) := by
  refine .bind (.progress fun s => { s with seen := s.seen.insert c.key }) fun _ => ?_
  refine .bind ?_ fun score => .pure _
  intro s t related
  obtain ⟨same, after⟩ := alike.evaluate c related.surroundings
  exact ⟨congrArg (·.mapError SearchError.mismatch) same, ⟨related.progress, after⟩⟩

theorem mutation_agrees (parent : Candidate) (both : Bool) :
    Agrees R (mutation ⟨config, e⟩ parent both : Move σ ε Candidate)
      (mutation ⟨config, e'⟩ parent both) := .attempt _

theorem proposeWithin_agrees (alike : e.Agrees R e') (parent : Candidate)
    (requireScore both : Bool) (tries : Nat) (last : Candidate) :
    Agrees R (proposeWithin ⟨config, e⟩ parent requireScore both tries last : Move σ ε _)
      (proposeWithin ⟨config, e'⟩ parent requireScore both tries last) := by
  induction tries generalizing last with
  | zero => exact .pure _
  | succ tries ih =>
      refine .bind (mutation_agrees parent both) fun c => ?_
      refine .bind (wasSeen_agrees c) fun seen => .ite (fun _ => ih c) fun _ => ?_
      exact .bind (evaluate_agrees alike c) fun score => .ite (fun _ => .pure _) fun _ => ih c

theorem propose_agrees (alike : e.Agrees R e') (parent : Candidate) (requireScore both : Bool) :
    Agrees R (propose ⟨config, e⟩ parent requireScore both : Move σ ε _)
      (propose ⟨config, e'⟩ parent requireScore both) :=
  proposeWithin_agrees alike parent requireScore both _ _

theorem scoreFirst_agrees (alike : e.Agrees R e') :
    Agrees R (scoreFirst ⟨config, e⟩ : Move σ ε Unit) (scoreFirst ⟨config, e'⟩) := by
  refine .get_bind fun s t related => ?_
  rw [related.progress]
  exact .bind (evaluate_agrees alike _) fun score =>
    .progress fun s => { s with currentScore := score, bestScore := score }

/-- Beginnings have the same outcome and end in states that match. -/
theorem begin_agrees (alike : e.Agrees R e') (own : ε) {w : Surroundings σ} {v : Surroundings τ}
    (related : w.Matches R v) :
    (begin ⟨config, e⟩ own w).1 = (begin ⟨config, e'⟩ own v).1 ∧
      (begin ⟨config, e⟩ own w).2.Matches R (begin ⟨config, e'⟩ own v).2 := by
  unfold Plan.begin
  dsimp only
  rw [related.source]
  exact scoreFirst_agrees alike _ _ ⟨rfl, ⟨rfl, related.memory⟩⟩

end Plan

/-! ### The algorithms -/

section
variable {config : SearchConfig} {e : Evaluator σ} {e' : Evaluator τ}

namespace LateAcceptance

open Move

theorem step_agrees (alike : e.Agrees R e') :
    Move.Agrees R (step ⟨config, e⟩) (step ⟨config, e'⟩) := by
  refine .bind nextIteration_agrees fun _ => .get_bind fun s t related => ?_
  rw [related.progress]
  refine .bind (Plan.propose_agrees alike _ _ _) fun (c, score) => ?_
  refine .get_bind fun s t related => ?_
  rw [related.progress]
  dsimp only
  refine .ite (fun _ => ?_) fun _ => ?_
  · refine .bind (setCurrent_agrees c score) fun _ => .bind (updateBest_agrees c score) fun _ => ?_
    exact .bind (.progress fun s => { s with own := push _ s.own (effective s.currentScore) })
      fun _ => stepResult_agrees _
  · exact .bind (.progress fun s => { s with own := push _ s.own (effective s.currentScore) })
      fun _ => stepResult_agrees _

end LateAcceptance

namespace Annealing

open Move

/-- Whether the temperature can be computed with is a matter of the settings. -/
theorem useTemperature_agrees (needed : Bool) :
    Move.Agrees R (useTemperature ⟨config, e⟩ needed) (useTemperature ⟨config, e'⟩ needed) :=
  .ite (fun _ => .throw _) fun _ => .pure _

theorem cool_agrees : Move.Agrees R (cool ⟨config, e⟩) (cool ⟨config, e'⟩) :=
  .bind (useTemperature_agrees _) fun _ =>
    .progress fun s => { s with own := s.own * config.coolingRate.toFloat }

theorem consider_agrees (c : Candidate) (score : Score) :
    Move.Agrees R (consider ⟨config, e⟩ c score) (consider ⟨config, e'⟩ c score) := by
  refine .get_bind fun s t related => ?_
  rw [related.progress]
  refine .bind (.draw _) fun accepted => .bind (useTemperature_agrees _) fun _ => ?_
  dsimp only
  refine .ite (fun _ => ?_) fun _ => .pure _
  exact .bind (setCurrent_agrees _ _) fun _ => .bind (updateBest_agrees _ _) fun _ => .pure _

theorem step_agrees (alike : e.Agrees R e') :
    Move.Agrees R (step ⟨config, e⟩) (step ⟨config, e'⟩) := by
  refine .bind nextIteration_agrees fun _ => .get_bind fun s t related => ?_
  rw [related.progress]
  refine .bind (Plan.propose_agrees alike _ _ _) fun (c, score) => ?_
  have finish (accepted : Bool) : Move.Agrees R
      (do cool ⟨config, e⟩; stepResult accepted) (do cool ⟨config, e'⟩; stepResult accepted) :=
    .bind cool_agrees fun _ => stepResult_agrees accepted
  cases score with
  | none => exact finish false
  | some score => exact .bind (consider_agrees c score) fun accepted => finish accepted

end Annealing

namespace Genetic

open Move

theorem record_agrees (c : Candidate) (score : Option Score) :
    Move.Agrees R (record c score : Move σ _ Unit) (record c score) := by
  refine .bind (.progress fun s : Progress Population =>
    { s with own := { s.own with scores := s.own.scores.insert c.key score } }) fun _ => ?_
  exact .bind (updateBest_agrees c score) fun _ => .pure _

theorem enlarge_agrees (alike : e.Agrees R e') (c : Candidate) :
    Move.Agrees R (enlarge ⟨config, e⟩ c) (enlarge ⟨config, e'⟩ c) := by
  refine .bind (Plan.evaluate_agrees alike c) fun score => ?_
  refine .bind (.progress fun s : Progress Population =>
    { s with own := { s.own with members := s.own.members ++ [c] } }) fun _ => ?_
  exact record_agrees c score

theorem fillAny_agrees (alike : e.Agrees R e') (places : Nat) :
    Move.Agrees R (fillAny ⟨config, e⟩ places) (fillAny ⟨config, e'⟩ places) := by
  induction places with
  | zero => exact .pure _
  | succ places ih =>
      exact .bind (.draw _) fun c => .bind (enlarge_agrees alike c) fun _ => ih

theorem fillNew_agrees (alike : e.Agrees R e') (tries places : Nat) :
    Move.Agrees R (fillNew ⟨config, e⟩ tries places) (fillNew ⟨config, e'⟩ tries places) := by
  induction tries generalizing places with
  | zero => exact fillAny_agrees alike places
  | succ tries ih =>
      cases places with
      | zero => exact .pure _
      | succ places =>
          refine .bind (.draw _) fun c => .bind (wasSeen_agrees c) fun seen => ?_
          refine .ite (fun _ => ih (places + 1)) fun _ => ?_
          exact .bind (enlarge_agrees alike c) fun _ => ih places

theorem populate_agrees (alike : e.Agrees R e') :
    Move.Agrees R (populate ⟨config, e⟩) (populate ⟨config, e'⟩) := by
  refine .bind (.progress fun s : Progress Population => { s with
    own := ⟨[s.current], Std.TreeMap.empty.insert s.current.key s.currentScore⟩ }) fun _ => ?_
  exact fillNew_agrees alike _ _

theorem begin_agrees (alike : e.Agrees R e') {w : Surroundings σ} {v : Surroundings τ}
    (related : w.Matches R v) :
    (begin ⟨config, e⟩ w).1 = (begin ⟨config, e'⟩ v).1 ∧
      (begin ⟨config, e⟩ w).2.Matches R (begin ⟨config, e'⟩ v).2 := by
  have first := @Plan.begin_agrees σ τ _ R config e e' alike (⟨[], ∅⟩ : Population) w v related
  unfold Genetic.begin
  generalize Plan.begin ⟨config, e⟩ _ w = begun at first ⊢
  generalize Plan.begin ⟨config, e'⟩ _ v = begun' at first ⊢
  obtain ⟨outcome, s⟩ := begun
  obtain ⟨outcome', t⟩ := begun'
  obtain ⟨same, related⟩ := first
  obtain rfl : outcome = outcome' := same
  cases outcome with
  | ok _ => exact populate_agrees alike s t related
  | error e => exact ⟨rfl, related⟩

theorem drawMember_agrees :
    Move.Agrees R (drawMember : Move σ _ Candidate) drawMember := by
  refine .get_bind fun s t related => ?_
  rw [related.progress]
  split
  · exact .pure _
  · exact .draw _

theorem redraw_agrees (tries : Nat) (c : Candidate) :
    Move.Agrees R (redraw tries c : Move σ _ Candidate) (redraw tries c) := by
  induction tries generalizing c with
  | zero => exact .pure _
  | succ tries ih =>
      refine .get_bind fun s t related => ?_
      rw [related.progress]
      exact .ite (fun _ => .pure _) fun _ => .bind drawMember_agrees fun c => ih c

theorem compete_agrees (places : Nat) (best : Candidate) :
    Move.Agrees R (compete places best : Move σ _ Candidate) (compete places best) := by
  induction places generalizing best with
  | zero => exact .pure _
  | succ places ih =>
      refine .bind (.bind drawMember_agrees fun c => redraw_agrees _ c) fun c => ?_
      refine .get_bind fun s t related => ?_
      rw [related.progress]
      exact ih _

theorem selectParent_agrees :
    Move.Agrees R (selectParent ⟨config, e⟩) (selectParent ⟨config, e'⟩) :=
  .bind (.bind drawMember_agrees fun c => redraw_agrees _ c) fun first => compete_agrees _ first

theorem belowRate_agrees (rate : Option Quantity) :
    Move.Agrees R (belowRate rate : Move σ _ Bool) (belowRate rate) := by
  refine .bind (.draw _) fun u => ?_
  cases rate with
  | none => exact .throw _
  | some rate => exact .pure _

theorem mutateChild_agrees (c : Candidate) :
    Move.Agrees R (mutateChild ⟨config, e⟩ c) (mutateChild ⟨config, e'⟩ c) := by
  refine .bind (belowRate_agrees _) fun replaced => .ite (fun _ => .draw _) fun _ => ?_
  dsimp only
  refine .ite (fun _ => .bind (.draw _) fun transform => ?_)
    fun _ => .bind (.pure _) fun transform => ?_
  all_goals
    refine .ite (fun _ => .attempt _) fun _ => .bind (belowRate_agrees _) fun mutated => ?_
    exact .ite (fun _ => .attempt _) fun _ => .pure _

theorem offer_agrees (alike : e.Agrees R e') (b : Brood) (child : Candidate) :
    Move.Agrees R (offer ⟨config, e⟩ b child) (offer ⟨config, e'⟩ b child) := by
  refine .ite (fun _ => .pure _) fun _ => .bind (mutateChild_agrees child) fun c => ?_
  refine .bind (wasSeen_agrees c) fun seen => .ite (fun _ => .pure _) fun _ => ?_
  refine .bind (Plan.evaluate_agrees alike c) fun score => ?_
  cases score with
  | none => exact .pure _
  | some score =>
      exact .bind (record_agrees c _) fun _ => .bind (setCurrent_agrees c _) fun _ => .pure _

theorem breed_agrees (alike : e.Agrees R e') (rounds : Nat) (b : Brood) :
    Move.Agrees R (breed ⟨config, e⟩ rounds b) (breed ⟨config, e'⟩ rounds b) := by
  induction rounds generalizing b with
  | zero => exact .pure _
  | succ rounds ih =>
      refine .ite (fun _ => ?_) fun _ => .pure _
      refine .bind selectParent_agrees fun first => .bind selectParent_agrees fun second => ?_
      refine .bind (.attempt _) fun (one, other) => ?_
      refine .bind (offer_agrees alike b one) fun b => ?_
      exact .bind (offer_agrees alike b other) fun b => ih b

theorem topUp_agrees (alike : e.Agrees R e') (places : Nat) (b : Brood) :
    Move.Agrees R (topUp ⟨config, e⟩ places b) (topUp ⟨config, e'⟩ places b) := by
  induction places generalizing b with
  | zero => exact .pure _
  | succ places ih =>
      refine .bind (.draw _) fun c => .bind (wasSeen_agrees c) fun seen => ?_
      dsimp only
      refine .ite (fun _ => .get_bind fun s t related => ?_) fun _ => ?_
      · rw [related.progress]
        refine .bind (.pure _) fun score => ?_
        exact .bind (record_agrees c score) fun _ => ih _
      · refine .bind (Plan.evaluate_agrees alike c) fun score => ?_
        exact .bind (record_agrees c score) fun _ => ih _

theorem step_agrees (alike : e.Agrees R e') :
    Move.Agrees R (step ⟨config, e⟩) (step ⟨config, e'⟩) := by
  refine .bind nextIteration_agrees fun _ => .get_bind fun s t related => ?_
  rw [related.progress]
  refine .bind (breed_agrees alike _ _) fun b => .bind (topUp_agrees alike _ b) fun b => ?_
  refine .bind ?_ fun _ => stepResult_agrees true
  exact .progress fun s : Progress Population =>
    { s with own := ⟨b.members, b.members.foldl
        (fun scores c => scores.insert c.key (scoreOf s.own c)) Std.TreeMap.empty⟩ }

end Genetic

/-! ### The face of the algorithms -/

namespace Strategy

theorem split_agrees (wrap : Progress ε → Strategy)
    {begun : Except SearchError Unit × Search σ ε} {begun' : Except SearchError Unit × Search τ ε}
    (alike : begun.1 = begun'.1 ∧ begun.2.Matches R begun'.2) :
    (split wrap begun).1 = (split wrap begun').1 ∧
      (split wrap begun).2.Matches R (split wrap begun').2 := by
  obtain ⟨same, progress, surroundings⟩ := alike
  unfold split
  rw [same, progress]
  exact ⟨rfl, surroundings⟩

theorem requireLength_agrees
    {begun : Except SearchError Strategy × Surroundings σ}
    {begun' : Except SearchError Strategy × Surroundings τ}
    (alike : begun.1 = begun'.1 ∧ begun.2.Matches R begun'.2) :
    (requireLength config begun).1 = (requireLength config begun').1 ∧
      (requireLength config begun).2.Matches R (requireLength config begun').2 := by
  obtain ⟨same, surroundings⟩ := alike
  unfold requireLength
  rw [same]
  split
  · exact ⟨rfl, surroundings⟩
  · split
    · exact ⟨rfl, surroundings⟩
    · exact ⟨same, surroundings⟩

/-- A search begins alike with evaluators that agree. -/
theorem begin_agrees (alike : e.Agrees R e') {w : Surroundings σ} {v : Surroundings τ}
    (related : w.Matches R v) :
    (begin ⟨config, e⟩ w).1 = (begin ⟨config, e'⟩ v).1 ∧
      (begin ⟨config, e⟩ w).2.Matches R (begin ⟨config, e'⟩ v).2 := by
  unfold Strategy.begin
  dsimp only
  cases config.algorithm with
  | lateAcceptance =>
      exact requireLength_agrees (split_agrees _ (Plan.begin_agrees alike _ related))
  | genetic => exact split_agrees _ (Genetic.begin_agrees alike related)
  | annealing => exact split_agrees _ (Plan.begin_agrees alike _ related)

theorem run_agrees (wrap : Progress ε → Strategy) {m : Move σ ε α} {m' : Move τ ε α}
    (alike : Move.Agrees R m m') (p : Progress ε) {w : Surroundings σ} {v : Surroundings τ}
    (related : w.Matches R v) :
    (run wrap m p w).1 = (run wrap m' p v).1 ∧
      (run wrap m p w).2.1 = (run wrap m' p v).2.1 ∧
        (run wrap m p w).2.2.Matches R (run wrap m' p v).2.2 := by
  obtain ⟨same, progress, surroundings⟩ :=
    alike { p with source := w.source, memory := w.memory }
      { p with source := v.source, memory := v.memory } ⟨rfl, related⟩
  exact ⟨same, congrArg wrap progress, surroundings⟩

/-- A search takes a step alike with evaluators that agree. -/
theorem step_agrees (alike : e.Agrees R e') (s : Strategy) {w : Surroundings σ}
    {v : Surroundings τ} (related : w.Matches R v) :
    (step ⟨config, e⟩ s w).1 = (step ⟨config, e'⟩ s v).1 ∧
      (step ⟨config, e⟩ s w).2.1 = (step ⟨config, e'⟩ s v).2.1 ∧
        (step ⟨config, e⟩ s w).2.2.Matches R (step ⟨config, e'⟩ s v).2.2 := by
  unfold Strategy.step
  dsimp only
  split
  · exact ⟨rfl, rfl, related⟩
  · cases s with
    | lateAcceptance p => exact run_agrees _ (LateAcceptance.step_agrees alike) p related
    | genetic p => exact run_agrees _ (Genetic.step_agrees alike) p related
    | annealing p => exact run_agrees _ (Annealing.step_agrees alike) p related

/-- A search proposes alike with evaluators that agree. -/
theorem propose_agrees (alike : e.Agrees R e') (parent : Candidate) (requireScore both : Bool)
    (s : Strategy) {w : Surroundings σ} {v : Surroundings τ} (related : w.Matches R v) :
    (propose ⟨config, e⟩ parent requireScore both s w).1 =
        (propose ⟨config, e'⟩ parent requireScore both s v).1 ∧
      (propose ⟨config, e⟩ parent requireScore both s w).2.1 =
          (propose ⟨config, e'⟩ parent requireScore both s v).2.1 ∧
        (propose ⟨config, e⟩ parent requireScore both s w).2.2.Matches R
          (propose ⟨config, e'⟩ parent requireScore both s v).2.2 := by
  unfold Strategy.propose
  dsimp only
  split
  · exact ⟨rfl, rfl, related⟩
  · cases s with
    | lateAcceptance p | genetic p | annealing p =>
        exact run_agrees _ (Plan.propose_agrees alike _ _ _) p related

end Strategy

end

end PrimeSearch
