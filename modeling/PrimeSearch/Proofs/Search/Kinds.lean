/-
Module: PrimeSearch.Proofs.Search.Kinds
Purpose: A kind of candidates that the operators of a search do not leave: all that the search holds
  and all that it scores is of that kind.
Main exports: Strategy.candidates, Plan.Closed, Plan.Refuses, Move.Stays, Strategy.begin_holds,
  Strategy.step_holds, Plan.reached_holds, Plan.calls_holds
-/
import PrimeSearch.Proofs.Search.Reported

namespace PrimeSearch

variable {σ ε α β : Type}

/-! ### Kinds of candidates -/

/-- The candidates that a search holds: the current one, the best one, and those that its algorithm
keeps. -/
def Progress.candidates (kept : ε → List Candidate) (s : Progress ε) : List Candidate :=
  s.current :: s.best :: kept s.own

/-- The candidates that a search holds, whatever its algorithm. -/
def Strategy.candidates : Strategy → List Candidate
  | .lateAcceptance s => s.candidates fun _ => []
  | .genetic s => s.candidates Population.members
  | .annealing s => s.candidates fun _ => []

/-- A kind of candidates that is closed under the operators of a plan.  Scoring candidates of the
kind keeps the memory of the evaluator as `M` says. -/
structure Plan.Closed (p : Plan σ) (P : Candidate → Prop) (M : σ → Prop) : Prop where
  random : p.config.operators.random.Yields P
  mutate : ∀ {c}, P c → ∀ rate both, (p.config.operators.mutate c rate both).Yields P
  crossover : ∀ {c d}, P c → P d →
    (p.config.operators.crossover c d).Yields fun children => P children.1 ∧ P children.2
  /-- Both functions are changed by one transform only where they need not be related. -/
  transform : p.config.mode = .primeFold → p.config.operators.symmetric = false →
    ∀ {c}, P c → (Operators.symmetricMutation c).Yields P
  memory : ∀ {c} {w : Surroundings σ}, P c → M w.memory →
    M ((p.evaluator.score c).run w).2.memory

/-- Why a search cannot be begun: the evaluator is not of the mode of a candidate. -/
inductive Plan.Mismatches (p : Plan σ) (P : Candidate → Prop) : SearchError → Prop where
  | intro {c : Candidate} (kind : P c) (other : c.mode ≠ p.evaluator.mode) :
      p.Mismatches P (.mismatch ⟨c.mode, p.evaluator.mode⟩)

/-- Why a step fails: what has to be counted out is not whole, a rate was left open, the temperature is
too hot to compute with, or the evaluator is not of the mode of a candidate. -/
inductive Plan.Refuses (p : Plan σ) (P : Candidate → Prop) : SearchError → Prop where
  | uncounted {e : SearchError} (cause : Strategy.stepFault p.config = some e) : p.Refuses P e
  | openRate (missing : p.config.randomRate = none ∨ p.config.mutationRate = none) :
      p.Refuses P .openRate
  | tooHot (hot : p.config.isTooHot = true) : p.Refuses P (.misfit .numberTooLarge)
  | mismatch {e : SearchError} (mismatch : p.Mismatches P e) : p.Refuses P e

/-- A search that holds only candidates of a kind, and whose evaluator remembers what it should. -/
structure Search.Holds (kept : ε → List Candidate) (P : Candidate → Prop) (M : σ → Prop)
    (s : Search σ ε) : Prop where
  current : P s.current
  best : P s.best
  kept : ∀ c ∈ kept s.own, P c
  memory : M s.memory

theorem Search.Holds.candidates {kept : ε → List Candidate} {P : Candidate → Prop}
    {M : σ → Prop} {s : Search σ ε} (holds : s.Holds kept P M) :
    ∀ c ∈ s.toProgress.candidates kept, P c := by
  simp only [Progress.candidates, List.forall_mem_cons]
  exact ⟨holds.current, holds.best, holds.kept⟩

theorem Search.holds_of_candidates {kept : ε → List Candidate} {P : Candidate → Prop}
    {M : σ → Prop} {s : Search σ ε} (held : ∀ c ∈ s.toProgress.candidates kept, P c)
    (memory : M s.memory) : s.Holds kept P M := by
  simp only [Progress.candidates, List.forall_mem_cons] at held
  exact ⟨held.1, held.2.1, held.2.2, memory⟩

/-! ### Moves that stay with a kind -/

/-- From a state of an invariant a move ends in one again, with a result as `Q` says, or it fails
for a reason as `X` says. -/
def Move.Stays (I : Search σ ε → Prop) (X : SearchError → Prop) (m : Move σ ε α)
    (Q : α → Prop) : Prop :=
  ∀ s, I s → I (m.run.run s).2 ∧
    match (m.run.run s).1 with
    | .ok a => Q a
    | .error e => X e

namespace Move.Stays

variable {I : Search σ ε → Prop} {X Y : SearchError → Prop} {m n : Move σ ε α} {Q : α → Prop}
  {R : β → Prop}

theorem pure {a : α} (result : Q a) : Stays I X (Pure.pure a : Move σ ε α) Q :=
  fun _ holds => ⟨holds, result⟩

theorem throw {e : SearchError} (reason : X e) : Stays I X (throw e : Move σ ε α) Q :=
  fun _ holds => ⟨holds, reason⟩

/-- A move may be said to have more reasons to fail. -/
theorem mono (stays : Stays I X m Q) (weaker : ∀ e, X e → Y e) : Stays I Y m Q := by
  intro s holds
  obtain ⟨after, ends⟩ := stays s holds
  refine ⟨after, ?_⟩
  split at ends
  next => exact ends
  next => exact weaker _ ends

/-- A move that has no reason to fail ends as it does when it succeeds. -/
theorem ends {s : Search σ ε} {S : α → Search σ ε → Prop} {E : Search σ ε → Prop}
    (stays : Stays I X m Q) (start : I s) (never : ∀ e, ¬X e) (ends : m.Ends s S E) :
    m.Ends s S fun _ => False := by
  have reason := (stays s start).2
  unfold Ends at ends ⊢
  split at ends
  next => exact ends
  next e t run =>
    rw [run] at reason
    exact absurd reason (never e)

theorem bind {m : Move σ ε β} {f : β → Move σ ε α} (first : Stays I X m R)
    (rest : ∀ b, R b → Stays I X (f b) Q) : Stays I X (m >>= f) Q := by
  intro s holds
  have ends := first s holds
  rw [ExceptT.run_bind, StateT.run_bind]
  generalize m.run.run s = outcome at ends ⊢
  obtain ⟨outcome, t⟩ := outcome
  cases outcome with
  | ok b => exact rest b ends.2 t ends.1
  | error e => exact ends

theorem get_bind {f : Search σ ε → Move σ ε α} (rest : ∀ s, I s → Stays I X (f s) Q) :
    Stays I X (MonadState.get >>= f) Q := fun s holds => rest s holds s holds

theorem modify {change : Search σ ε → Search σ ε} (kept : ∀ s, I s → I (change s)) :
    Stays I X (modify change : Move σ ε Unit) fun _ => True :=
  fun s holds => ⟨kept s holds, trivial⟩

theorem ite {c : Prop} [Decidable c] (yes : c → Stays I X m Q) (no : ¬c → Stays I X n Q) :
    Stays I X (if c then m else n) Q := by
  split
  next holds => exact yes holds
  next fails => exact no fails

end Move.Stays

section
variable {p : Plan σ} {P : Candidate → Prop} {M : σ → Prop} {kept : ε → List Candidate}
  {X : SearchError → Prop}

namespace Move

theorem draw_stays {d : Draw α} {Q : α → Prop} (drawn : d.Yields Q) :
    Stays (Search.Holds kept P M) X (draw d : Move σ ε α) Q :=
  fun s holds => ⟨⟨holds.current, holds.best, holds.kept, holds.memory⟩, drawn s.source⟩

theorem attempt_stays {t : Trial α} {Q : α → Prop} (drawn : t.Yields Q) :
    Stays (Search.Holds kept P M) X (attempt t : Move σ ε α) Q := by
  intro s holds
  obtain ⟨a, outcome, result⟩ := drawn s.source
  have run : ((attempt t : Move σ ε α).run.run s).1 = .ok a :=
    congrArg (Except.mapError SearchError.noPartner) outcome
  rw [run]
  exact ⟨⟨holds.current, holds.best, holds.kept, holds.memory⟩, result⟩

theorem wasSeen_stays (c : Candidate) :
    Stays (Search.Holds kept P M) X (wasSeen c : Move σ ε Bool) fun _ => True :=
  .get_bind fun _ _ => .pure trivial

theorem updateBest_stays {c : Candidate} (kind : P c) (score : Option Score) :
    Stays (Search.Holds kept P M) X (updateBest c score : Move σ ε Bool) fun _ => True := by
  refine .get_bind fun s holds => .ite (fun _ => ?_) fun _ => .pure trivial
  exact fun _ _ => ⟨⟨holds.current, kind, holds.kept, holds.memory⟩, trivial⟩

theorem setCurrent_stays {c : Candidate} (kind : P c) (score : Option Score) :
    Stays (Search.Holds kept P M) X (setCurrent c score : Move σ ε Unit) fun _ => True :=
  .modify fun _ holds => ⟨kind, holds.best, holds.kept, holds.memory⟩

theorem stepResult_stays (accepted : Bool) :
    Stays (Search.Holds kept P M) X (stepResult accepted : Move σ ε StepResult) fun _ => True :=
  .get_bind fun _ _ => .pure trivial

theorem nextIteration_stays :
    Stays (Search.Holds kept P M) X (nextIteration : Move σ ε Unit) fun _ => True :=
  .modify fun _ holds => ⟨holds.current, holds.best, holds.kept, holds.memory⟩

/-- A candidate of the kind is scored, or it is not of the mode of the evaluator. -/
theorem evaluate_stays (closed : p.Closed P M) {c : Candidate} (kind : P c) :
    Stays (Search.Holds kept P M) (p.Mismatches P) (p.evaluate c : Move σ ε (Option Score))
      fun _ => True := by
  refine .bind (.modify fun s holds => ⟨holds.current, holds.best, holds.kept, holds.memory⟩)
    fun _ _ => .bind (R := fun _ => True) ?_ fun score _ => .pure trivial
  intro s holds
  by_cases fits : c.mode = p.evaluator.mode
  · have called := Evaluator.run_evaluate fits s.toSurroundings
    dsimp only [ExceptT.run_mk, StateT.run] at called ⊢
    rw [called]
    exact ⟨⟨holds.current, holds.best, holds.kept, closed.memory kind holds.memory⟩, trivial⟩
  · have refused := Evaluator.run_evaluate_mismatch fits s.toSurroundings
    dsimp only [ExceptT.run_mk, StateT.run] at refused ⊢
    rw [refused]
    exact ⟨holds, .intro kind fits⟩

/-- What is proposed is of the kind of its parent. -/
theorem propose_stays (closed : p.Closed P M) {parent : Candidate} (kind : P parent)
    (requireScore both : Bool) :
    Stays (Search.Holds kept P M) (p.Mismatches P)
      (p.propose parent requireScore both : Move σ ε (Candidate × Option Score))
      fun proposal => P proposal.1 := by
  have within (tries : Nat) (last : Candidate) (lastKind : P last) :
      Stays (Search.Holds kept P M) (p.Mismatches P)
        (p.proposeWithin parent requireScore both tries last :
          Move σ ε (Candidate × Option Score)) fun proposal => P proposal.1 := by
    induction tries generalizing last with
    | zero => exact .pure lastKind
    | succ tries ih =>
        refine .bind (attempt_stays (closed.mutate kind _ both)) fun c changed => ?_
        refine .bind (wasSeen_stays c) fun seen _ => .ite (fun _ => ih c changed) fun _ => ?_
        refine .bind (evaluate_stays closed changed) fun score _ => ?_
        exact .ite (fun _ => .pure changed) fun _ => ih c changed
  exact within _ parent kind

end Move

end

/-! ### Hill climbing and annealing -/

/-- The invariant of algorithms that keep no candidates besides the current and the best one. -/
abbrev Climber.Holds (P : Candidate → Prop) (M : σ → Prop) : Search σ ε → Prop :=
  Search.Holds (fun _ => []) P M

open Move

section
variable {p : Plan σ} {P : Candidate → Prop} {M : σ → Prop}

/-- What an algorithm keeps that is no candidate may change. -/
theorem Move.own_stays {X : SearchError → Prop} (change : Search σ ε → ε) :
    Stays (Climber.Holds P M) X (modify fun s => { s with own := change s } : Move σ ε Unit)
      fun _ => True :=
  .modify fun _ holds => ⟨holds.current, holds.best, by simp, holds.memory⟩

theorem LateAcceptance.step_stays (closed : p.Closed P M) :
    Stays (Climber.Holds P M) (p.Mismatches P) (LateAcceptance.step p) fun _ => True := by
  refine .bind nextIteration_stays fun _ _ => .get_bind fun s holds => ?_
  refine .bind (propose_stays closed holds.current _ _) fun (c, score) kind => ?_
  refine .get_bind fun s _ => ?_
  have finish (accepted : Bool) : Stays (Climber.Holds P M) (p.Mismatches P) (do
      modify fun s : Search σ History => { s with
        own := push p.config.historyLength.value s.own (effective s.currentScore) }
      stepResult accepted) fun _ => True :=
    .bind (own_stays _) fun _ _ => stepResult_stays accepted
  refine .ite (fun _ => ?_) fun _ => finish _
  refine .bind (setCurrent_stays kind score) fun _ _ => ?_
  exact .bind (updateBest_stays kind score) fun _ _ => finish _

theorem Annealing.useTemperature_stays {I : Search σ Temperature → Prop} (needed : Bool) :
    Stays I (p.Refuses P) (useTemperature p needed) fun _ => True := by
  refine .ite (fun hot => .throw (.tooHot ?_)) fun _ => .pure trivial
  rw [Bool.and_eq_true] at hot
  exact hot.2

theorem Annealing.step_stays (closed : p.Closed P M) :
    Stays (Climber.Holds P M) (p.Refuses P) (Annealing.step p) fun _ => True := by
  refine .bind nextIteration_stays fun _ _ => .get_bind fun s holds => ?_
  refine .bind ((propose_stays closed holds.current _ _).mono fun _ => .mismatch)
    fun (c, score) kind => ?_
  have finish (accepted : Bool) : Stays (Climber.Holds P M) (p.Refuses P)
      (do cool p; stepResult accepted) fun _ => True :=
    .bind (.bind (useTemperature_stays _) fun _ _ => own_stays _) fun _ _ => stepResult_stays accepted
  cases score with
  | none => exact finish false
  | some score =>
      have considered :
          Stays (Climber.Holds P M) (p.Refuses P) (consider p c score) fun _ => True := by
        refine .get_bind fun s _ => .bind (draw_stays (.any _)) fun accepted _ => ?_
        refine .bind (useTemperature_stays _) fun _ _ => ?_
        refine .ite (fun _ => ?_) fun _ => .pure trivial
        refine .bind (setCurrent_stays kind _) fun _ _ => ?_
        exact .bind (updateBest_stays kind _) fun _ _ => .pure trivial
      exact .bind considered fun accepted _ => finish accepted

end

/-! ### The genetic algorithm -/

namespace Genetic

open Move

variable {p : Plan σ} {P : Candidate → Prop} {M : σ → Prop} {X : SearchError → Prop}

/-- The invariant of the genetic algorithm, which keeps a population. -/
abbrev Holds (P : Candidate → Prop) (M : σ → Prop) : Search σ Population → Prop :=
  Search.Holds Population.members P M

/-- A brood of the kind. -/
def Brood.Holds (P : Candidate → Prop) (b : Brood) : Prop := ∀ c ∈ b.members, P c

theorem Brood.Holds.accept {b : Brood} (holds : b.Holds P) {c : Candidate} (kind : P c) :
    (b.accept c).Holds P := by
  intro d listed
  rcases List.mem_append.mp listed with old | added
  · exact holds d old
  · exact List.mem_singleton.mp added ▸ kind

theorem record_stays {c : Candidate} (kind : P c) (score : Option Score) :
    Stays (Holds P M) X (record c score) fun _ => True :=
  .bind (.modify fun _ holds => ⟨holds.current, holds.best, holds.kept, holds.memory⟩) fun _ _ =>
    .bind (updateBest_stays kind score) fun _ _ => .pure trivial

theorem enlarge_stays (closed : p.Closed P M) {c : Candidate} (kind : P c) :
    Stays (Holds P M) (p.Mismatches P) (enlarge p c) fun _ => True := by
  refine .bind (evaluate_stays closed kind) fun score _ => ?_
  refine .bind (.modify ?_) fun _ _ => record_stays kind score
  intro s holds
  refine ⟨holds.current, holds.best, fun d listed => ?_, holds.memory⟩
  rcases List.mem_append.mp listed with old | added
  · exact holds.kept d old
  · exact List.mem_singleton.mp added ▸ kind

theorem fillAny_stays (closed : p.Closed P M) (places : Nat) :
    Stays (Holds P M) (p.Mismatches P) (fillAny p places) fun _ => True := by
  induction places with
  | zero => exact .pure trivial
  | succ places ih =>
      exact .bind (draw_stays closed.random) fun c kind =>
        .bind (enlarge_stays closed kind) fun _ _ => ih

theorem fillNew_stays (closed : p.Closed P M) (tries places : Nat) :
    Stays (Holds P M) (p.Mismatches P) (fillNew p tries places) fun _ => True := by
  induction tries generalizing places with
  | zero => exact fillAny_stays closed places
  | succ tries ih =>
      cases places with
      | zero => exact .pure trivial
      | succ places =>
          refine .bind (draw_stays closed.random) fun c kind => ?_
          refine .bind (wasSeen_stays c) fun seen _ => ?_
          refine .ite (fun _ => ih (places + 1)) fun _ => ?_
          exact .bind (enlarge_stays closed kind) fun _ _ => ih places

theorem populate_stays (closed : p.Closed P M) :
    Stays (Holds P M) (p.Mismatches P) (populate p) fun _ => True := by
  refine .bind (.modify ?_) fun _ _ => fillNew_stays closed _ _
  intro s holds
  refine ⟨holds.current, holds.best, fun c listed => ?_, holds.memory⟩
  exact List.mem_singleton.mp listed ▸ holds.current

theorem drawMember_stays : Stays (Holds P M) X drawMember P := by
  refine .get_bind fun s holds => ?_
  have members := holds.kept
  split
  · exact .pure holds.current
  next first rest listed =>
    rw [listed] at members
    exact draw_stays fun source => members _ (Draw.Yields.choose _ _ source)

theorem drawScored_stays : Stays (Holds P M) X drawScored P := by
  have again (tries : Nat) (c : Candidate) (kind : P c) :
      Stays (Holds P M) X (redraw tries c) P := by
    induction tries generalizing c with
    | zero => exact .pure kind
    | succ tries ih =>
        refine .get_bind fun s _ => .ite (fun _ => .pure kind) fun _ => ?_
        exact .bind drawMember_stays fun c kind => ih c kind
  exact .bind drawMember_stays fun c kind => again _ c kind

/-- A parent is one of the members. -/
theorem selectParent_stays : Stays (Holds P M) X (selectParent p) P := by
  have places (count : Nat) (best : Candidate) (kind : P best) :
      Stays (Holds P M) X (compete count best) P := by
    induction count generalizing best with
    | zero => exact .pure kind
    | succ count ih =>
        refine .bind drawScored_stays fun c kind' => .get_bind fun s _ => ih _ ?_
        unfold betterOf
        split
        · exact kind'
        · exact kind
  exact .bind drawScored_stays fun c kind => places _ c kind

theorem belowRate_stays {rate : Option Quantity}
    (missing : rate = none → p.config.randomRate = none ∨ p.config.mutationRate = none) :
    Stays (Holds P M) (p.Refuses P) (belowRate rate) fun _ => True := by
  refine .bind (draw_stays (.any _)) fun u _ => ?_
  cases rate with
  | none => exact .throw (.openRate (missing rfl))
  | some rate => exact .pure trivial

/-- A child of the kind is changed into one of the kind. -/
theorem mutateChild_stays (closed : p.Closed P M) {c : Candidate} (kind : P c) :
    Stays (Holds P M) (p.Refuses P) (mutateChild p c) P := by
  refine .bind (belowRate_stays .inl) fun replaced _ => ?_
  refine .ite (fun _ => draw_stays closed.random) fun _ => ?_
  have rest (transform : Bool) (may : transform = true →
      p.config.mode = .primeFold ∧ p.config.operators.symmetric = false) :
      Stays (Holds P M) (p.Refuses P)
        (if transform = true then attempt (Operators.symmetricMutation c)
        else do
          if ← belowRate p.config.mutationRate then
            attempt (p.config.operators.mutate c 0.0 true)
          else return c) P := by
    refine .ite (fun yes => ?_) fun _ => ?_
    · exact attempt_stays (closed.transform (may yes).1 (may yes).2 kind)
    · refine .bind (belowRate_stays .inr) fun changed _ => ?_
      exact .ite (fun _ => attempt_stays (closed.mutate kind _ _)) fun _ => .pure kind
  -- A transform is chosen only where the two functions need not be related.
  refine .ite (fun may => ?_) fun _ => .bind (.pure (Q := (· = false)) rfl) fun _ no => ?_
  · rw [Bool.and_eq_true, decide_eq_true_eq, Bool.not_eq_true'] at may
    exact .bind (draw_stays (.any _)) fun transform _ => rest transform fun _ => may
  · exact rest _ fun yes => absurd yes (by simp [no])

theorem offer_stays (closed : p.Closed P M) {b : Brood} (brood : b.Holds P) {child : Candidate}
    (kind : P child) : Stays (Holds P M) (p.Refuses P) (offer p b child) (Brood.Holds P) := by
  refine .ite (fun _ => .pure brood) fun _ => ?_
  refine .bind (mutateChild_stays closed kind) fun c kind => .bind (wasSeen_stays c) fun _ _ => ?_
  refine .ite (fun _ => .pure brood) fun _ => ?_
  refine .bind ((evaluate_stays closed kind).mono fun _ => .mismatch) fun score _ => ?_
  cases score with
  | none => exact .pure brood
  | some score =>
      refine .bind (record_stays kind _) fun _ _ => ?_
      exact .bind (setCurrent_stays kind _) fun _ _ => .pure (brood.accept kind)

theorem breed_stays (closed : p.Closed P M) (rounds : Nat) {b : Brood} (brood : b.Holds P) :
    Stays (Holds P M) (p.Refuses P) (breed p rounds b) (Brood.Holds P) := by
  induction rounds generalizing b with
  | zero => exact .pure brood
  | succ rounds ih =>
      refine .ite (fun _ => ?_) fun _ => .pure brood
      refine .bind selectParent_stays fun first kind => ?_
      refine .bind selectParent_stays fun second kind' => ?_
      refine .bind (attempt_stays (closed.crossover kind kind')) ?_
      rintro ⟨one, other⟩ ⟨oneKind, otherKind⟩
      refine .bind (offer_stays closed brood oneKind) fun b brood => ?_
      exact .bind (offer_stays closed brood otherKind) fun b brood => ih brood

theorem topUp_stays (closed : p.Closed P M) (places : Nat) {b : Brood} (brood : b.Holds P) :
    Stays (Holds P M) (p.Refuses P) (topUp p places b) (Brood.Holds P) := by
  induction places generalizing b with
  | zero => exact .pure brood
  | succ places ih =>
      refine .bind (draw_stays closed.random) fun c kind => .bind (wasSeen_stays c) fun seen _ => ?_
      have rest (score : Option Score) : Stays (Holds P M) (p.Refuses P) (do
          record c score
          topUp p places (b.accept c)) (Brood.Holds P) :=
        .bind (record_stays kind score) fun _ _ => ih (brood.accept kind)
      dsimp only
      refine .ite (fun _ => ?_) fun _ => ?_
      · exact .get_bind fun s _ => .bind (.pure (Q := fun _ => True) trivial) fun score _ =>
          rest score
      · exact .bind ((evaluate_stays closed kind).mono fun _ => .mismatch) fun score _ => rest score

theorem step_stays (closed : p.Closed P M) :
    Stays (Holds P M) (p.Refuses P) (step p) fun _ => True := by
  refine .bind nextIteration_stays fun _ _ => .get_bind fun s holds => ?_
  have elite : (Brood.ofBest s.best).Holds P := by
    intro c listed
    exact List.mem_singleton.mp listed ▸ holds.best
  refine .bind (breed_stays closed _ elite) fun b brood => ?_
  refine .bind (topUp_stays closed _ brood) fun b brood => ?_
  refine .bind (.modify fun s holds => ⟨holds.current, holds.best, brood, holds.memory⟩) ?_
  intro _ _
  exact stepResult_stays true

end Genetic

/-! ### Runs -/

section
variable {p : Plan σ} {P : Candidate → Prop} {M : σ → Prop}

/-- The first candidate is random, and it is the only one. -/
theorem Plan.Closed.begin (closed : p.Closed P M) (kept : ε → List Candidate) (own : ε)
    (empty : kept own = []) {w : Surroundings σ} (start : M w.memory) :
    (p.begin own w).2.Holds kept P M ∧ ∀ e, (p.begin own w).1 = .error e → p.Mismatches P e := by
  have first : P (p.unscored own w).current := closed.random w.source
  have scored : Stays (Search.Holds kept P M) (p.Mismatches P) (p.scoreFirst : Move σ ε Unit)
      fun _ => True := by
    refine .get_bind fun s holds => .bind (evaluate_stays closed holds.current) fun score _ => ?_
    exact .modify fun _ holds => ⟨holds.current, holds.best, holds.kept, holds.memory⟩
  have alone : (p.unscored own w).Holds kept P M := by
    refine ⟨first, first, ?_, start⟩
    rw [show (p.unscored own w).own = own from rfl, empty]
    intro c listed
    cases listed
  obtain ⟨holds, reason⟩ := scored _ alone
  rw [← Plan.begin_eq] at holds reason
  refine ⟨holds, fun e failed => ?_⟩
  rwa [failed] at reason

theorem Genetic.begin_holds (closed : p.Closed P M) {w : Surroundings σ} (start : M w.memory) :
    (Genetic.begin p w).2.Holds Population.members P M ∧
      ∀ e, (Genetic.begin p w).1 = .error e → p.Mismatches P e := by
  have first := closed.begin Population.members ⟨[], ∅⟩ rfl start
  unfold Genetic.begin
  generalize p.begin _ w = begun at first ⊢
  obtain ⟨outcome, s⟩ := begun
  cases outcome with
  | ok _ =>
      obtain ⟨holds, reason⟩ := populate_stays closed s first.1
      refine ⟨holds, fun e failed => ?_⟩
      rwa [failed] at reason
  | error e => exact first

namespace Strategy

/-- A search that has begun holds what its algorithm began with. -/
theorem split_holds (wrap : Progress ε → Strategy) {kept : ε → List Candidate}
    (wraps : ∀ s, (wrap s).candidates = s.candidates kept)
    {begun : Except SearchError Unit × Search σ ε}
    (holds : begun.2.Holds kept P M ∧ ∀ e, begun.1 = .error e → p.Mismatches P e) :
    M (split wrap begun).2.memory ∧
      (∀ s, (split wrap begun).1 = .ok s → ∀ c ∈ s.candidates, P c) ∧
      ∀ e, (split wrap begun).1 = .error e → p.Mismatches P e := by
  obtain ⟨outcome, s⟩ := begun
  obtain ⟨holds, reason⟩ := holds
  refine ⟨holds.memory, ?_, ?_⟩
  · intro t ok
    cases outcome with
    | ok _ =>
        obtain rfl := Except.ok.inj ok
        rw [wraps]
        exact holds.candidates
    | error e => cases ok
  · intro e failed
    cases outcome with
    | ok _ => cases failed
    | error e' => exact Except.error.inj failed ▸ reason e' rfl

/-- The length of a history is not whole or too great. -/
def LengthFault (e : SearchError) : Prop := e = .misfit .notALength ∨ e = .misfit .tooLong

/-- A length of a history that is refused is one more reason to fail, and changes nothing else. -/
theorem requireLength_holds {X : SearchError → Prop}
    {begun : Except SearchError Strategy × Surroundings σ} (memory : M begun.2.memory)
    (held : ∀ s, begun.1 = .ok s → ∀ c ∈ s.candidates, P c)
    (reason : ∀ e, begun.1 = .error e → X e) (config : SearchConfig) :
    M (requireLength config begun).2.memory ∧
      (∀ s, (requireLength config begun).1 = .ok s → ∀ c ∈ s.candidates, P c) ∧
      ∀ e, (requireLength config begun).1 = .error e → X e ∨ LengthFault e := by
  obtain ⟨outcome, w⟩ := begun
  have refused {fault : SearchError} (length : LengthFault fault) : M w.memory ∧
      (∀ s : Strategy, (outcome.bind fun _ => .error fault) = .ok s → ∀ c ∈ s.candidates, P c) ∧
      ∀ e, (outcome.bind fun _ => (.error fault : Except SearchError Strategy)) = .error e →
        X e ∨ LengthFault e := by
    refine ⟨memory, ?_, ?_⟩
    · intro s ok
      cases outcome <;> cases ok
    · intro e failed
      cases outcome with
      | ok s => exact .inr (Except.error.inj failed ▸ length)
      | error e' => exact .inl (reason e failed)
  unfold requireLength
  split
  · exact refused (.inl rfl)
  · split
    · exact refused (.inr rfl)
    · exact ⟨memory, held, fun e failed => .inl (reason e failed)⟩

/-- A search begins with candidates of the kind, and scores no others, also where it cannot
begin. -/
theorem begin_holds (closed : p.Closed P M) {w : Surroundings σ} (start : M w.memory) :
    M (begin p w).2.memory ∧ (∀ s, (begin p w).1 = .ok s → ∀ c ∈ s.candidates, P c) ∧
      ∀ e, (begin p w).1 = .error e → p.Mismatches P e ∨ LengthFault e := by
  unfold begin
  cases p.config.algorithm with
  | lateAcceptance =>
      obtain ⟨memory, held, reason⟩ := split_holds .lateAcceptance (fun _ => rfl)
        (closed.begin (fun _ => []) [] rfl start)
      exact requireLength_holds memory held reason p.config
  | genetic =>
      obtain ⟨memory, held, reason⟩ := split_holds .genetic (fun _ => rfl)
        (Genetic.begin_holds closed start)
      exact ⟨memory, held, fun e failed => .inl (reason e failed)⟩
  | annealing =>
      obtain ⟨memory, held, reason⟩ := split_holds .annealing (fun _ => rfl)
        (closed.begin (fun _ => []) p.config.startTemperature.toFloat rfl start)
      exact ⟨memory, held, fun e failed => .inl (reason e failed)⟩

/-- A move of an algorithm that stays with the kind, put back into the face of the search. -/
theorem run_holds {wrap : Progress ε → Strategy} {kept : ε → List Candidate}
    (wraps : ∀ s, (wrap s).candidates = s.candidates kept) {move : Move σ ε StepResult}
    (stays : Stays (Search.Holds kept P M) (p.Refuses P) move fun _ => True) {s : Progress ε}
    (held : ∀ c ∈ (wrap s).candidates, P c) {w : Surroundings σ} (memory : M w.memory) :
    (∀ c ∈ (run wrap move s w).2.1.candidates, P c) ∧ M (run wrap move s w).2.2.memory ∧
      ∀ e, (run wrap move s w).1 = .error e → p.Refuses P e := by
  rw [wraps] at held
  obtain ⟨after, reason⟩ := stays ⟨s, w⟩ (Search.holds_of_candidates held memory)
  refine ⟨?_, after.memory, fun e failed => ?_⟩
  · change ∀ c ∈ (wrap (move.run.run ⟨s, w⟩).2.toProgress).candidates, P c
    rw [wraps]
    exact after.candidates
  · change (move.run.run ⟨s, w⟩).1 = .error e at failed
    rwa [failed] at reason

/-- A step of a search that holds candidates of the kind scores no others, and holds such
candidates again, whether it succeeds or fails. -/
theorem step_holds (closed : p.Closed P M) {s : Strategy} (held : ∀ c ∈ s.candidates, P c)
    {w : Surroundings σ} (memory : M w.memory) :
    (∀ c ∈ (step p s w).2.1.candidates, P c) ∧ M (step p s w).2.2.memory ∧
      ∀ e, (step p s w).1 = .error e → p.Refuses P e := by
  unfold step
  split
  next fault cause =>
    refine ⟨?_, memory, fun e failed => .uncounted (Except.error.inj failed ▸ cause)⟩
    cases s with
    | lateAcceptance | genetic | annealing => exact held
  next =>
    cases s with
    | lateAcceptance progress =>
        exact run_holds (fun _ => rfl)
          ((LateAcceptance.step_stays closed).mono fun _ => .mismatch) held memory
    | genetic progress => exact run_holds (fun _ => rfl) (Genetic.step_stays closed) held memory
    | annealing progress =>
        exact run_holds (fun _ => rfl) (Annealing.step_stays closed) held memory

theorem after_holds (closed : p.Closed P M) {s : Strategy} (held : ∀ c ∈ s.candidates, P c)
    {w : Surroundings σ} (memory : M w.memory) (steps : Nat) :
    (∀ c ∈ (after p (s, w) steps).1.candidates, P c) ∧ M (after p (s, w) steps).2.memory := by
  induction steps with
  | zero => exact ⟨held, memory⟩
  | succ steps ih =>
      obtain ⟨held, memory, -⟩ := step_holds closed ih.1 ih.2
      exact ⟨held, memory⟩

end Strategy

/-- In every state that a search reaches it holds candidates of the kind. -/
theorem Plan.reached_holds (closed : p.Closed P M) {w : Surroundings σ} (start : M w.memory)
    {steps : Nat} {s : Strategy} {v : Surroundings σ} (reached : p.reached w steps = .ok (s, v)) :
    (∀ c ∈ s.candidates, P c) ∧ M v.memory := by
  obtain ⟨s', v', begun, final⟩ := Plan.reached_eq_ok reached
  obtain ⟨memory, held, -⟩ := Strategy.begin_holds closed start
  rw [begun] at memory held
  have after := Strategy.after_holds closed (held s' rfl) memory steps
  rwa [← final] at after

/-! ### Calls -/

/-- All candidates that were scored are of the kind. -/
abbrev CallsHold (P : Candidate → Prop) (m : σ × Calls) : Prop := ∀ call ∈ m.2, P call.1

/-- An evaluator that writes its calls down writes down candidates of the kind. -/
theorem Plan.Closed.logged (closed : p.Closed P fun _ => True) :
    p.logged.Closed P (CallsHold P) where
  random := closed.random
  mutate := closed.mutate
  crossover := closed.crossover
  transform := closed.transform
  memory := by
    intro c w kind held call listed
    rcases List.mem_append.mp listed with old | last
    · exact held call old
    · exact List.mem_singleton.mp last ▸ kind

/-- All candidates that a search scores on its way are of the kind. -/
theorem Plan.calls_holds (closed : p.Closed P fun _ => True) (w : Surroundings σ) (steps : Nat) :
    ∀ call ∈ p.calls w steps, P call.1 := by
  unfold Plan.calls
  split
  next s v reached =>
    have start : CallsHold P (w.withCalls []).memory := by
      intro call listed
      cases listed
    exact (Plan.reached_holds closed.logged start reached).2
  next =>
    intro call listed
    cases listed

end

end PrimeSearch
