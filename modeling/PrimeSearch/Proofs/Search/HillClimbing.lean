/-
Module: PrimeSearch.Proofs.Search.HillClimbing
Purpose: Late acceptance is strict hill climbing: its history never has an effect.
Main exports: Move.Simulates, HillClimbing.step, HillClimbing.reached, Climbs,
  LateAcceptance.step_climbs, Plan.reached_climbs
-/
import PrimeSearch.Proofs.Search.Reported

namespace PrimeSearch

variable {σ ε δ α β : Type}

/-!
The score that was last put into the history is the current one, since a score is put there after
every step and the current score changes in no other place.  So a proposal that beats the history
beats the current candidate.  The current candidate only changes for a better one, and is the best
one from the beginning on.  What remains is a search without a history, which is given here as a
search of its own that late acceptance simulates.
-/

/-! ### Two searches side by side -/

namespace Move

/-- From two states, two moves have the same outcome and end in related states. -/
def Simulates (S : Search σ ε → Search σ δ → Prop) (m : Move σ ε α) (m' : Move σ δ α)
    (s : Search σ ε) (t : Search σ δ) : Prop :=
  (m.run.run s).1 = (m'.run.run t).1 ∧ S (m.run.run s).2 (m'.run.run t).2

/-- A relation of searches that have seen the same in the same surroundings, and still are related
when both go on to see the same. -/
structure Abreast (S : Search σ ε → Search σ δ → Prop) : Prop where
  seen : ∀ {s t}, S s t → s.seen = t.seen
  surroundings : ∀ {s t}, S s t → s.toSurroundings = t.toSurroundings
  change : ∀ {s t} (seen : Std.TreeSet String) (w : Surroundings σ), S s t →
    S { s with seen, toSurroundings := w } { t with seen, toSurroundings := w }

section
variable {S : Search σ ε → Search σ δ → Prop} {s : Search σ ε} {t : Search σ δ}

theorem Abreast.both (abreast : Abreast S) (related : S s t) {seen seen' : Std.TreeSet String}
    {w w' : Surroundings σ} (sameSeen : seen = seen') (same : w = w') :
    S { s with seen, toSurroundings := w } { t with seen := seen', toSurroundings := w' } := by
  subst sameSeen same
  exact abreast.change seen w related

theorem Simulates.pure (a : α) (related : S s t) :
    Simulates S (Pure.pure a : Move σ ε α) (Pure.pure a) s t := ⟨rfl, related⟩

theorem Simulates.bind {m : Move σ ε α} {m' : Move σ δ α} {f : α → Move σ ε β}
    {f' : α → Move σ δ β} (first : Simulates S m m' s t)
    (rest : ∀ a s t, S s t → Simulates S (f a) (f' a) s t) :
    Simulates S (m >>= f) (m' >>= f') s t := by
  unfold Simulates at first ⊢
  rw [ExceptT.run_bind, StateT.run_bind, ExceptT.run_bind, StateT.run_bind]
  generalize m.run.run s = before at first ⊢
  generalize m'.run.run t = before' at first ⊢
  obtain ⟨a, s⟩ := before
  obtain ⟨a', t⟩ := before'
  obtain ⟨same, related⟩ := first
  obtain rfl : a = a' := same
  cases a with
  | ok a => exact rest a s t related
  | error e => exact ⟨rfl, related⟩

/-- Two moves that read their states go on from there. -/
theorem Simulates.get_bind {f : Search σ ε → Move σ ε α} {f' : Search σ δ → Move σ δ α}
    (rest : Simulates S (f s) (f' t) s t) : Simulates S (get >>= f) (get >>= f') s t := rest

/-- Two moves that change their states go on from the changed ones. -/
theorem Simulates.modify_bind {change : Search σ ε → Search σ ε}
    {change' : Search σ δ → Search σ δ} {f : Unit → Move σ ε α} {f' : Unit → Move σ δ α}
    (rest : Simulates S (f ()) (f' ()) (change s) (change' t)) :
    Simulates S ((modify change : Move σ ε Unit) >>= f) ((modify change' : Move σ δ Unit) >>= f')
      s t := rest

theorem Simulates.ite {c : Prop} [Decidable c] {m n : Move σ ε α} {m' n' : Move σ δ α}
    (yes : c → Simulates S m m' s t) (no : ¬c → Simulates S n n' s t) :
    Simulates S (if c then m else n) (if c then m' else n') s t := by
  split
  next holds => exact yes holds
  next fails => exact no fails

/-- A search in which a candidate was made the best one goes on from there. -/
theorem Simulates.updateBest_bind {c : Candidate} {score : Option Score}
    (better : effective s.bestScore < effective score) {f : Bool → Move σ ε α} {m' : Move σ δ α}
    (rest : Simulates S (f true) m' { s with best := c, bestScore := score } t) :
    Simulates S (updateBest c score >>= f) m' s t := by
  have ends : (updateBest c score : Move σ ε Bool).Ends s
      (fun changed u => changed = true ∧ u = { s with best := c, bestScore := score })
      fun _ => False :=
    updateBest_ends (fun _ => ⟨rfl, rfl⟩) fun notBetter => absurd better notBetter
  obtain ⟨_, _, run, rfl, rfl⟩ := ends.succeeds
  unfold Simulates
  rw [ExceptT.run_bind, StateT.run_bind, run]
  exact rest

theorem attempt_simulates (abreast : Abreast S) (related : S s t) (d : Trial α) :
    Simulates S (attempt d : Move σ ε α) (attempt d) s t := by
  have same := abreast.surroundings related
  have drawn : (⟨(d.run.run s.source).2, s.memory⟩ : Surroundings σ) =
      ⟨(d.run.run t.source).2, t.memory⟩ := by rw [same]
  constructor
  · exact congrArg (fun w => (d.run.run w.source).1.mapError SearchError.noPartner) same
  · exact abreast.both related (abreast.seen related) drawn

theorem wasSeen_simulates (abreast : Abreast S) (related : S s t) (c : Candidate) :
    Simulates S (wasSeen c : Move σ ε Bool) (wasSeen c) s t :=
  .get_bind (by
    rw [abreast.seen related]
    exact .pure _ related)

theorem evaluate_simulates (abreast : Abreast S) (related : S s t) (p : Plan σ) (c : Candidate) :
    Simulates S (p.evaluate c : Move σ ε (Option Score)) (p.evaluate c) s t := by
  have called {s : Search σ ε} {t : Search σ δ} (related : S s t) :
      Simulates S
        (ExceptT.mk fun s =>
          let scored := (p.evaluator.evaluate c).run.run s.toSurroundings
          (scored.1.mapError SearchError.mismatch, { s with toSurroundings := scored.2 }))
        (ExceptT.mk fun s =>
          let scored := (p.evaluator.evaluate c).run.run s.toSurroundings
          (scored.1.mapError SearchError.mismatch, { s with toSurroundings := scored.2 })) s t := by
    have same := abreast.surroundings related
    constructor
    · exact congrArg
        (fun w => ((p.evaluator.evaluate c).run.run w).1.mapError SearchError.mismatch) same
    · exact abreast.both related (abreast.seen related)
        (congrArg (fun w => ((p.evaluator.evaluate c).run.run w).2) same)
  have marked := abreast.both related (congrArg (·.insert c.key) (abreast.seen related))
    (abreast.surroundings related)
  exact .modify_bind (.bind (called marked) fun score s t related => .pure _ related)

/-- What is proposed depends on what was seen and on the surroundings. -/
theorem propose_simulates (abreast : Abreast S) (related : S s t) (p : Plan σ)
    (parent : Candidate) (requireScore both : Bool) :
    Simulates S (p.propose parent requireScore both : Move σ ε (Candidate × Option Score))
      (p.propose parent requireScore both) s t := by
  have within (tries : Nat) (last : Candidate) (s : Search σ ε) (t : Search σ δ)
      (related : S s t) :
      Simulates S (p.proposeWithin parent requireScore both tries last :
        Move σ ε (Candidate × Option Score))
        (p.proposeWithin parent requireScore both tries last) s t := by
    induction tries generalizing last s t with
    | zero => exact .pure _ related
    | succ tries ih =>
        refine .bind (attempt_simulates abreast related _) fun c s t related => ?_
        refine .bind (wasSeen_simulates abreast related c) fun seen s t related => ?_
        refine .ite (fun _ => ih c s t related) fun _ => ?_
        refine .bind (evaluate_simulates abreast related p c) fun score s t related => ?_
        exact .ite (fun _ => .pure _ related) fun _ => ih c s t related
  exact within _ parent s t related

end

end Move

/-! ### Strict hill climbing -/

namespace HillClimbing

/-- One step of strict hill climbing: a proposal is accepted if it has a score and the score is
greater than the current one, and then it is the best one as well. -/
def step (p : Plan σ) : Move σ Unit StepResult := do
  nextIteration
  let (c, score) ← p.propose (← get).current false true
  let s ← get
  let accepted := score.isSome && decide (effective s.currentScore < effective score)
  if accepted then
    modify fun s => { s with current := c, currentScore := score, best := c, bestScore := score }
  stepResult accepted

/-- A hill climber with its surroundings. -/
abbrev State (σ : Type) := Progress Unit × Surroundings σ

/-- One step and what it leads to.  Where tries cannot be counted out, the step is counted only. -/
def advance (p : Plan σ) (x : State σ) : Except SearchError StepResult × State σ :=
  match Strategy.countFault p.config.maxAttempts with
  | some e => (.error e, { x.1 with iteration := x.1.iteration + 1 }, x.2)
  | none =>
      let (outcome, s) := (step p).run.run ⟨x.1, x.2⟩
      (outcome, s.toProgress, s.toSurroundings)

/-- The state after so many steps, whether the steps succeed or fail. -/
def after (p : Plan σ) (start : State σ) : Nat → State σ
  | 0 => start
  | steps + 1 => (advance p (after p start steps)).2

/-- The state that is reached with so many steps from the beginning. -/
def reached (p : Plan σ) (w : Surroundings σ) (steps : Nat) : Except SearchError (State σ) :=
  match p.begin () w with
  | (.ok (), s) => .ok (after p (s.toProgress, s.toSurroundings) steps)
  | (.error e, _) => .error e

end HillClimbing

/-! ### Late acceptance without its history -/

/-- Late acceptance and the hill climber that it is: the current candidate is the best one, and the
history is empty or ends with the current score. -/
structure Climbs (s : Search σ LateAcceptance.History) (t : Search σ Unit) : Prop where
  forgets : t = { s with own := () }
  best : s.best = s.current
  bestScore : s.bestScore = s.currentScore
  last : s.own = [] ∨ s.own.getLast? = some (effective s.currentScore)

theorem climbs_abreast : Move.Abreast (Climbs (σ := σ)) where
  seen climbs := by rw [climbs.forgets]
  surroundings climbs := by rw [climbs.forgets]
  change seen w climbs := by
    obtain ⟨rfl, best, bestScore, last⟩ := climbs
    exact ⟨rfl, best, bestScore, last⟩

namespace LateAcceptance

open Move

/-- What was put into a history last is its last entry. -/
theorem getLast?_push {length : Nat} (positive : 1 ≤ length) (history : History) (score : Float) :
    (push length history score).getLast? = some score := by
  unfold push
  rw [List.getLast?_drop, List.getLast?_concat, if_neg]
  rw [List.length_append, List.length_singleton]
  omega

/-- A history that is empty or ends with the current score makes nothing more acceptable. -/
theorem acceptsLate_eq {candidate current : Float} {history : History}
    (last : history = [] ∨ history.getLast? = some current) :
    acceptsLate candidate current history = decide (current < candidate) := by
  unfold acceptsLate
  rcases last with rfl | last
  · simp
  · simp [last]

/-- A step of late acceptance is one of hill climbing. -/
theorem step_climbs (p : Plan σ) {s : Search σ History} {t : Search σ Unit}
    (climbs : Climbs s t) : Simulates Climbs (step p) (HillClimbing.step p) s t := by
  obtain ⟨rfl, best, bestScore, last⟩ := climbs
  have counted : Climbs { s with iteration := s.iteration + 1 }
      ({ s with iteration := s.iteration + 1, own := () } : Search σ Unit) :=
    ⟨rfl, best, bestScore, last⟩
  refine .modify_bind (.get_bind (.bind (propose_simulates climbs_abreast counted p _ _ _) ?_))
  rintro ⟨c, score⟩ s _ ⟨rfl, best, bestScore, last⟩
  refine .get_bind ?_
  have positive := p.config.historyLength.least_le
  dsimp only
  rw [acceptsLate_eq last]
  refine .ite (fun accepted => ?_) fun _ => ?_
  · rw [Bool.and_eq_true, decide_eq_true_eq] at accepted
    have better : effective s.bestScore < effective score := bestScore ▸ accepted.2
    have moved : effective ({ s with current := c, currentScore := score } :
        Search σ History).bestScore < effective score := better
    refine .modify_bind (.updateBest_bind moved ⟨rfl, ?_⟩)
    exact ⟨rfl, rfl, rfl, .inr (getLast?_push positive _ _)⟩
  · exact ⟨rfl, rfl, best, bestScore, .inr (getLast?_push positive _ _)⟩

/-- Late acceptance that has taken no step, and the hill climber that it is. -/
def Fresh (s : Search σ History) (t : Search σ Unit) : Prop := Climbs s t ∧ s.own = []

theorem fresh_abreast : Abreast (Fresh (σ := σ)) where
  seen fresh := climbs_abreast.seen fresh.1
  surroundings fresh := climbs_abreast.surroundings fresh.1
  change seen w fresh := ⟨climbs_abreast.change seen w fresh.1, fresh.2⟩

/-- Late acceptance begins as hill climbing does, with an empty history. -/
theorem begin_climbs (p : Plan σ) (w : Surroundings σ) :
    (LateAcceptance.begin p w).1 = (p.begin () w).1 ∧
      Climbs (LateAcceptance.begin p w).2 (p.begin () w).2 := by
  have scored (s : Search σ History) (t : Search σ Unit) (fresh : Fresh s t) :
      Simulates Fresh p.scoreFirst p.scoreFirst s t := by
    refine .get_bind ?_
    obtain ⟨⟨rfl, best, bestScore, last⟩, empty⟩ := fresh
    refine .bind
      (evaluate_simulates fresh_abreast ⟨⟨rfl, best, bestScore, last⟩, empty⟩ p s.current) ?_
    rintro score s _ ⟨⟨rfl, best, -, -⟩, empty⟩
    exact ⟨rfl, ⟨rfl, best, rfl, .inl empty⟩, empty⟩
  obtain ⟨same, climbs, -⟩ := scored (p.unscored [] w) (p.unscored () w)
    ⟨⟨rfl, rfl, rfl, .inl rfl⟩, rfl⟩
  exact ⟨same, climbs⟩

end LateAcceptance

/-! ### Runs -/

namespace Strategy

/-- A search by late acceptance and the hill climber that it is. -/
def Climbs (x : Strategy × Surroundings σ) (y : HillClimbing.State σ) : Prop :=
  ∃ progress, x.1 = .lateAcceptance progress ∧
    PrimeSearch.Climbs ⟨progress, x.2⟩ ⟨y.1, y.2⟩

variable {p : Plan σ}

theorem begin_climbs (late : p.config.algorithm = .lateAcceptance) {w v : Surroundings σ}
    {s : Strategy} (begun : begin p w = (.ok s, v)) :
    ∃ t, p.begin () w = (.ok (), t) ∧ Climbs (s, v) (t.toProgress, t.toSurroundings) := by
  rcases begin_eq_ok begun with ⟨-, t, started, rfl, rfl⟩ | ⟨other, -⟩ | ⟨other, -⟩
  · obtain ⟨same, climbs⟩ := LateAcceptance.begin_climbs p w
    rw [started] at same climbs
    exact ⟨_, Prod.ext same.symm rfl, _, rfl, climbs⟩
  · exact absurd (late.symm.trans other) (by decide)
  · exact absurd (late.symm.trans other) (by decide)

/-- A step has the outcome of the hill climber's. -/
theorem step_climbs (late : p.config.algorithm = .lateAcceptance) {s : Strategy}
    {v : Surroundings σ} {y : HillClimbing.State σ} (climbs : Climbs (s, v) y) :
    (step p s v).1 = (HillClimbing.advance p y).1 ∧
      Climbs (step p s v).2 (HillClimbing.advance p y).2 := by
  obtain ⟨progress, rfl, climbs⟩ := climbs
  have fault : stepFault p.config = countFault p.config.maxAttempts := by rw [stepFault, late]
  unfold step HillClimbing.advance
  rw [fault]
  cases countFault p.config.maxAttempts with
  | some e =>
      obtain ⟨forgets, best, bestScore, last⟩ := climbs
      obtain ⟨y, w⟩ := y
      cases forgets
      exact ⟨rfl, _, rfl, rfl, best, bestScore, last⟩
  | none =>
      obtain ⟨same, climbs⟩ := LateAcceptance.step_climbs p climbs
      exact ⟨same, _, rfl, climbs⟩

theorem after_climbs (late : p.config.algorithm = .lateAcceptance)
    {start : Strategy × Surroundings σ} {y : HillClimbing.State σ} (climbs : Climbs start y)
    (steps : Nat) : Climbs (after p start steps) (HillClimbing.after p y steps) := by
  induction steps with
  | zero => exact climbs
  | succ steps ih => exact (step_climbs late ih).2

end Strategy

/-- What is reached by late acceptance is reached by hill climbing. -/
theorem Plan.reached_simulates {p : Plan σ} (late : p.config.algorithm = .lateAcceptance)
    {w v : Surroundings σ} {steps : Nat} {s : Strategy} (reached : p.reached w steps = .ok (s, v)) :
    ∃ y, HillClimbing.reached p w steps = .ok y ∧ Strategy.Climbs (s, v) y := by
  obtain ⟨s₀, v₀, begun, final⟩ := Plan.reached_eq_ok reached
  obtain ⟨t, started, climbs⟩ := Strategy.begin_climbs late begun
  refine ⟨HillClimbing.after p (t.toProgress, t.toSurroundings) steps, ?_, ?_⟩
  · unfold HillClimbing.reached
    rw [started]
  · rw [final]
    exact Strategy.after_climbs late climbs steps

/-! ### Without regard to the length of the history -/

/-- The same plan with another length of the history. -/
def Plan.withHistory (p : Plan σ) (length : Count 1) : Plan σ :=
  { p with config := { p.config with historyLength := length } }

theorem Plan.propose_withHistory (p : Plan σ) (length : Count 1) (parent : Candidate)
    (requireScore both : Bool) :
    ((p.withHistory length).propose parent requireScore both :
      Move σ ε (Candidate × Option Score)) = p.propose parent requireScore both := by
  have within (tries : Nat) (last : Candidate) :
      ((p.withHistory length).proposeWithin parent requireScore both tries last :
        Move σ ε (Candidate × Option Score)) =
      p.proposeWithin parent requireScore both tries last := by
    induction tries generalizing last with
    | zero => rfl
    | succ tries ih =>
        simp only [proposeWithin, ih]
        rfl
  exact within _ parent

namespace HillClimbing

theorem advance_withHistory (p : Plan σ) (length : Count 1) (x : State σ) :
    advance (p.withHistory length) x = advance p x := by
  unfold advance step
  rw [show (p.withHistory length).config.maxAttempts = p.config.maxAttempts from rfl]
  simp only [Plan.propose_withHistory]

theorem reached_withHistory (p : Plan σ) (length : Count 1) (w : Surroundings σ) (steps : Nat) :
    reached (p.withHistory length) w steps = reached p w steps := by
  have same (start : State σ) : after (p.withHistory length) start steps = after p start steps := by
    induction steps with
    | zero => rfl
    | succ steps ih =>
        unfold after
        rw [ih, advance_withHistory]
  unfold reached
  rw [show (p.withHistory length).begin () w = p.begin () w from rfl]
  simp only [same]

end HillClimbing

/-! ### What a step accepts -/

/-- A proposal has no score or a valid one. -/
theorem Plan.propose_valid (p : Plan σ) (parent : Candidate) (requireScore both : Bool)
    (s : Search σ ε) :
    Move.Ends (p.propose parent requireScore both) s
      (fun proposal _ => ∀ given, proposal.2 = some given → given.valid = true)
      (fun _ => True) := by
  have within (tries : Nat) (last : Candidate) (s : Search σ ε) :
      Move.Ends (p.proposeWithin parent requireScore both tries last) s
        (fun proposal _ => ∀ given, proposal.2 = some given → given.valid = true)
        (fun _ => True) := by
    induction tries generalizing last s with
    | zero => exact .pure fun given noScore => by cases noScore
    | succ tries ih =>
        refine (Move.Ends.trivial _ _).bind fun c t _ => (Move.Ends.trivial _ _).bind ?_
        refine fun seen t _ => .ite (fun _ => ih c t) fun _ => ?_
        refine ((p.evaluate_ends c t).mono (fun _ _ after => after.1) fun _ _ => trivial).bind ?_
        rintro _ u rfl
        refine .ite (fun _ => .pure fun given kept => ?_) fun _ => ih c u
        rw [Score.counted] at kept
        split at kept
        next valid => exact Option.some.inj kept ▸ valid
        · cases kept
  exact within _ parent s

namespace HillClimbing

open Move

/-- A search that has proposed something from a state of late acceptance, and the hill climber that
has proposed it in its next iteration. -/
structure Proposes (start : Progress LateAcceptance.History)
    (s : Search σ LateAcceptance.History) (t : Search σ Unit) : Prop where
  same : ∃ seen, s.toProgress = { start with seen }
  next : t = { s with iteration := s.iteration + 1, own := () }

theorem proposes_abreast (start : Progress LateAcceptance.History) :
    Abreast (Proposes (σ := σ) start) where
  seen proposes := by rw [proposes.next]
  surroundings proposes := by rw [proposes.next]
  change seen w proposes := by
    obtain ⟨⟨seen', same⟩, rfl⟩ := proposes
    refine ⟨⟨seen, ?_⟩, rfl⟩
    rw [same]

/-- What a step makes of its proposal. -/
theorem step_of_propose {p : Plan σ} {s t : Search σ Unit} {c : Candidate} {score : Option Score}
    (proposed : (p.propose s.current false true).run.run { s with iteration := s.iteration + 1 } =
      (.ok (c, score), t)) :
    ((step p).run.run s).1 =
      .ok (if score.isSome && decide (effective t.currentScore < effective score) then
          ⟨t.iteration, true, c, score, c, score⟩
        else ⟨t.iteration, false, t.current, t.currentScore, t.best, t.bestScore⟩) := by
  have first : Ends (p.propose s.current false true) { s with iteration := s.iteration + 1 }
      (fun proposal u => proposal = (c, score) ∧ u = t) (fun _ => False) :=
    .of_run proposed ⟨rfl, rfl⟩
  have ends : (step p).Ends s (fun r _ => r =
      if score.isSome && decide (effective t.currentScore < effective score) then
        ⟨t.iteration, true, c, score, c, score⟩
      else ⟨t.iteration, false, t.current, t.currentScore, t.best, t.bestScore⟩)
      (fun _ => False) := by
    refine .modify_bind (.get_bind (first.bind ?_))
    rintro _ _ ⟨rfl, rfl⟩
    refine .get_bind (.ite (fun accepted => ?_) fun rejected => ?_)
    · rw [if_pos accepted, accepted]
      exact .modify_bind (.get_bind (.pure rfl))
    · rw [if_neg rejected, Bool.eq_false_of_not_eq_true rejected]
      exact .get_bind (.pure rfl)
  obtain ⟨_, _, run, rfl⟩ := ends.succeeds
  rw [run]

end HillClimbing

namespace Strategy

variable {p : Plan σ} {progress : Progress LateAcceptance.History} {v u : Surroundings σ}
  {c : Candidate} {score : Option Score} {t : Strategy}

/-- A proposal is made by the move that all algorithms share, where tries can be counted out. -/
theorem propose_eq_runAny {parent : Candidate} {requireScore both : Bool} {s : Strategy}
    (proposed : propose p parent requireScore both s v = (.ok (c, score), t, u)) :
    countFault p.config.maxAttempts = none ∧
      s.runAny (fun _ => p.propose parent requireScore both) v = (.ok (c, score), t, u) := by
  unfold propose at proposed
  cases fault : countFault p.config.maxAttempts with
  | some e =>
      rw [fault] at proposed
      cases (Prod.mk.inj proposed).1
  | none =>
      rw [fault] at proposed
      exact ⟨rfl, proposed⟩

/-- A proposal is accepted if it has a valid score that is greater than the current one, and only
then; otherwise all stays as it is. -/
theorem step_accepts (late : p.config.algorithm = .lateAcceptance)
    (climbs : Climbs (.lateAcceptance progress, v) ({ progress with own := () }, v))
    (proposed : propose p progress.current false true (.lateAcceptance progress) v =
      (.ok (c, score), t, u)) :
    ∃ r, (step p (.lateAcceptance progress) v).1 = .ok r ∧
      (r.accepted = true ↔ ∃ given, score = some given ∧ given.valid = true ∧
        effective progress.currentScore < given.total) ∧
      (r.accepted = true → r.current = c ∧ r.currentScore = score) ∧
      (r.accepted = false →
        r.current = progress.current ∧ r.currentScore = progress.currentScore) := by
  obtain ⟨whole, ran⟩ := propose_eq_runAny proposed
  have outcome : ((p.propose progress.current false true).run.run
      (⟨progress, v⟩ : Search σ LateAcceptance.History)).1 = .ok (c, score) := (Prod.mk.inj ran).1
  have valid := (p.propose_valid progress.current false true
    (⟨progress, v⟩ : Search σ LateAcceptance.History)).result outcome
  obtain ⟨same, ⟨seen, unchanged⟩, next⟩ := Move.propose_simulates
    (HillClimbing.proposes_abreast progress)
    (s := ⟨progress, v⟩) (t := ⟨{ progress with iteration := progress.iteration + 1, own := () }, v⟩)
    ⟨⟨progress.seen, rfl⟩, rfl⟩ p progress.current false true
  obtain ⟨z, run⟩ : ∃ z, (p.propose progress.current false true).run.run
      (⟨{ progress with iteration := progress.iteration + 1, own := () }, v⟩ : Search σ Unit) =
        (.ok (c, score), z) := ⟨_, Prod.ext (same.symm.trans outcome) rfl⟩
  rw [run, unchanged] at next
  dsimp only at next
  have first := HillClimbing.step_of_propose (s := ⟨{ progress with own := () }, v⟩) run
  rw [next] at first
  have taken := (step_climbs late climbs).1
  unfold HillClimbing.advance at taken
  rw [whole] at taken
  refine ⟨_, taken.trans first, ?_⟩
  dsimp only
  cases score with
  | none => simp
  | some given =>
      have total : effective (some given) = given.total := by simp [effective, valid given rfl]
      rw [total]
      by_cases better : effective progress.currentScore < given.total
      · simp [better, valid given rfl]
      · simp [better]

end Strategy

/-- Late acceptance is strict hill climbing, whatever the settings, the random numbers and the
evaluator.  After any number of steps its history is empty or ends with the current score, and the
current candidate and score are the best ones.  The search is a hill climber beside its history,
and its next step has the outcome of the hill climber's: a proposal is accepted if its score is
valid and greater than the current one, and only then.  So the same search with another length of
the history has the same outcome at every step. -/
theorem Plan.reached_climbs (p : Plan σ) (late : p.config.algorithm = .lateAcceptance)
    {w : Surroundings σ} {steps : Nat} {s : Strategy} {v : Surroundings σ}
    (reached : p.reached w steps = .ok (s, v)) :
    ∃ progress, s = .lateAcceptance progress ∧
      (progress.own = [] ∨ progress.own.getLast? = some (effective progress.currentScore)) ∧
      progress.current = progress.best ∧ progress.currentScore = progress.bestScore ∧
      HillClimbing.reached p w steps = .ok ({ progress with own := () }, v) ∧
      (Strategy.step p s v).1 = (HillClimbing.advance p ({ progress with own := () }, v)).1 ∧
      (∀ c score t u,
        Strategy.propose p progress.current false true s v = (.ok (c, score), t, u) →
          ∃ r, (Strategy.step p s v).1 = .ok r ∧
            (r.accepted = true ↔ ∃ given, score = some given ∧ given.valid = true ∧
              effective progress.currentScore < given.total) ∧
            (r.accepted = true → r.current = c ∧ r.currentScore = score) ∧
            (r.accepted = false →
              r.current = progress.current ∧ r.currentScore = progress.currentScore)) ∧
      ∀ length s' v', (p.withHistory length).reached w steps = .ok (s', v') →
        (Strategy.step (p.withHistory length) s' v').1 = (Strategy.step p s v).1 := by
  obtain ⟨y, simulated, climbs⟩ := Plan.reached_simulates late reached
  obtain ⟨progress, rfl, sides⟩ := climbs
  obtain ⟨y, w'⟩ := y
  obtain ⟨forgets, best, bestScore, last⟩ := sides
  cases forgets
  have climbs : Strategy.Climbs (.lateAcceptance progress, v) ({ progress with own := () }, v) :=
    ⟨progress, rfl, rfl, best, bestScore, last⟩
  refine ⟨progress, rfl, last, best.symm, bestScore.symm, simulated,
    (Strategy.step_climbs late climbs).1, ?_, ?_⟩
  · intro c score t u proposed
    exact Strategy.step_accepts late climbs proposed
  · intro length s' v' reached'
    have late' : (p.withHistory length).config.algorithm = .lateAcceptance := late
    obtain ⟨y, simulated', climbs'⟩ := Plan.reached_simulates late' reached'
    rw [HillClimbing.reached_withHistory, simulated] at simulated'
    obtain rfl := Except.ok.inj simulated'
    rw [(Strategy.step_climbs late' climbs').1, HillClimbing.advance_withHistory,
      (Strategy.step_climbs late climbs).1]

/-- Three steps with a history of fifty scores, and with a history of one. -/
theorem Plan.reached_climbs_byShape :
    let p : Plan Unit := ⟨{}, .byShape⟩
    let w : Surroundings Unit := ⟨⟨[0.5, 0.25, 0.75], 7, 0⟩, ()⟩
    ∃ s v s' v', p.reached w 3 = .ok (s, v) ∧
      (p.withHistory (.ofNat 1)).reached w 3 = .ok (s', v') ∧
        (Strategy.step (p.withHistory (.ofNat 1)) s' v').1 = (Strategy.step p s v).1 := by
  intro p w
  have begins : (p.reached w 3).toOption.isSome = true := by decide +kernel
  have begins' : ((p.withHistory (.ofNat 1)).reached w 3).toOption.isSome = true := by
    decide +kernel
  cases reached : p.reached w 3 with
  | error e =>
      rw [reached] at begins
      cases begins
  | ok x =>
      cases reached' : (p.withHistory (.ofNat 1)).reached w 3 with
      | error e =>
          rw [reached'] at begins'
          cases begins'
      | ok x' =>
          obtain ⟨progress, -, -, -, -, -, -, -, same⟩ := p.reached_climbs rfl reached
          exact ⟨x.1, x.2, x'.1, x'.2, rfl, rfl, same _ _ _ reached'⟩

end PrimeSearch
