/-
Module: PrimeSearch.Proofs.Search.Moves
Purpose: Reasoning about moves of a search, one part after another.
Main exports: Move.Ends, Move.Upholds, Move.Keeps, Move.Succeeds, Move.OnlyDraws,
  Annealing.useTemperature_ends, Annealing.cool_stepResult_ends
-/
import PrimeSearch.Search.Annealing
import PrimeSearch.Proofs.Search.Operators

namespace PrimeSearch

variable {σ ε α β : Type}

namespace Move

/-!
A move ends with a result in some state, or fails in some state.  `Ends` says what holds in
either case; it is proved along the parts of a move.  Most moves of an algorithm only draw:
they change nothing but the source.
-/

/-- From a state, a move ends as `Q` says with its result, or fails as `E` says. -/
def Ends (m : Move σ ε α) (s : Search σ ε) (Q : α → Search σ ε → Prop)
    (E : Search σ ε → Prop) : Prop :=
  match (m.run.run s : Except SearchError α × Search σ ε) with
  | (.ok a, t) => Q a t
  | (.error _, t) => E t

section
variable {s : Search σ ε} {m : Move σ ε α} {f : α → Move σ ε β} {Q R : α → Search σ ε → Prop}
  {E E' : Search σ ε → Prop}

theorem Ends.mono (ends : m.Ends s R E) (result : ∀ a t, R a t → Q a t)
    (failure : ∀ t, E t → E' t) : m.Ends s Q E' := by
  unfold Ends at *
  split
  next run => exact result _ _ (by simpa only [run] using ends)
  next run => exact failure _ (by simpa only [run] using ends)

/-- What holds of the result and the state when a move succeeds. -/
theorem Ends.result (ends : m.Ends s Q E) {a : α} (succeeds : (m.run.run s).1 = .ok a) :
    Q a (m.run.run s).2 := by
  unfold Ends at ends
  split at ends
  next b t run =>
    rw [run] at succeeds ⊢
    exact Except.ok.inj succeeds ▸ ends
  next e t run =>
    rw [run] at succeeds
    cases succeeds

/-- What holds of the state whether a move succeeds or fails. -/
theorem Ends.state (ends : m.Ends s (fun _ t => E t) E) : E (m.run.run s).2 := by
  unfold Ends at ends
  split at ends
  next run => exact run ▸ ends
  next run => exact run ▸ ends

/-- The result of a move is the one that it has. -/
theorem Ends.told (ends : m.Ends s Q E) :
    m.Ends s (fun a t => m.run.run s = (.ok a, t) ∧ Q a t) E := by
  unfold Ends at *
  split
  next a t run => exact ⟨run, by simpa only [run] using ends⟩
  next e t run => simpa only [run] using ends

/-- A move ends as it runs. -/
theorem Ends.of_run {a : α} {t : Search σ ε} (run : m.run.run s = (.ok a, t)) (result : Q a t) :
    m.Ends s Q E := by
  unfold Ends
  rw [run]
  exact result

/-- A move that cannot fail succeeds. -/
theorem Ends.succeeds (ends : m.Ends s Q fun _ => False) :
    ∃ a t, m.run.run s = (.ok a, t) ∧ Q a t := by
  unfold Ends at ends
  split at ends
  next a t run => exact ⟨a, t, run, ends⟩
  next => exact ends.elim

/-- Every move ends. -/
theorem Ends.trivial (m : Move σ ε α) (s : Search σ ε) :
    m.Ends s (fun _ _ => True) (fun _ => True) := by
  unfold Ends
  split
  next => exact True.intro
  next => exact True.intro

theorem Ends.pure {a : α} (result : Q a s) : (Pure.pure a : Move σ ε α).Ends s Q E := result

theorem Ends.throw {e : SearchError} (failure : E s) :
    (throw e : Move σ ε α).Ends s Q E := failure

theorem Ends.bind {Q : β → Search σ ε → Prop} (first : m.Ends s R E)
    (rest : ∀ a t, R a t → (f a).Ends t Q E) : (m >>= f).Ends s Q E := by
  unfold Ends at first ⊢
  rw [ExceptT.run_bind, StateT.run_bind]
  split at first
  next a t run =>
    rw [run]
    exact rest a t first
  next e t run =>
    rw [run]
    exact first

theorem Ends.get {Q : Search σ ε → Search σ ε → Prop} (result : Q s s) :
    (get : Move σ ε (Search σ ε)).Ends s Q E := result

theorem Ends.modify {Q : Unit → Search σ ε → Prop} {change : Search σ ε → Search σ ε}
    (result : Q () (change s)) : (modify change : Move σ ε Unit).Ends s Q E := result

/-- A move that reads the state goes on from there. -/
theorem Ends.get_bind {f : Search σ ε → Move σ ε α} (rest : (f s).Ends s Q E) :
    (MonadState.get >>= f).Ends s Q E := rest

/-- A move that changes the state goes on from the changed one. -/
theorem Ends.modify_bind {change : Search σ ε → Search σ ε} {f : Unit → Move σ ε α}
    (rest : (f ()).Ends (change s) Q E) :
    ((modifyThe (Search σ ε) change : Move σ ε Unit) >>= f).Ends s Q E := rest

/-- A move that replaces the state goes on from the new one. -/
theorem Ends.set_bind {t : Search σ ε} {f : PUnit → Move σ ε α} (rest : (f ⟨⟩).Ends t Q E) :
    ((MonadState.set t : Move σ ε PUnit) >>= f).Ends s Q E := rest

theorem Ends.ite {c : Prop} [Decidable c] {m' : Move σ ε α} (yes : c → m.Ends s Q E)
    (no : ¬c → m'.Ends s Q E) : (if c then m else m' : Move σ ε α).Ends s Q E := by
  split
  next holds => exact yes holds
  next fails => exact no fails

theorem Ends.draw {d : Draw α}
    (result : Q (d.run s.source).1 { s with source := (d.run s.source).2 }) :
    (draw d).Ends s Q E := result

end

/-! ### Invariants of moves -/

/-- From every state of an invariant, a move that succeeds has a result as `Q` says and upholds the
invariant, and a move that fails ends as `E` says. -/
def Upholds (I E : Search σ ε → Prop) (m : Move σ ε α) (Q : α → Prop) : Prop :=
  ∀ s, I s → m.Ends s (fun a t => Q a ∧ I t) E

/-- Whether a move succeeds or fails, the invariant still holds. -/
abbrev Keeps (I : Search σ ε → Prop) (m : Move σ ε α) : Prop := Upholds I I m fun _ => True

/-- The move succeeds, with a result as `Q` says, and the invariant still holds. -/
abbrev Succeeds (I : Search σ ε → Prop) (m : Move σ ε α) (Q : α → Prop) : Prop :=
  Upholds I (fun _ => False) m Q

section
variable {I E : Search σ ε → Prop} {m n : Move σ ε α} {Q : α → Prop} {R : β → Prop}

theorem Upholds.pure {a : α} (result : Q a) : Upholds I E (Pure.pure a : Move σ ε α) Q :=
  fun _ holds => .pure ⟨result, holds⟩

theorem Upholds.bind {m : Move σ ε β} {f : β → Move σ ε α} (first : Upholds I E m R)
    (rest : ∀ b, R b → Upholds I E (f b) Q) : Upholds I E (m >>= f) Q :=
  fun s holds => (first s holds).bind fun b t ⟨result, holds⟩ => rest b result t holds

theorem Upholds.get_bind {f : Search σ ε → Move σ ε α} (rest : ∀ s, I s → Upholds I E (f s) Q) :
    Upholds I E (MonadState.get >>= f) Q := fun s holds => .get_bind (rest s holds s holds)

theorem Upholds.modify {change : Search σ ε → Search σ ε} (kept : ∀ s, I s → I (change s)) :
    Upholds I E (modify change : Move σ ε Unit) fun _ => True :=
  fun s holds => .modify ⟨True.intro, kept s holds⟩

theorem Upholds.ite {c : Prop} [Decidable c] (yes : c → Upholds I E m Q)
    (no : ¬c → Upholds I E n Q) : Upholds I E (if c then m else n) Q :=
  fun s holds => .ite (fun yes' => yes yes' s holds) fun no' => no no' s holds

theorem Keeps.state (keeps : Keeps I m) {s : Search σ ε} (holds : I s) : I (m.run.run s).2 :=
  ((keeps s holds).mono (fun _ _ after => after.2) fun _ after => after).state

end

/-! ### Moves that only draw -/

/-- Nothing changes but the source, from which only numbers are taken. -/
def Quiet (s t : Search σ ε) : Prop :=
  ∃ source, s.source.Leads source ∧ t = { s with source }

theorem Quiet.refl (s : Search σ ε) : Quiet s s := ⟨s.source, .refl _, rfl⟩

theorem Quiet.trans {s t u : Search σ ε} (first : Quiet s t) (second : Quiet t u) :
    Quiet s u := by
  obtain ⟨source, taken, rfl⟩ := first
  obtain ⟨source', taken', rfl⟩ := second
  exact ⟨source', taken.trans taken', rfl⟩

/-- From every state, a move only draws. -/
def OnlyDraws (m : Move σ ε α) : Prop := ∀ s, m.Ends s (fun _ t => Quiet s t) (Quiet s)

section
variable {m : Move σ ε α} {f : α → Move σ ε β}

/-- An invariant that drawing keeps still holds when the move that follows begins. -/
theorem OnlyDraws.bind_ends {I : Search σ ε → Prop} {s : Search σ ε}
    {Q : β → Search σ ε → Prop} (only : OnlyDraws m) (stable : ∀ t, Quiet s t → I t)
    (rest : ∀ a t, I t → (f a).Ends t Q I) : (m >>= f).Ends s Q I := by
  have kept : m.Ends s (fun _ t => I t) I := (only s).mono (fun _ => stable) stable
  exact kept.bind rest

theorem OnlyDraws.pure (a : α) : OnlyDraws (Pure.pure a : Move σ ε α) :=
  fun s => .pure (.refl s)

theorem OnlyDraws.throw (e : SearchError) : OnlyDraws (throw e : Move σ ε α) :=
  fun s => .throw (.refl s)

theorem OnlyDraws.bind (first : OnlyDraws m) (rest : ∀ a, OnlyDraws (f a)) :
    OnlyDraws (m >>= f) :=
  fun s => (first s).bind fun a t before =>
    (rest a t).mono (fun _ _ after => before.trans after) fun _ after => before.trans after

theorem OnlyDraws.get : OnlyDraws (get : Move σ ε (Search σ ε)) := fun s => .get (.refl s)

theorem OnlyDraws.ite {c : Prop} [Decidable c] {m' : Move σ ε α} (yes : c → OnlyDraws m)
    (no : ¬c → OnlyDraws m') : OnlyDraws (if c then m else m') :=
  fun s => .ite (fun holds => yes holds s) fun fails => no fails s

theorem OnlyDraws.draw {d : Draw α} (advances : d.Advances) :
    OnlyDraws (PrimeSearch.draw d : Move σ ε α) :=
  fun s => .draw ⟨_, advances s.source, rfl⟩

theorem OnlyDraws.attempt {t : Trial α} (advances : t.Advances) :
    OnlyDraws (PrimeSearch.attempt t : Move σ ε α) := by
  intro s
  have quiet : Quiet s ((PrimeSearch.attempt t : Move σ ε α).run.run s).2 :=
    ⟨_, advances s.source, rfl⟩
  unfold Ends
  split
  next run => simpa only [run] using quiet
  next run => simpa only [run] using quiet

theorem OnlyDraws.wasSeen (c : Candidate) : OnlyDraws (PrimeSearch.wasSeen c : Move σ ε Bool) :=
  .bind .get fun _ => .pure _

end

end Move

/-! ### Scoring and keeping the best -/

/-- The score that a search keeps: none when it is not valid. -/
def Score.counted (score : Score) : Option Score := if score.valid then some score else none

theorem Evaluator.run_evaluate {e : Evaluator σ} {c : Candidate} (fits : c.mode = e.mode)
    (w : Surroundings σ) :
    (e.evaluate c).run.run w = (.ok ((e.score c).run w).1, ((e.score c).run w).2) := by
  rw [Evaluator.evaluate, if_pos fits]
  rfl

theorem Evaluator.run_evaluate_mismatch {e : Evaluator σ} {c : Candidate}
    (other : c.mode ≠ e.mode) (w : Surroundings σ) :
    (e.evaluate c).run.run w = (.error ⟨c.mode, e.mode⟩, w) := by
  rw [Evaluator.evaluate, if_neg other]
  rfl

/-- Scoring marks a candidate as seen and asks the evaluator.  A candidate of another mode is
only marked. -/
theorem Plan.evaluate_ends (p : Plan σ) (c : Candidate) (s : Search σ ε) :
    Move.Ends (p.evaluate c) s
      (fun score t =>
        score = ((p.evaluator.score c).run s.toSurroundings).1.counted ∧
          t = { s with
            seen := s.seen.insert c.key
            toSurroundings := ((p.evaluator.score c).run s.toSurroundings).2 })
      (fun t => t = { s with seen := s.seen.insert c.key }) := by
  refine .modify_bind (Move.Ends.bind
    (R := fun score t =>
      score = ((p.evaluator.score c).run s.toSurroundings).1 ∧
        t = { s with
          seen := s.seen.insert c.key
          toSurroundings := ((p.evaluator.score c).run s.toSurroundings).2 })
    ?_ fun score t ⟨given, after⟩ => .pure ⟨congrArg Score.counted given, after⟩)
  unfold Move.Ends
  by_cases fits : c.mode = p.evaluator.mode
  · have called := Evaluator.run_evaluate fits s.toSurroundings
    dsimp only [ExceptT.run_mk, StateT.run] at called ⊢
    rw [called]
    exact ⟨rfl, rfl⟩
  · have refused := Evaluator.run_evaluate_mismatch fits s.toSurroundings
    dsimp only [ExceptT.run_mk, StateT.run] at refused ⊢
    rw [refused]
    rfl

/-- A candidate is kept if it is better than the best one. -/
theorem updateBest_ends {Q : Bool → Search σ ε → Prop} {E : Search σ ε → Prop} {c : Candidate}
    {score : Option Score} {s : Search σ ε}
    (better : effective s.bestScore < effective score →
      Q true { s with best := c, bestScore := score })
    (notBetter : ¬effective s.bestScore < effective score → Q false s) :
    Move.Ends (updateBest c score) s Q E := by
  refine .get_bind (.ite (fun less => ?_) fun notLess => .pure (notBetter notLess))
  exact .set_bind (.pure (better less))

/-! ### The temperature of annealing -/

namespace Annealing

open Move

variable {p : Plan σ} {s : Search σ Temperature} {Q : Unit → Search σ Temperature → Prop}
  {E : Search σ Temperature → Prop}

/-- Computing with the temperature changes nothing, and fails only where it is needed and the
temperature is too hot. -/
theorem useTemperature_ends {needed : Bool} (used : Q () s)
    (tooHot : needed = true → p.config.isTooHot = true → E s) :
    Ends (useTemperature p needed) s Q E := by
  refine .ite (fun hot => .throw ?_) fun _ => .pure used
  rw [Bool.and_eq_true] at hot
  exact tooHot hot.1 hot.2

/-- Cooling changes the temperature and nothing else. -/
theorem cool_ends (cooled : ∀ own, Q () { s with own })
    (tooHot : p.config.isTooHot = true → E s) : Ends (cool p) s Q E := by
  refine .bind (R := fun _ t => t = s) (useTemperature_ends rfl fun _ => tooHot) ?_
  rintro - t rfl
  exact .modify (cooled _)

/-- The end of a step: the search cools, and its result is told. -/
theorem cool_stepResult_ends {Q : StepResult → Search σ Temperature → Prop} {accepted : Bool}
    (result : ∀ own r, r.accepted = accepted → Q r { s with own })
    (tooHot : p.config.isTooHot = true → E s) :
    Ends (do cool p; stepResult accepted) s Q E := by
  refine .bind (R := fun _ t => ∃ own, t = { s with own }) ?_ ?_
  · exact cool_ends (fun own => ⟨own, rfl⟩) tooHot
  · rintro - t ⟨own, rfl⟩
    exact .get_bind (.pure (result own _ rfl))

end Annealing

/-! ### Beginning -/

/-- A search whose first candidate was drawn but not scored. -/
def Plan.unscored (p : Plan σ) (own : ε) (w : Surroundings σ) : Search σ ε :=
  let first := p.config.operators.random.run w.source
  { iteration := 0, seen := ∅, current := first.1, currentScore := none, best := first.1,
    bestScore := none, own, source := first.2, memory := w.memory }

theorem Plan.begin_eq (p : Plan σ) (own : ε) (w : Surroundings σ) :
    p.begin own w = p.scoreFirst.run.run (p.unscored own w) := rfl

end PrimeSearch
