/-
Module: PrimeSearch.Proofs.Search.Best
Purpose: The best candidate of a search is the earliest of the greatest that were scored.
Main exports: Foremost, EarliestBest, Evaluator.Regular, Settled, Unsettled, Plan.evaluate_ends
-/
import PrimeSearch.Proofs.Number.Difference
import PrimeSearch.Proofs.Search.Calls

namespace PrimeSearch

open Binary64

variable {σ ε : Type}

/-! ### Effective scores -/

theorem effective_counted (score : Score) : effective score.counted = effective (some score) := by
  unfold Score.counted
  split
  · rfl
  next invalid => simp [effective, invalid]

theorem decode_bottom : decode (-infinity) = .infinite true := by decide +kernel

/-- What has no valid score is below every number. -/
theorem effective_none_le {x : Float} (number : decode x ≠ .nan) : effective none ≤ x := by
  have bottom : decode (effective none) = .infinite true := decode_bottom
  rw [le_iff, key, bottom]
  exact ⟨by simp, number, (key_bounds (canonical_decode x) number).1⟩

theorem effective_of_invalid {score : Score} (invalid : score.valid = false) :
    effective (some score) = effective none := by
  simp [effective, invalid]

/-! ### The first of the greatest -/

/-- A member of a list is the first of those whose rank is greatest. -/
def Foremost {α : Type} (rank : α → Float) (xs : List α) (x : α) : Prop :=
  ∃ before after, xs = before ++ x :: after ∧ (∀ y ∈ before, rank y < rank x) ∧
    ∀ y ∈ after, rank y ≤ rank x

namespace Foremost

variable {α : Type} {rank : α → Float} {xs : List α} {x y : α}

theorem single (x : α) : Foremost rank [x] x := ⟨[], [], rfl, by simp, by simp⟩

/-- No member has a greater rank. -/
theorem le (foremost : Foremost rank xs x) (number : decode (rank x) ≠ .nan) :
    ∀ y ∈ xs, rank y ≤ rank x := by
  obtain ⟨before, after, rfl, less, atMost⟩ := foremost
  intro y listed
  rcases List.mem_append.mp listed with early | late
  · exact Binary64.le_of_lt (less y early)
  · rcases List.mem_cons.mp late with rfl | late
    · exact Binary64.le_refl number
    · exact atMost y late

/-- A further member of no greater rank comes after it. -/
theorem append_of_le (foremost : Foremost rank xs x) (notGreater : rank y ≤ rank x) :
    Foremost rank (xs ++ [y]) x := by
  obtain ⟨before, after, rfl, less, atMost⟩ := foremost
  refine ⟨before, after ++ [y], by simp, less, fun z listed => ?_⟩
  rcases List.mem_append.mp listed with early | late
  · exact atMost z early
  · obtain rfl := List.mem_singleton.mp late
    exact notGreater

/-- A further member of a greater rank takes its place. -/
theorem append_of_lt (foremost : Foremost rank xs x) (greater : rank x < rank y) :
    Foremost rank (xs ++ [y]) y := by
  have number := ((lt_iff _ _).mp greater).1
  refine ⟨xs, [], rfl, fun z listed => ?_, by simp⟩
  exact Binary64.lt_of_le_of_lt (foremost.le number z listed) greater

end Foremost

/-! ### The earliest of the best calls -/

/-- A candidate and its score are the first of all calls whose effective score is greatest. -/
def EarliestBest (calls : Calls) (c : Candidate) (score : Option Score) : Prop :=
  ∃ before given after, calls = before ++ (c, given) :: after ∧ score = given.counted ∧
    (∀ call ∈ before, effective (some call.2) < effective (some given)) ∧
      ∀ call ∈ after, effective (some call.2) ≤ effective (some given)

namespace EarliestBest

variable {calls : Calls} {c : Candidate} {score : Option Score}

/-- Calls are ranked by the scores that were given. -/
theorem iff_foremost : EarliestBest calls c score ↔ ∃ given, score = given.counted ∧
    Foremost (fun call : Candidate × Score => effective (some call.2)) calls (c, given) := by
  constructor
  · rintro ⟨before, given, after, all, kept, less, atMost⟩
    exact ⟨given, kept, before, after, all, less, atMost⟩
  · rintro ⟨given, kept, before, after, all, less, atMost⟩
    exact ⟨before, given, after, all, kept, less, atMost⟩

theorem single (c : Candidate) (given : Score) : EarliestBest [(c, given)] c given.counted :=
  iff_foremost.mpr ⟨given, rfl, .single (c, given)⟩

/-- Nothing that was scored is better. -/
theorem le (best : EarliestBest calls c score) (number : decode (effective score) ≠ .nan) :
    ∀ call ∈ calls, effective (some call.2) ≤ effective score := by
  obtain ⟨given, rfl, foremost⟩ := iff_foremost.mp best
  rw [effective_counted] at number ⊢
  exact foremost.le number

/-- A call that is not better leaves the best where it is. -/
theorem append_of_le (best : EarliestBest calls c score) {call : Candidate × Score}
    (notBetter : effective (some call.2) ≤ effective score) :
    EarliestBest (calls ++ [call]) c score := by
  obtain ⟨given, rfl, foremost⟩ := iff_foremost.mp best
  rw [effective_counted] at notBetter
  exact iff_foremost.mpr ⟨given, rfl, foremost.append_of_le notBetter⟩

/-- A call that is better is the new best. -/
theorem append_of_lt (best : EarliestBest calls c score) {d : Candidate} {given : Score}
    (better : effective score < effective (some given)) :
    EarliestBest (calls ++ [(d, given)]) d given.counted := by
  obtain ⟨held, rfl, foremost⟩ := iff_foremost.mp best
  rw [effective_counted] at better
  exact iff_foremost.mpr ⟨given, rfl, foremost.append_of_lt better⟩

end EarliestBest

/-! ### Scoring -/

/-- Valid totals are numbers, and the source stays fair.  Only calls with a fair source count. -/
structure Evaluator.Regular (e : Evaluator σ) : Prop where
  number : ∀ c w, w.source.Fair →
    ((e.score c).run w).1.valid = true → ((e.score c).run w).1.total.isNaN = false
  source : ∀ c w, w.source.Fair → ((e.score c).run w).2.source.Fair

theorem Evaluator.Regular.effective_number {e : Evaluator σ} (regular : e.Regular)
    (c : Candidate) {w : Surroundings σ} (fair : w.source.Fair) :
    decode (effective (some ((e.score c).run w).1)) ≠ .nan := by
  have number := regular.number c w fair
  cases valid : ((e.score c).run w).1.valid with
  | false =>
      rw [effective_of_invalid valid]
      exact ((le_iff _ _).mp (effective_none_le (x := 0.0) (by decide +kernel))).1
  | true =>
      intro noNumber
      simp only [effective, valid, if_true] at noNumber
      rw [(isNaN_iff _).mpr noNumber] at number
      exact absurd (number valid) (by simp)

/-! ### What holds between two calls and after a call -/

/-- The calls that were written down. -/
def Search.calls (s : Search (σ × Calls) ε) : Calls := s.memory.2

/-- Between two calls the best candidate is the earliest best of all calls so far, of which
`base` are the first. -/
structure Settled (base : Calls) (s : Search (σ × Calls) ε) : Prop where
  grown : base <+: s.calls
  fair : s.source.Fair
  number : decode (effective s.bestScore) ≠ .nan
  best : EarliestBest s.calls s.best s.bestScore

/-- A call was made whose score is not compared with the best one yet. -/
structure Unsettled (base : Calls) (c : Candidate) (given : Score) (s : Search (σ × Calls) ε) :
    Prop where
  grown : base <+: s.calls
  fair : s.source.Fair
  number : decode (effective s.bestScore) ≠ .nan
  numberGiven : decode (effective (some given)) ≠ .nan
  best : ∃ calls, s.calls = calls ++ [(c, given)] ∧ EarliestBest calls s.best s.bestScore

section
variable {base : Calls} {c : Candidate} {given : Score} {s t : Search (σ × Calls) ε}

theorem Settled.quiet (settled : Settled base s) (quiet : Move.Quiet s t) :
    Settled base t := by
  obtain ⟨source, taken, rfl⟩ := quiet
  exact ⟨settled.grown, settled.fair.leads taken, settled.number, settled.best⟩

/-- Whatever else changes, the invariant is about the calls, the source and the best. -/
theorem Settled.frame {ε' : Type} {t : Search (σ × Calls) ε'} (settled : Settled base s)
    (surroundings : t.toSurroundings = s.toSurroundings) (best : t.best = s.best)
    (score : t.bestScore = s.bestScore) : Settled base t := by
  obtain ⟨grown, fair, number, earliest⟩ := settled
  constructor
  · rw [Search.calls, surroundings]
    exact grown
  · rw [surroundings]
    exact fair
  · rw [score]
    exact number
  · rw [Search.calls, surroundings, best, score]
    exact earliest

theorem Unsettled.frame {ε' : Type} {t : Search (σ × Calls) ε'}
    (unsettled : Unsettled base c given s) (surroundings : t.toSurroundings = s.toSurroundings)
    (best : t.best = s.best) (score : t.bestScore = s.bestScore) :
    Unsettled base c given t := by
  obtain ⟨grown, fair, number, numberGiven, earliest⟩ := unsettled
  constructor
  · rw [Search.calls, surroundings]
    exact grown
  · rw [surroundings]
    exact fair
  · rw [score]
    exact number
  · exact numberGiven
  · rw [Search.calls, surroundings, best, score]
    exact earliest

/-- A score that is not better can be forgotten. -/
theorem Unsettled.settled (unsettled : Unsettled base c given s)
    (notBetter : effective (some given) ≤ effective s.bestScore) : Settled base s := by
  obtain ⟨calls, all, best⟩ := unsettled.best
  exact ⟨unsettled.grown, unsettled.fair, unsettled.number, all ▸ best.append_of_le notBetter⟩

theorem Unsettled.settled_of_invalid (unsettled : Unsettled base c given s)
    (invalid : given.valid = false) : Settled base s :=
  unsettled.settled (effective_of_invalid invalid ▸ effective_none_le unsettled.number)

/-- Comparing the score with the best one settles it, and leaves no score of the candidate above
the best one. -/
theorem Unsettled.updateBest {score : Option Score} (unsettled : Unsettled base c given s)
    (kept : score = given.counted) {Q : Bool → Search (σ × Calls) ε → Prop}
    {E : Search (σ × Calls) ε → Prop}
    (settled : ∀ changed t, Settled base t → effective s.bestScore ≤ effective t.bestScore →
      effective score ≤ effective t.bestScore →
        t = { s with best := t.best, bestScore := t.bestScore } → Q changed t) :
    Move.Ends (PrimeSearch.updateBest c score) s Q E := by
  subst kept
  obtain ⟨calls, all, best⟩ := unsettled.best
  refine updateBest_ends (fun better => ?_) fun notBetter => ?_
  · rw [effective_counted] at better
    apply settled
    · exact ⟨unsettled.grown, unsettled.fair, effective_counted given ▸ unsettled.numberGiven,
        all ▸ best.append_of_lt better⟩
    · exact effective_counted given ▸ Binary64.le_of_lt better
    · exact Binary64.le_refl (effective_counted given ▸ unsettled.numberGiven)
    · rfl
  · have atMost := Binary64.le_of_not_lt unsettled.number
      (effective_counted given ▸ unsettled.numberGiven) notBetter
    apply settled
    · exact unsettled.settled (effective_counted given ▸ atMost)
    · exact Binary64.le_refl unsettled.number
    · exact atMost
    · rfl

end

/-- Scoring a candidate writes one call down.  A candidate of another mode is not scored. -/
theorem Settled.evaluate {p : Plan σ} (regular : p.evaluator.Regular) {base : Calls}
    {c : Candidate} {s : Search (σ × Calls) ε} (settled : Settled base s)
    {Q : Option Score → Search (σ × Calls) ε → Prop} {E : Search (σ × Calls) ε → Prop}
    (scored : ∀ given seen source memory, Unsettled base c given
      { s with seen, source, memory } → Q given.counted { s with seen, source, memory })
    (refused : Settled base { s with seen := s.seen.insert c.key } →
      E { s with seen := s.seen.insert c.key }) :
    Move.Ends (p.logged.evaluate c) s Q E := by
  refine (Plan.evaluate_ends p.logged c s).mono ?_ ?_
  · rintro score t ⟨rfl, rfl⟩
    apply scored
    refine ⟨settled.grown.trans (List.prefix_append _ _), ?_, settled.number, ?_, ?_⟩
    · exact regular.source c ⟨s.source, s.memory.1⟩ settled.fair
    · exact regular.effective_number c (w := ⟨s.source, s.memory.1⟩) settled.fair
    · exact ⟨s.calls, rfl, settled.best⟩
  · rintro t rfl
    exact refused ⟨settled.grown, settled.fair, settled.number, settled.best⟩

end PrimeSearch
