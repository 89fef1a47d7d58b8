/-
Module: PrimeSearch.Proofs.Search.Breeding
Purpose: The genetic algorithm keeps the best candidate, whatever it does to its population.
Main exports: Breeding, Genetic.populate_breeding, Genetic.step_breeding
-/
import PrimeSearch.Proofs.Search.Best

namespace PrimeSearch

open Binary64

/-!
Every score that the genetic algorithm gets is compared with the best one when it is recorded.
Scores that were remembered are recorded again, for candidates that were seen before; these are
not calls, and they change nothing, because no remembered score is above the best one.
-/

variable {σ α : Type} {p : Plan σ} {base : Calls} {s t : Search (σ × Calls) Population}

/-- No score of a table is better than another one. -/
def Covered (scores : Std.TreeMap String (Option Score)) (best : Option Score) : Prop :=
  ∀ (key : String) score, scores[key]? = some score → effective score ≤ effective best

theorem Covered.insert {scores : Std.TreeMap String (Option Score)} {best score : Option Score}
    (covered : Covered scores best) (key : String) (atMost : effective score ≤ effective best) :
    Covered (scores.insert key score) best := by
  intro other score' found
  rw [Std.TreeMap.getElem?_insert] at found
  split at found
  · obtain rfl := Option.some.inj found
    exact atMost
  · exact covered other score' found

theorem Covered.rise {scores : Std.TreeMap String (Option Score)} {best best' : Option Score}
    (covered : Covered scores best) (rises : effective best ≤ effective best') :
    Covered scores best' :=
  fun key score found => Binary64.le_trans (covered key score found) rises

/-- Between two calls, with a table of scores that are not better than the best one. -/
structure Breeding (base : Calls) (s : Search (σ × Calls) Population) : Prop
    extends Settled base s where
  covered : Covered s.own.scores s.bestScore

namespace Breeding

theorem quiet (breeding : Breeding base s) (quiet : Move.Quiet s t) : Breeding base t := by
  have settled := breeding.toSettled.quiet quiet
  obtain ⟨source, taken, rfl⟩ := quiet
  exact ⟨settled, breeding.covered⟩

/-- A move that only draws does not disturb what follows it. -/
theorem draws {ε' β : Type} {m : Move (σ × Calls) Population ε'}
    {f : ε' → Move (σ × Calls) Population β} {Q : β → Search (σ × Calls) Population → Prop}
    (breeding : Breeding base s) (only : m.OnlyDraws)
    (rest : ∀ a t, Breeding base t → (f a).Ends t Q (Breeding base)) :
    (m >>= f).Ends s Q (Breeding base) :=
  only.bind_ends (fun _ => breeding.quiet) rest

/-- What is remembered of a candidate is not better than the best score. -/
theorem scoreOf_le (breeding : Breeding base s) (c : Candidate) :
    effective (Genetic.scoreOf s.own c) ≤ effective s.bestScore := by
  unfold Genetic.scoreOf
  cases remembered : s.own.scores[c.key]? with
  | none => exact effective_none_le breeding.number
  | some score => exact breeding.covered c.key score remembered

/-- A table of remembered scores alone. -/
theorem covered_foldl (breeding : Breeding base s) (members : List Candidate)
    {scores : Std.TreeMap String (Option Score)} (covered : Covered scores s.bestScore) :
    Covered (members.foldl
      (fun scores c => scores.insert c.key (Genetic.scoreOf s.own c)) scores) s.bestScore := by
  induction members generalizing scores with
  | nil => exact covered
  | cons c members ih => exact ih (covered.insert c.key (breeding.scoreOf_le c))

end Breeding

namespace Genetic

/-! ### Recording -/

/-- The score of a call is settled when it is recorded. -/
theorem record_call {c : Candidate} {given : Score} {score : Option Score}
    (unsettled : Unsettled base c given s) (kept : score = given.counted)
    (covered : Covered s.own.scores s.bestScore) :
    Move.Ends (record c score) s (fun _ t => Breeding base t) (Breeding base) := by
  refine .modify_bind (.bind (R := fun _ t => Breeding base t) ?_ fun _ _ after => .pure after)
  have entered : Unsettled base c given { s with
      own := { s.own with scores := s.own.scores.insert c.key score } } :=
    unsettled.frame rfl rfl rfl
  refine entered.updateBest kept fun changed t settled rises atMost same => ⟨settled, ?_⟩
  rw [same]
  exact (covered.rise rises).insert c.key atMost

/-- Recording a score that is not better than the best one changes the table only. -/
theorem record_again {c : Candidate} {score : Option Score} (breeding : Breeding base s)
    (atMost : effective score ≤ effective s.bestScore) :
    Move.Ends (record c score) s (fun _ t => Breeding base t) (Breeding base) := by
  refine .modify_bind (.bind (R := fun _ t => Breeding base t) ?_ fun _ _ after => .pure after)
  refine updateBest_ends (fun better => ?_) fun _ => ?_
  · have order := ((le_iff _ _).mp atMost).2.2
    have order' := ((lt_iff _ _).mp better).2.2
    exact absurd order (Int.not_le.mpr order')
  · exact ⟨breeding.toSettled.frame rfl rfl rfl, breeding.covered.insert c.key atMost⟩

/-- Scoring a candidate and recording the score at once. -/
theorem evaluate_breeding (regular : p.evaluator.Regular) (c : Candidate)
    (breeding : Breeding base s) {f : Option Score → Move (σ × Calls) Population α}
    {Q : α → Search (σ × Calls) Population → Prop}
    (rest : ∀ given t, Unsettled base c given t → Covered t.own.scores t.bestScore →
      (f given.counted).Ends t Q (Breeding base)) :
    Move.Ends (p.logged.evaluate c >>= f) s Q (Breeding base) := by
  refine .bind (R := fun score t => ∃ given, score = given.counted ∧ Unsettled base c given t ∧
    Covered t.own.scores t.bestScore) ?_ ?_
  · exact breeding.toSettled.evaluate regular
      (fun given seen source memory unsettled => ⟨given, rfl, unsettled, breeding.covered⟩)
      fun settled => ⟨settled, breeding.covered⟩
  · rintro _ t ⟨given, rfl, unsettled, covered⟩
    exact rest given t unsettled covered

/-! ### The first generation -/

theorem enlarge_breeding (regular : p.evaluator.Regular) (c : Candidate)
    (breeding : Breeding base s) :
    Move.Ends (enlarge p.logged c) s (fun _ t => Breeding base t) (Breeding base) := by
  refine evaluate_breeding regular c breeding fun given t unsettled covered => .modify_bind ?_
  exact record_call (unsettled.frame rfl rfl rfl) rfl covered

theorem fillAny_breeding (regular : p.evaluator.Regular) (places : Nat)
    (breeding : Breeding base s) :
    Move.Ends (fillAny p.logged places) s (fun _ t => Breeding base t) (Breeding base) := by
  induction places generalizing s with
  | zero => exact .pure breeding
  | succ places ih =>
      refine breeding.draws (.draw (Operators.random_advances _)) fun c t breeding => ?_
      exact .bind (enlarge_breeding regular c breeding) fun _ t after => ih after

theorem fillNew_breeding (regular : p.evaluator.Regular) (tries places : Nat)
    (breeding : Breeding base s) :
    Move.Ends (fillNew p.logged tries places) s (fun _ t => Breeding base t) (Breeding base) := by
  induction tries generalizing places s with
  | zero => exact fillAny_breeding regular places breeding
  | succ tries ih =>
      cases places with
      | zero => exact .pure breeding
      | succ places =>
          refine breeding.draws (.draw (Operators.random_advances _)) fun c t breeding => ?_
          refine breeding.draws (.wasSeen c) fun seen t breeding => ?_
          refine .ite (fun _ => ih (places + 1) breeding) fun _ => ?_
          exact .bind (enlarge_breeding regular c breeding) fun _ t after => ih places after

/-- The first member and its score are those of the first candidate, which is the best. -/
theorem populate_breeding (regular : p.evaluator.Regular) (settled : Settled base s)
    (first : s.currentScore = s.bestScore) :
    Move.Ends (populate p.logged) s (fun _ t => Breeding base t) (Breeding base) := by
  refine .modify_bind (fillNew_breeding regular _ _
    ⟨settled.frame rfl rfl rfl, ?_⟩)
  refine Covered.insert (fun key score found => ?_) _ ?_
  · simp at found
  · rw [first]
    exact Binary64.le_refl settled.number

/-! ### Choosing and changing parents -/

theorem drawMember_onlyDraws : Move.OnlyDraws (drawMember : Move σ Population Candidate) := by
  refine .bind .get fun s => ?_
  split
  · exact .pure _
  · exact .draw (.choose _ _)

theorem redraw_onlyDraws (tries : Nat) (c : Candidate) :
    Move.OnlyDraws (redraw tries c : Move σ Population Candidate) := by
  induction tries generalizing c with
  | zero => exact .pure _
  | succ tries ih =>
      refine .bind .get fun s => .ite (fun _ => .pure _) fun _ => ?_
      exact .bind drawMember_onlyDraws fun c => ih c

theorem drawScored_onlyDraws : Move.OnlyDraws (drawScored : Move σ Population Candidate) :=
  .bind drawMember_onlyDraws fun c => redraw_onlyDraws _ c

theorem compete_onlyDraws (places : Nat) (best : Candidate) :
    Move.OnlyDraws (compete places best : Move σ Population Candidate) := by
  induction places generalizing best with
  | zero => exact .pure _
  | succ places ih =>
      exact .bind drawScored_onlyDraws fun c => .bind .get fun s => ih _

theorem selectParent_onlyDraws (p : Plan σ) : Move.OnlyDraws (selectParent p) :=
  .bind drawScored_onlyDraws fun first => compete_onlyDraws _ first

theorem belowRate_onlyDraws (rate : Option Quantity) :
    Move.OnlyDraws (belowRate rate : Move σ Population Bool) := by
  refine .bind (.draw .unit) fun u => ?_
  cases rate with
  | none => exact .throw _
  | some rate => exact .pure _

theorem mutateChild_onlyDraws (p : Plan σ) (c : Candidate) :
    Move.OnlyDraws (mutateChild p c) := by
  refine .bind (belowRate_onlyDraws _) fun replaced =>
    .ite (fun _ => .draw (Operators.random_advances _)) fun _ => ?_
  dsimp only
  refine .ite (fun _ => .bind (.draw (.below _)) fun transform => ?_)
    fun _ => .bind (.pure _) fun transform => ?_
  all_goals
    refine .ite (fun _ => .attempt (Operators.symmetricMutation_advances c)) fun _ => ?_
    refine .bind (belowRate_onlyDraws _) fun mutated => ?_
    exact .ite (fun _ => .attempt (Operators.mutate_advances _ _ _ _)) fun _ => .pure _

/-! ### The next generation -/

theorem offer_breeding (regular : p.evaluator.Regular) (b : Brood) (child : Candidate)
    (breeding : Breeding base s) :
    Move.Ends (offer p.logged b child) s (fun _ t => Breeding base t) (Breeding base) := by
  refine .ite (fun _ => .pure breeding) fun _ => ?_
  refine breeding.draws (mutateChild_onlyDraws p.logged child) fun c t breeding => ?_
  refine breeding.draws (.wasSeen c) fun seen t breeding => ?_
  refine .ite (fun _ => .pure breeding) fun _ => ?_
  refine evaluate_breeding regular c breeding fun given t unsettled covered => ?_
  cases valid : given.valid with
  | false =>
      have counted : given.counted = none := by simp [Score.counted, valid]
      rw [counted]
      exact .pure ⟨unsettled.settled_of_invalid valid, covered⟩
  | true =>
      have counted : given.counted = some given := by simp [Score.counted, valid]
      rw [counted]
      refine .bind (record_call unsettled counted.symm covered) fun _ t breeding => ?_
      exact .modify_bind (.pure
        ⟨breeding.toSettled.frame rfl rfl rfl, breeding.covered⟩)

theorem breed_breeding (regular : p.evaluator.Regular) (rounds : Nat) (b : Brood)
    (breeding : Breeding base s) :
    Move.Ends (breed p.logged rounds b) s (fun _ t => Breeding base t) (Breeding base) := by
  induction rounds generalizing b s with
  | zero => exact .pure breeding
  | succ rounds ih =>
      refine .ite (fun _ => ?_) fun _ => .pure breeding
      refine breeding.draws (selectParent_onlyDraws _) fun first t breeding => ?_
      refine breeding.draws (selectParent_onlyDraws _) fun second t breeding => ?_
      refine breeding.draws (.attempt (Operators.crossover_advances _ _ _))
        fun (one, other) t breeding => ?_
      refine .bind (offer_breeding regular b one breeding) fun b t breeding => ?_
      exact .bind (offer_breeding regular b other breeding) fun b t breeding => ih b breeding

theorem topUp_breeding (regular : p.evaluator.Regular) (places : Nat) (b : Brood)
    (breeding : Breeding base s) :
    Move.Ends (topUp p.logged places b) s (fun _ t => Breeding base t) (Breeding base) := by
  induction places generalizing b s with
  | zero => exact .pure breeding
  | succ places ih =>
      refine breeding.draws (.draw (Operators.random_advances _)) fun c t breeding => ?_
      refine breeding.draws (.wasSeen c) fun seen t breeding => ?_
      dsimp only
      refine .ite (fun _ => .get_bind ?_) fun _ => ?_
      · rw [pure_bind]
        exact .bind (record_again breeding (breeding.scoreOf_le c)) fun _ t after => ih _ after
      · refine evaluate_breeding regular c breeding fun given t unsettled covered => ?_
        exact .bind (record_call unsettled rfl covered) fun _ t after => ih _ after

theorem step_breeding (regular : p.evaluator.Regular) (breeding : Breeding base s) :
    Move.Ends (step p.logged) s (fun _ t => Breeding base t) (Breeding base) := by
  have start : Breeding base { s with iteration := s.iteration + 1 } :=
    ⟨breeding.toSettled.frame rfl rfl rfl, breeding.covered⟩
  refine .modify_bind (.get_bind ?_)
  refine .bind (breed_breeding regular _ _ start) fun b t breeding => ?_
  refine .bind (topUp_breeding regular _ b breeding) fun b t breeding => ?_
  refine .modify_bind (.get_bind (.pure
    ⟨breeding.toSettled.frame rfl rfl rfl, ?_⟩))
  exact breeding.covered_foldl b.members fun key score found => by simp at found

end Genetic

end PrimeSearch
