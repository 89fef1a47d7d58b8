/-
Module: PrimeSearch.Proofs.Search.Unrepeated
Purpose: Late acceptance and annealing score no candidate twice, and few in a step: what they
  propose with a score is new, and what they propose without one changes nothing.
Main exports: Recorded, Search.Spends, Search.Proposes, Plan.propose_ends, Strategy.nextProposal,
  Plan.reached_scores_once
-/
import PrimeSearch.Proofs.Search.HillClimbing
import PrimeSearch.Proofs.Search.Modes

namespace PrimeSearch

open Move

variable {σ ε : Type}

/-!
The seen candidates are the scored ones as long as the evaluator refuses none, and in the mode of
the search it does not.  Then a candidate that was not seen has no call, and a proposal that passes
over seen candidates makes calls of new ones only.
-/

/-! ### Keys and calls -/

/-- The keys that are marked as seen are those of the calls, and no two calls have the same. -/
structure Recorded (seen : Std.TreeSet String) (calls : Calls) : Prop where
  seen_iff : ∀ key, seen.contains key = true ↔ ∃ call ∈ calls, call.1.key = key
  nodup : (calls.map fun call => call.1.key).Nodup

theorem Recorded.empty : Recorded ∅ [] := ⟨by simp, .nil⟩

/-- One more call of an unseen candidate. -/
theorem Recorded.append {seen : Std.TreeSet String} {calls : Calls} (recorded : Recorded seen calls)
    {c : Candidate} (notSeen : seen.contains c.key = false) (given : Score) :
    Recorded (seen.insert c.key) (calls ++ [(c, given)]) where
  seen_iff key := by
    rw [Std.TreeSet.contains_insert, Bool.or_eq_true, beq_iff_eq,
      Std.LawfulEqCmp.compare_eq_iff_eq, recorded.seen_iff]
    simp [or_comm, or_and_right, exists_or]
  nodup := by
    rw [List.map_append, List.nodup_append]
    refine ⟨recorded.nodup, by simp, fun key old key' new same => ?_⟩
    obtain rfl : key' = c.key := by simpa using new
    obtain ⟨call, listed, rfl⟩ := List.mem_map.mp old
    have marked := (recorded.seen_iff _).mpr ⟨call, listed, same⟩
    exact absurd (marked.symm.trans notSeen) (by decide)

/-- At most so many calls were made from one state to another. -/
def Search.Spends (most : Nat) (s t : Search (σ × Calls) ε) : Prop :=
  ∃ more, t.calls = s.calls ++ more ∧ more.length ≤ most

namespace Search.Spends

variable {most most' : Nat} {s t u : Search (σ × Calls) ε}

theorem of_eq (same : t.calls = s.calls) (most : Nat) : s.Spends most t :=
  ⟨[], by rw [same, List.append_nil], Nat.zero_le most⟩

theorem trans (first : s.Spends most t) (second : t.Spends most' u) :
    s.Spends (most + most') u := by
  obtain ⟨more, grown, few⟩ := first
  obtain ⟨more', grown', few'⟩ := second
  refine ⟨more ++ more', by rw [grown', grown, List.append_assoc], ?_⟩
  rw [List.length_append]
  exact Nat.add_le_add few few'

theorem mono (spends : s.Spends most t) (atMost : most ≤ most') : s.Spends most' t := by
  obtain ⟨more, grown, few⟩ := spends
  exact ⟨more, grown, few.trans atMost⟩

end Search.Spends

/-! ### Proposals -/

/-- From one state to another at most so many candidates were scored, all of them unseen. -/
structure Search.ScoresNew (most : Nat) (s t : Search (σ × Calls) ε) : Prop where
  spends : s.Spends most t
  recorded : Recorded s.seen s.calls → Recorded t.seen t.calls

/-- What does not touch the seen candidates and the calls may follow. -/
theorem Search.ScoresNew.frame {most : Nat} {s t u : Search (σ × Calls) ε}
    (scores : s.ScoresNew most t) (seen : u.seen = t.seen) (calls : u.calls = t.calls) :
    s.ScoresNew most u := by
  obtain ⟨⟨more, grown, few⟩, recorded⟩ := scores
  exact ⟨⟨more, calls.trans grown, few⟩, fun before => seen ▸ calls ▸ recorded before⟩

theorem Search.ScoresNew.updateBest {most : Nat} {s t : Search (σ × Calls) ε}
    {E : Search (σ × Calls) ε → Prop} (scores : s.ScoresNew most t) (c : Candidate)
    (score : Option Score) :
    Ends (updateBest c score) t (fun _ u => s.ScoresNew most u) E :=
  updateBest_ends (fun _ => scores.frame rfl rfl) fun _ => scores

/-- The same, and nothing else changed but that candidates were seen. -/
structure Search.Seeks (most : Nat) (s t : Search (σ × Calls) ε) : Prop
    extends Search.ScoresNew most s t where
  same : t.toProgress = { s.toProgress with seen := t.seen }
  unseen : ∀ key, t.seen.contains key = false → s.seen.contains key = false

/-- A proposal, and the state after it: if it has a score, its candidate was not seen, and its call
was the last one. -/
structure Search.Proposes (most : Nat) (s : Search (σ × Calls) ε)
    (proposal : Candidate × Option Score) (t : Search (σ × Calls) ε) : Prop
    extends Search.Seeks most s t where
  scored : ∀ given, proposal.2 = some given → s.seen.contains proposal.1.key = false ∧
    ∃ more, t.calls = s.calls ++ more ++ [(proposal.1, given)]

namespace Search

variable {most most' : Nat} {s t u : Search (σ × Calls) ε}

theorem Seeks.of_quiet (quiet : Quiet s t) : s.Seeks 0 t := by
  obtain ⟨source, -, rfl⟩ := quiet
  exact ⟨⟨.of_eq rfl 0, fun recorded => recorded⟩, rfl, fun key unseen => unseen⟩

theorem Seeks.trans (first : s.Seeks most t) (second : t.Seeks most' u) :
    s.Seeks (most + most') u where
  spends := first.spends.trans second.spends
  recorded before := second.recorded (first.recorded before)
  same := by rw [second.same, first.same]
  unseen key unseen := first.unseen key (second.unseen key unseen)

theorem Seeks.mono (seeks : s.Seeks most t) (atMost : most ≤ most') : s.Seeks most' t :=
  ⟨⟨seeks.spends.mono atMost, seeks.recorded⟩, seeks.same, seeks.unseen⟩

/-- A proposal that follows a search for it is a proposal of the whole. -/
theorem Seeks.proposes {proposal : Candidate × Option Score} (first : s.Seeks most t)
    (proposes : t.Proposes most' proposal u) : s.Proposes (most + most') proposal u where
  toSeeks := first.trans proposes.toSeeks
  scored given kept := by
    obtain ⟨notSeen, more, grown⟩ := proposes.scored given kept
    obtain ⟨before, earlier, -⟩ := first.spends
    refine ⟨first.unseen _ notSeen, before ++ more, ?_⟩
    rw [grown, earlier, List.append_assoc s.calls]

/-- What is proposed without a score. -/
theorem Seeks.unscored (seeks : s.Seeks most t) (c : Candidate) :
    s.Proposes most (c, none) t :=
  ⟨seeks, fun given none => by cases none⟩

theorem Proposes.mono {proposal : Candidate × Option Score} (proposes : s.Proposes most proposal t)
    (atMost : most ≤ most') : s.Proposes most' proposal t :=
  ⟨proposes.toSeeks.mono atMost, proposes.scored⟩

end Search

/-- A score that is kept is the one that was given. -/
theorem Score.counted_eq_some {score kept : Score} (counted : score.counted = some kept) :
    score = kept := by
  unfold Score.counted at counted
  split at counted
  · exact Option.some.inj counted
  · cases counted

/-- Scoring an unseen candidate proposes it. -/
theorem Plan.evaluate_proposes (p : Plan σ) {c : Candidate} {s : Search (σ × Calls) ε}
    (notSeen : s.seen.contains c.key = false) :
    Ends (p.logged.evaluate c) s (fun score t => s.Proposes 1 (c, score) t) (fun _ => True) := by
  refine (p.logged.evaluate_ends c s).mono ?_ fun _ _ => trivial
  rintro _ _ ⟨rfl, rfl⟩
  refine ⟨⟨⟨⟨_, rfl, Nat.le_refl 1⟩, fun before => before.append notSeen _⟩, rfl,
    fun key unseen => ?_⟩, fun given kept => ?_⟩
  · rw [Std.TreeSet.contains_insert, Bool.or_eq_false_iff] at unseen
    exact unseen.2
  · obtain rfl := Score.counted_eq_some kept
    exact ⟨notSeen, [], by rw [List.append_nil]; rfl⟩

/-- How many candidates a proposal scores at most: as many as it has tries if it needs a score, and
one otherwise. -/
def callsPerProposal (requireScore : Bool) (tries : Nat) : Nat := if requireScore then tries else 1

/-- A proposal scores unseen candidates until one of them will do. -/
theorem Plan.propose_ends (p : Plan σ) (parent : Candidate) (requireScore both : Bool)
    (s : Search (σ × Calls) ε) :
    Ends (p.logged.propose parent requireScore both) s
      (s.Proposes (callsPerProposal requireScore p.config.maxAttempts.value)) (fun _ => True) := by
  have within (tries : Nat) (last : Candidate) (s : Search (σ × Calls) ε) :
      Ends (p.logged.proposeWithin parent requireScore both tries last) s
        (s.Proposes (callsPerProposal requireScore tries)) (fun _ => True) := by
    induction tries generalizing last s with
    | zero => exact .pure (((Search.Seeks.of_quiet (.refl s)).mono (Nat.zero_le _)).unscored last)
    | succ tries ih =>
        have quiet : Ends (p.logged.mutation parent both) s (fun _ t => s.Seeks 0 t)
            (fun _ => True) :=
          (OnlyDraws.attempt (Operators.mutate_advances _ _ _ _) s).mono
            (fun _ _ quiet => .of_quiet quiet) fun _ _ => trivial
        refine quiet.bind fun c t drawn => .get_bind (.ite (fun _ => ?_) fun taken => ?_)
        · refine (ih c t).mono (fun proposal u proposes => ?_) fun _ _ => trivial
          refine (drawn.proposes proposes).mono ?_
          unfold callsPerProposal
          split <;> omega
        · refine (p.evaluate_proposes (Bool.eq_false_of_not_eq_true taken)).bind ?_
          intro score u scored
          have scored := drawn.proposes scored
          refine .ite (fun _ => .pure (scored.mono ?_)) fun missing => ?_
          · unfold callsPerProposal
            split <;> omega
          · -- The candidate has no score, and needs one.
            have required : requireScore = true := by
              simpa using (not_or.mp (mt (Bool.or_eq_true _ _).mpr missing)).2
            refine (ih c u).mono (fun proposal v proposes => ?_) fun _ _ => trivial
            refine (scored.toSeeks.proposes proposes).mono ?_
            rw [callsPerProposal, callsPerProposal, if_pos required, if_pos required]
            omega
  exact within _ parent s

/-! ### Steps -/

section
variable {p : Plan σ}

/-- With an evaluator of its mode a search does not fail to propose. -/
theorem Plan.propose_proposes (fits : p.Fits) {s : Search (σ × Calls) ε}
    (inMode : s.InMode (fun _ => []) p.config.mode) (requireScore both : Bool)
    {E : Search (σ × Calls) ε → Prop} :
    Ends (p.logged.propose s.current requireScore both) s
      (s.Proposes (callsPerProposal requireScore p.config.maxAttempts.value)) E := by
  have fits' : p.logged.Fits := fits
  have start : s.Holds (fun _ => []) (fun c => c.mode = p.config.mode) fun _ => True :=
    ⟨inMode.current, inMode.best, inMode.kept, trivial⟩
  have succeeds := (propose_stays p.logged.closed_inMode inMode.current requireScore both).ends start
    (fun _ => fits'.not_mismatches) (p.propose_ends _ _ _ _)
  exact succeeds.mono (fun _ _ proposes => proposes) fun _ never => never.elim

/-- A step is counted and goes on from its proposal, which has scored new candidates only. -/
theorem Plan.step_proposes (fits : p.Fits) {s : Search (σ × Calls) ε}
    (inMode : s.InMode (fun _ => []) p.config.mode) {requireScore both : Bool}
    {rest : Candidate × Option Score → Move (σ × Calls) ε StepResult}
    {Q : StepResult → Search (σ × Calls) ε → Prop} {E : Search (σ × Calls) ε → Prop}
    (goes : ∀ proposal t,
      s.ScoresNew (callsPerProposal requireScore p.config.maxAttempts.value) t →
        Ends (rest proposal) t Q E) :
    Ends (do
      nextIteration
      let proposal ← p.logged.propose (← get).current requireScore both
      rest proposal) s Q E := by
  have counted : Progress.InMode (fun _ => []) p.config.mode
    { s.toProgress with iteration := s.iteration + 1 } := ⟨inMode.current, inMode.best, inMode.kept⟩
  refine .modify_bind (.get_bind ((Plan.propose_proposes fits counted _ _).bind ?_))
  exact fun proposal t proposes => goes proposal t ⟨proposes.spends, proposes.recorded⟩

/-- A step ends with a change of the data of the algorithm, and with its result. -/
theorem Move.own_stepResult_ends {Q : StepResult → Search σ ε → Prop} {E : Search σ ε → Prop}
    {change : Search σ ε → ε} {accepted : Bool} {s : Search σ ε}
    (result : ∀ r, r.accepted = accepted → Q r { s with own := change s }) :
    Ends (do
      modify fun s => { s with own := change s }
      stepResult accepted) s Q E :=
  .modify_bind (.get_bind (.pure (result _ rfl)))

/-- A step of late acceptance scores one candidate at most. -/
theorem LateAcceptance.step_scoresNew (fits : p.Fits) {s : Search (σ × Calls) History}
    (inMode : s.InMode (fun _ => []) p.config.mode) :
    Ends (step p.logged) s (fun _ t => s.ScoresNew 1 t) (s.ScoresNew 1) := by
  refine Plan.step_proposes fits inMode fun (c, score) u scores => ?_
  refine .get_bind (.ite (fun _ => ?_) fun _ => own_stepResult_ends fun _ _ => scores.frame rfl rfl)
  have moved : s.ScoresNew 1 { u with current := c, currentScore := score } := scores.frame rfl rfl
  refine .modify_bind ((moved.updateBest c score).bind fun _ t scores => ?_)
  exact own_stepResult_ends fun _ _ => scores.frame rfl rfl

/-- A step of annealing scores at most as many candidates as a proposal has tries. -/
theorem Annealing.step_scoresNew (fits : p.Fits) {s : Search (σ × Calls) Temperature}
    (inMode : s.InMode (fun _ => []) p.config.mode) :
    Ends (step p.logged) s (fun _ t => s.ScoresNew p.config.maxAttempts.value t)
      (s.ScoresNew p.config.maxAttempts.value) := by
  refine Plan.step_proposes fits inMode fun (c, score) u scores => ?_
  cases score with
  | none => exact cool_stepResult_ends (fun _ _ _ => scores.frame rfl rfl) fun _ => scores
  | some score =>
      have considered : Ends (consider p.logged c score) u
          (fun _ t => s.ScoresNew p.config.maxAttempts.value t)
          (s.ScoresNew p.config.maxAttempts.value) := by
        refine .get_bind (.bind (R := fun _ t => s.ScoresNew p.config.maxAttempts.value t)
          (.draw (scores.frame rfl rfl)) fun accepted t scores => ?_)
        refine .bind (R := fun _ t => s.ScoresNew p.config.maxAttempts.value t)
          (useTemperature_ends scores fun _ _ => scores) fun _ t scores => ?_
        refine .ite (fun _ => ?_) fun _ => .pure scores
        have moved : s.ScoresNew p.config.maxAttempts.value
            { t with current := c, currentScore := some score } := scores.frame rfl rfl
        exact .modify_bind ((moved.updateBest c (some score)).bind fun _ _ scores => .pure scores)
      exact considered.bind fun accepted t scores =>
        cool_stepResult_ends (fun _ _ _ => scores.frame rfl rfl) fun _ => scores

/-- Two states of a search stand at the same candidates and scores. -/
structure Progress.SameStanding (s t : Progress ε) : Prop where
  current : t.current = s.current
  currentScore : t.currentScore = s.currentScore
  best : t.best = s.best
  bestScore : t.bestScore = s.bestScore

theorem Progress.SameStanding.of_seen {s t : Progress ε} {seen : Std.TreeSet String}
    (same : t = { s with seen }) : s.SameStanding t := by
  subst same
  exact ⟨rfl, rfl, rfl, rfl⟩

/-- What a proposal leaves behind depends on the number of the iteration only in that number. -/
structure Counted (start : Progress ε) (s t : Search σ ε) : Prop where
  same : ∃ seen, s.toProgress = { start with seen }
  next : t = { s with iteration := s.iteration + 1 }

theorem counted_abreast (start : Progress ε) : Abreast (Counted (σ := σ) start) where
  seen counted := by rw [counted.next]
  surroundings counted := by rw [counted.next]
  change seen w counted := by
    obtain ⟨⟨seen', same⟩, rfl⟩ := counted
    refine ⟨⟨seen, ?_⟩, rfl⟩
    rw [same]

/-- The proposal of the next iteration, from one that is made before the iteration is counted. -/
theorem Plan.propose_counted {parent : Candidate} {requireScore both : Bool}
    {proposal : Candidate × Option Score} {s t : Search σ ε}
    (proposed : (p.propose parent requireScore both).run.run s = (.ok proposal, t)) :
    (∃ seen, t.toProgress = { s.toProgress with seen }) ∧
      (p.propose parent requireScore both).run.run { s with iteration := s.iteration + 1 } =
        (.ok proposal, { t with iteration := t.iteration + 1 }) := by
  obtain ⟨same, seen, next⟩ := Move.propose_simulates (counted_abreast s.toProgress)
    (s := s) (t := { s with iteration := s.iteration + 1 }) ⟨⟨s.seen, rfl⟩, rfl⟩ p parent
    requireScore both
  rw [proposed] at same seen next
  exact ⟨seen, Prod.ext same.symm next⟩

/-- A step accepts nothing and leaves all as it stands, also where it fails, which it does only where
the temperature is too hot. -/
def Move.Rejects (p : Plan σ) (m : Move σ ε StepResult) (s : Search σ ε) : Prop :=
  m.Ends s (fun r t => r.accepted = false ∧ s.SameStanding t.toProgress)
    fun t => p.config.isTooHot = true ∧ s.SameStanding t.toProgress

/-- A step that goes on from its proposal without accepting it leaves all as it stands. -/
theorem Plan.step_rejects {requireScore both : Bool} {proposal : Candidate × Option Score}
    {rest : Candidate × Option Score → Move σ ε StepResult} {s t : Search σ ε}
    (proposed : (p.propose s.current requireScore both).run.run s = (.ok proposal, t))
    (rejects : ∀ u, Ends (rest proposal) u
      (fun r v => r.accepted = false ∧ ∃ own, v = { u with own })
      fun v => p.config.isTooHot = true ∧ v = u) :
    Rejects p (do
      nextIteration
      let proposal ← p.propose (← get).current requireScore both
      rest proposal) s := by
  obtain ⟨⟨seen, same⟩, counted⟩ := Plan.propose_counted proposed
  obtain ⟨current, currentScore, best, bestScore⟩ := Progress.SameStanding.of_seen same
  refine .modify_bind (.get_bind (.bind (R := fun made u => made = proposal ∧
    u = { t with iteration := t.iteration + 1 }) (.of_run counted ⟨rfl, rfl⟩) ?_))
  rintro _ _ ⟨rfl, rfl⟩
  refine (rejects _).mono ?_ ?_
  · rintro r _ ⟨rejected, own, rfl⟩
    exact ⟨rejected, current, currentScore, best, bestScore⟩
  · rintro _ ⟨hot, rfl⟩
    exact ⟨hot, current, currentScore, best, bestScore⟩

/-- A step of late acceptance whose proposal has no score accepts nothing. -/
theorem LateAcceptance.step_unscored {s t : Search σ History} {c : Candidate}
    (proposed : (p.propose s.current false true).run.run s = (.ok (c, none), t)) :
    Rejects p (step p) s :=
  Plan.step_rejects proposed fun _ => .get_bind
    (.ite (fun accepted => by cases accepted) fun _ => own_stepResult_ends fun _ rejected =>
      ⟨rejected, _, rfl⟩)

/-- A step of annealing whose proposal has no score accepts nothing. -/
theorem Annealing.step_unscored {s t : Search σ Temperature} {c : Candidate}
    (proposed : (p.propose s.current true false).run.run s = (.ok (c, none), t)) :
    Rejects p (step p) s :=
  Plan.step_rejects proposed fun _ =>
    cool_stepResult_ends (fun _ _ rejected => ⟨rejected, _, rfl⟩) fun hot => ⟨hot, rfl⟩

end

/-! ### The beginning -/

/-- A candidate that can be scored is of the mode of the evaluator. -/
theorem Plan.evaluate_inMode (p : Plan σ) (c : Candidate) (s : Search σ ε) :
    Ends (p.evaluate c) s (fun _ _ => c.mode = p.evaluator.mode) (fun _ => True) := by
  by_cases fits : c.mode = p.evaluator.mode
  · exact (Ends.trivial _ _).mono (fun _ _ _ => fits) fun _ _ => trivial
  · refine .modify_bind (.bind (R := fun _ _ => False) ?_ fun _ _ never => never.elim)
    unfold Ends
    have refused := Evaluator.run_evaluate_mismatch fits s.toSurroundings
    dsimp only [ExceptT.run_mk, StateT.run] at refused ⊢
    rw [refused]
    trivial

/-- A search that has begun has an evaluator of its mode. -/
theorem Plan.fits_of_begin {p : Plan σ} {own : ε} {w : Surroundings σ} {s : Search σ ε}
    (begun : p.begin own w = (.ok (), s)) : p.Fits := by
  have inMode : (p.unscored own w).current.mode = p.config.mode :=
    Operators.random_yields p.config.operators w.source
  have ends : Ends p.scoreFirst (p.unscored own w) (fun _ _ => p.Fits) (fun _ => True) := by
    refine .get_bind ((p.evaluate_inMode _ _).bind fun score t fits => .modify ?_)
    exact fits.symm.trans inMode
  rw [Plan.begin_eq] at begun
  exact ends.result (congrArg Prod.fst begun)

/-- The first candidate has the first call. -/
theorem Plan.begin_recorded {p : Plan σ} {own : ε} {w : Surroundings σ}
    {s : Search (σ × Calls) ε} (begun : p.logged.begin own (w.withCalls []) = (.ok (), s)) :
    Recorded s.seen s.calls := by
  have ends : Ends p.logged.scoreFirst (p.logged.unscored own (w.withCalls []))
      (fun _ t => Recorded t.seen t.calls) (fun _ => True) := by
    refine .get_bind ((p.evaluate_proposes Std.TreeSet.contains_emptyc).bind ?_)
    intro score t proposes
    exact .modify (proposes.recorded .empty)
  rw [Plan.begin_eq] at begun
  have after := ends.result (congrArg Prod.fst begun)
  rwa [begun] at after

/-! ### Runs -/

namespace Strategy

/-- The algorithm of a search. -/
def algorithm : Strategy → Algorithm
  | .lateAcceptance _ => .lateAcceptance
  | .genetic _ => .genetic
  | .annealing _ => .annealing

/-- A step is taken by the same algorithm. -/
theorem step_algorithm (p : Plan σ) (s : Strategy) (w : Surroundings σ) :
    (step p s w).2.1.algorithm = s.algorithm := by
  unfold step
  split
  · cases s with
    | lateAcceptance q | genetic q | annealing q => rfl
  · cases s with
    | lateAcceptance q | genetic q | annealing q => rfl

theorem after_algorithm (p : Plan σ) (start : Strategy × Surroundings σ) (steps : Nat) :
    (after p start steps).1.algorithm = start.1.algorithm := by
  induction steps with
  | zero => rfl
  | succ steps ih => exact (step_algorithm p _ _).trans ih

/-- A search is begun by the algorithm of its settings. -/
theorem begin_algorithm {p : Plan σ} {w v : Surroundings σ} {s : Strategy}
    (begun : begin p w = (.ok s, v)) : s.algorithm = p.config.algorithm := by
  rcases begin_eq_ok begun with ⟨late, _, -, rfl, -⟩ | ⟨genetic, _, -, rfl, -⟩ |
    ⟨annealing, _, -, rfl, -⟩
  · exact late.symm
  · exact genetic.symm
  · exact annealing.symm

/-- The keys of the candidates that a search has seen. -/
def seen : Strategy → Std.TreeSet String
  | .lateAcceptance q => q.seen
  | .genetic q => q.seen
  | .annealing q => q.seen

/-- The current candidate of a search. -/
def current : Strategy → Candidate
  | .lateAcceptance q => q.current
  | .genetic q => q.current
  | .annealing q => q.current

/-- Score of the current candidate. -/
def currentScore : Strategy → Option Score
  | .lateAcceptance q => q.currentScore
  | .genetic q => q.currentScore
  | .annealing q => q.currentScore

/-- Two searches stand at the same candidates and scores. -/
structure SameStanding (s t : Strategy) : Prop where
  current : t.current = s.current
  currentScore : t.currentScore = s.currentScore
  best : t.best = s.best
  bestScore : t.bestScore = s.bestScore

/-- What the next step of late acceptance or annealing proposes. -/
def nextProposal (p : Plan σ) (s : Strategy) (w : Surroundings σ) :
    Except SearchError (Candidate × Option Score) × Strategy × Surroundings σ :=
  match s with
  | .annealing q => propose p q.current true false s w
  | _ => propose p s.current false true s w

/-- How many candidates a step scores at most. -/
def callsPerStep (config : SearchConfig) : Nat :=
  callsPerProposal (decide (config.algorithm = .annealing)) config.maxAttempts.value

/-- A search by the algorithm of its settings and in their mode, whose calls are of the keys that it
has seen, and of each key once. -/
structure Faithful (p : Plan σ) (x : Strategy × Surroundings (σ × Calls)) : Prop where
  algorithm : x.1.algorithm = p.config.algorithm
  inMode : x.1.InMode p.config.mode
  recorded : Recorded x.1.seen x.2.memory.2

section
variable {p : Plan σ} {parent c : Candidate} {requireScore both : Bool} {score : Option Score}
  {s t : Strategy} {v u : Surroundings σ}

/-- A proposal with written calls is the one without them. -/
theorem propose_logged (proposed : propose p parent requireScore both s v = (.ok (c, score), t, u))
    (calls : Calls) :
    ∃ after, propose p.logged parent requireScore both s (v.withCalls calls) =
      (.ok (c, score), t, u.withCalls after) := by
  have related : (v.withCalls calls).Matches Remembers v := ⟨rfl, rfl⟩
  obtain ⟨outcome, state, surroundings⟩ : (propose p.logged parent requireScore both s
        (v.withCalls calls)).1 = (propose p parent requireScore both s v).1 ∧
      (propose p.logged parent requireScore both s (v.withCalls calls)).2.1 =
        (propose p parent requireScore both s v).2.1 ∧
      (propose p.logged parent requireScore both s (v.withCalls calls)).2.2.Matches Remembers
        (propose p parent requireScore both s v).2.2 :=
    propose_agrees p.evaluator.logged_agrees parent requireScore both s related
  rw [proposed] at outcome state surroundings
  exact ⟨_, Prod.ext outcome (Prod.ext state surroundings.eq_withCalls)⟩

/-- A proposal leaves all candidates and scores where they are.  If it has a score, its candidate was
not seen, and its call was the last one. -/
theorem propose_proposes {v u : Surroundings (σ × Calls)}
    (proposed : propose p.logged parent requireScore both s v = (.ok (c, score), t, u)) :
    s.SameStanding t ∧ ∀ given, score = some given → s.seen.contains c.key = false ∧
      ∃ more, u.memory.2 = v.memory.2 ++ more ++ [(c, given)] := by
  obtain ⟨-, ran⟩ := propose_eq_runAny proposed
  cases s with
  | lateAcceptance q | genetic q | annealing q =>
      obtain ⟨outcome, after⟩ := Prod.mk.inj ran
      obtain ⟨rfl, rfl⟩ := Prod.mk.inj after
      have proposes := (p.propose_ends parent requireScore both ⟨q, v⟩).result outcome
      obtain ⟨current, currentScore, best, bestScore⟩ := Progress.SameStanding.of_seen proposes.same
      exact ⟨⟨current, currentScore, best, bestScore⟩, proposes.scored⟩

/-- A step that rejects its proposal, put back into the face of the search. -/
theorem run_rejects {wrap : Progress ε → Strategy} {move : Move σ ε StepResult} {q : Progress ε}
    (stands : ∀ {q'}, q.SameStanding q' → (wrap q).SameStanding (wrap q'))
    (rejects : move.Rejects p ⟨q, v⟩) :
    (wrap q).SameStanding (run wrap move q v).2.1 ∧
      (∀ r, (run wrap move q v).1 = .ok r → r.accepted = false) ∧
      (p.config.isTooHot = false → ∃ r, (run wrap move q v).1 = .ok r) := by
  refine ⟨stands (rejects.mono (fun _ _ => And.right) fun _ => And.right).state, ?_, fun cold => ?_⟩
  · intro r succeeds
    exact (rejects.result succeeds).1
  · obtain ⟨r, _, run, -⟩ := (rejects.mono (fun _ _ result => result) fun _ failed => by
      rw [cold] at failed
      cases failed.1).succeeds
    exact ⟨r, congrArg Prod.fst run⟩

/-- Where the next proposal has no score, the next step accepts nothing. -/
theorem step_unscored (single : p.config.algorithm ≠ .genetic)
    (algorithm : s.algorithm = p.config.algorithm)
    (proposed : s.nextProposal p v = (.ok (c, none), t, u)) :
    s.SameStanding (step p s v).2.1 ∧ (∀ r, (step p s v).1 = .ok r → r.accepted = false) ∧
      (p.config.isTooHot = false → ∃ r, (step p s v).1 = .ok r) := by
  have fault : stepFault p.config = countFault p.config.maxAttempts := by
    unfold stepFault
    cases which : p.config.algorithm with
    | lateAcceptance | annealing => rfl
    | genetic => exact absurd which single
  unfold step
  rw [fault]
  cases s with
  | genetic q => exact absurd algorithm.symm single
  | lateAcceptance q =>
      obtain ⟨whole, ran⟩ := propose_eq_runAny proposed
      have run : (p.propose q.current false true).run.run (⟨q, v⟩ : Search _ _) =
          (.ok (c, none), _) := Prod.ext (Prod.mk.inj ran).1 rfl
      rw [whole]
      exact run_rejects (fun ⟨current, currentScore, best, bestScore⟩ =>
        ⟨current, currentScore, best, bestScore⟩) (LateAcceptance.step_unscored (s := ⟨q, v⟩) run)
  | annealing q =>
      obtain ⟨whole, ran⟩ := propose_eq_runAny proposed
      have run : (p.propose q.current true false).run.run (⟨q, v⟩ : Search _ _) =
          (.ok (c, none), _) := Prod.ext (Prod.mk.inj ran).1 rfl
      rw [whole]
      exact run_rejects (fun ⟨current, currentScore, best, bestScore⟩ =>
        ⟨current, currentScore, best, bestScore⟩) (Annealing.step_unscored (s := ⟨q, v⟩) run)

end

section
variable {p : Plan σ} {x : Strategy × Surroundings (σ × Calls)}

/-- A step keeps a search faithful, and it makes few calls. -/
theorem step_faithful (fits : p.Fits) (single : p.config.algorithm ≠ .genetic)
    (faithful : Faithful p x) :
    Faithful p (step p.logged x.1 x.2).2 ∧
      ∃ more, (step p.logged x.1 x.2).2.2.memory.2 = x.2.memory.2 ++ more ∧
        more.length ≤ callsPerStep p.config := by
  obtain ⟨s, w⟩ := x
  obtain ⟨algorithm, inMode, recorded⟩ := faithful
  have algorithm' := (step_algorithm p.logged s w).trans algorithm
  have inMode' := inMode_iff.mpr
    (step_holds p.logged.closed_inMode (inMode_iff.mp inMode) (w := w) trivial).1
  unfold callsPerStep
  rw [← algorithm]
  unfold step at algorithm' inMode' ⊢
  cases fault : stepFault p.logged.config with
  | some e =>
      -- Settings that no step can be taken with: nothing is scored.
      rw [fault] at algorithm' inMode'
      refine ⟨⟨algorithm', inMode', ?_⟩, [], (List.append_nil _).symm, Nat.zero_le _⟩
      cases s with
      | lateAcceptance q | genetic q | annealing q => exact recorded
  | none =>
      rw [fault] at algorithm' inMode'
      cases s with
      | genetic q => exact absurd algorithm.symm single
      | lateAcceptance q =>
          have scores := (LateAcceptance.step_scoresNew fits (s := ⟨q, w⟩) inMode).state
          exact ⟨⟨algorithm', inMode', scores.recorded recorded⟩, scores.spends⟩
      | annealing q =>
          have scores := (Annealing.step_scoresNew fits (s := ⟨q, w⟩) inMode).state
          exact ⟨⟨algorithm', inMode', scores.recorded recorded⟩, scores.spends⟩

theorem after_faithful (fits : p.Fits) (single : p.config.algorithm ≠ .genetic)
    (faithful : Faithful p x) (steps : Nat) : Faithful p (after p.logged x steps) := by
  induction steps with
  | zero => exact faithful
  | succ steps ih => exact (step_faithful fits single ih).1

/-- A search that has begun has made one call, of the one candidate that it has seen. -/
theorem begin_faithful (single : p.config.algorithm ≠ .genetic) {w : Surroundings σ} {s : Strategy}
    {v : Surroundings (σ × Calls)} (begun : begin p.logged (w.withCalls []) = (.ok s, v)) :
    p.Fits ∧ Faithful p (s, v) := by
  have algorithm := begin_algorithm begun
  have inMode := begin_inMode begun
  rcases begin_eq_ok begun with ⟨-, t, started, rfl, rfl⟩ | ⟨genetic, -⟩ | ⟨-, t, started, rfl, rfl⟩
  · have fits : p.logged.Fits := Plan.fits_of_begin started
    exact ⟨fits, algorithm, inMode, Plan.begin_recorded started⟩
  · exact absurd genetic single
  · have fits : p.logged.Fits := Plan.fits_of_begin started
    exact ⟨fits, algorithm, inMode, Plan.begin_recorded started⟩

end

end Strategy

/-- Late acceptance and annealing score no candidate twice, whatever the settings, the random numbers
and the evaluator.  From the beginning through any number of steps no two calls of the evaluator are
of the same key, and the keys of the calls are those of the seen candidates.  The next step makes one
call at most by late acceptance, and as many as a proposal has tries by annealing.  A proposal with
a score is of a candidate that was not seen, and the score is what the evaluator gave for it in the
last call.  No proposal changes the current or the best candidate or a score of them, and neither does
the next step where its proposal has no score: it accepts nothing, and fails only where the temperature
is too hot to compute with.  The calls are those of the same search with an
evaluator that writes them down. -/
theorem Plan.reached_scores_once (p : Plan σ) (single : p.config.algorithm ≠ .genetic)
    {w : Surroundings σ} {steps : Nat} {s : Strategy} {v : Surroundings σ}
    (reached : p.reached w steps = .ok (s, v)) :
    p.logged.reached (w.withCalls []) steps = .ok (s, v.withCalls (p.calls w steps)) ∧
      ((p.calls w steps).map fun call => call.1.key).Nodup ∧
      (∀ key, s.seen.contains key = true ↔ ∃ call ∈ p.calls w steps, call.1.key = key) ∧
      (∃ more, p.calls w (steps + 1) = p.calls w steps ++ more ∧
        (p.config.algorithm = .lateAcceptance → more.length ≤ 1) ∧
        (p.config.algorithm = .annealing → more.length ≤ p.config.maxAttempts.value)) ∧
      (∀ parent requireScore both c score t u,
        Strategy.propose p parent requireScore both s v = (.ok (c, score), t, u) →
          s.SameStanding t ∧ ∀ given, score = some given → s.seen.contains c.key = false ∧
            ∃ more, Strategy.propose p.logged parent requireScore both s
                (v.withCalls (p.calls w steps)) =
              (.ok (c, score), t, u.withCalls (p.calls w steps ++ more ++ [(c, given)]))) ∧
      ∀ c t u, s.nextProposal p v = (.ok (c, none), t, u) →
        s.SameStanding (Strategy.step p s v).2.1 ∧
          (∀ r, (Strategy.step p s v).1 = .ok r → r.accepted = false) ∧
          (p.config.isTooHot = false → ∃ r, (Strategy.step p s v).1 = .ok r) := by
  have logged := Plan.reached_logged reached
  obtain ⟨s₀, v₀, begun, final⟩ := Plan.reached_eq_ok logged
  obtain ⟨fits, first⟩ := Strategy.begin_faithful single begun
  have faithful := Strategy.after_faithful fits single first steps
  rw [← final] at faithful
  obtain ⟨-, more, grown, few⟩ := Strategy.step_faithful fits single faithful
  rw [Plan.step_logged reached] at grown
  refine ⟨logged, faithful.recorded.nodup, faithful.recorded.seen_iff, ⟨more, grown, ?_, ?_⟩, ?_,
    fun c t u => Strategy.step_unscored single faithful.algorithm⟩
  · intro late
    rwa [Strategy.callsPerStep, late] at few
  · intro annealing
    rwa [Strategy.callsPerStep, annealing] at few
  · intro parent requireScore both c score t u proposed
    obtain ⟨calls, same⟩ := Strategy.propose_logged proposed (p.calls w steps)
    obtain ⟨standing, scored⟩ := Strategy.propose_proposes same
    refine ⟨standing, fun given kept => ?_⟩
    obtain ⟨notSeen, more, grown⟩ := scored given kept
    refine ⟨notSeen, more, ?_⟩
    rw [same]
    exact congrArg (fun calls => (_, t, u.withCalls calls)) grown

/-- Annealing by leaves, from a leaf that its first proposal draws again, so that it has no score.
The proposal after two steps is new. -/
theorem Plan.reached_scores_once_leaves :
    let p : Plan Unit := ⟨{ algorithm := .annealing, maxDepth := .ofNat 0, maxAttempts := .ofNat 2 },
      .byShape⟩
    let w : Surroundings Unit := ⟨⟨[0.0, 0.9, 0.0, 0.0, 0.0, 0.0], 7, 0⟩, ()⟩
    (∃ s v c t u r, p.reached w 0 = .ok (s, v) ∧ s.nextProposal p v = (.ok (c, none), t, u) ∧
      (Strategy.step p s v).1 = .ok r ∧ r.accepted = false) ∧
    ∃ s v c given t u, p.reached w 2 = .ok (s, v) ∧
      ((p.calls w 2).map fun call => call.1.key).Nodup ∧
      Strategy.propose p s.current true false s v = (.ok (c, some given), t, u) ∧
      s.seen.contains c.key = false := by
  intro p w
  have unscored : ((p.reached w 0).toOption.bind fun x =>
      (x.1.nextProposal p x.2).1.toOption.map fun proposal => proposal.2.isNone) = some true := by
    decide +kernel
  have scored : ((p.reached w 2).toOption.bind fun x =>
      (Strategy.propose p x.1.current true false x.1 x.2).1.toOption.bind Prod.snd).isSome =
        true := by
    decide +kernel
  have single : p.config.algorithm ≠ .genetic := by decide
  constructor
  · cases reached : p.reached w 0 with
    | error e =>
        rw [reached] at unscored
        cases unscored
    | ok x =>
        obtain ⟨s, v⟩ := x
        rw [reached] at unscored
        obtain ⟨-, -, -, -, -, rejects⟩ := p.reached_scores_once single reached
        rcases proposed : s.nextProposal p v with ⟨e | ⟨c, given | given⟩, t, u⟩
        · simp [proposed, Except.toOption] at unscored
        · obtain ⟨-, rejected, succeeds⟩ := rejects c t u proposed
          obtain ⟨r, ok⟩ := succeeds (by decide)
          exact ⟨s, v, c, t, u, r, rfl, proposed, ok, rejected r ok⟩
        · simp [proposed, Except.toOption] at unscored
  · cases reached : p.reached w 2 with
    | error e =>
        rw [reached] at scored
        cases scored
    | ok x =>
        obtain ⟨s, v⟩ := x
        rw [reached] at scored
        obtain ⟨-, distinct, -, -, proposes, -⟩ := p.reached_scores_once single reached
        rcases proposed : Strategy.propose p s.current true false s v with
          ⟨e | ⟨c, given | given⟩, t, u⟩
        · simp [proposed, Except.toOption] at scored
        · simp [proposed, Except.toOption] at scored
        · obtain ⟨-, unseen⟩ := proposes _ _ _ _ _ _ _ proposed
          exact ⟨s, v, c, given, t, u, rfl, distinct, proposed, (unseen given rfl).1⟩

end PrimeSearch
