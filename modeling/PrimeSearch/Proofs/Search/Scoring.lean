/-
Module: PrimeSearch.Proofs.Search.Scoring
Purpose: Which candidates a genetic search scores more than once: only those that it falls back on
  when it gives up looking for new ones to fill its first population.
Main exports: NewFrom, Scored, Genetic.fillCounting, Plan.firstDraws, Plan.reached_scores_new
-/
import PrimeSearch.Proofs.Search.Invariants
import PrimeSearch.Proofs.Search.Reported

namespace PrimeSearch

open Move

variable {σ ε α : Type}

/-!
A candidate that is scored is marked as seen, and the steps of a search score unseen candidates
only.  The first population is different: when the tries for it run out, random candidates are
scored whether they were seen or not.  To say when that happens, the filling of the population is
given a count of the candidates that it draws.
-/

/-- From some place on, every call is of a candidate with a key that no call before had. -/
def NewFrom (free : Nat) (calls : Calls) : Prop :=
  ∀ (i j : Nat) c d, i < j → free ≤ j → calls[i]? = some c → calls[j]? = some d →
    c.1.key ≠ d.1.key

theorem NewFrom.append {free : Nat} {calls : Calls} (new : NewFrom free calls)
    {call : Candidate × Score}
    (other : free ≤ calls.length → ∀ c ∈ calls, c.1.key ≠ call.1.key) :
    NewFrom free (calls ++ [call]) := by
  intro i j c d before late early found
  rw [List.getElem?_append] at early found
  split at found
  next inside =>
    rw [if_pos (by omega)] at early
    exact new i j c d before late early found
  next outside =>
    have last : j = calls.length ∧ call = d := by
      rw [List.getElem?_singleton] at found
      split at found
      next first => exact ⟨by omega, Option.some.inj found⟩
      · cases found
    obtain ⟨rfl, rfl⟩ := last
    rw [if_pos before] at early
    exact other late c (List.mem_of_getElem? early)

/-- Where no place is left out, no key occurs twice. -/
theorem NewFrom.nodup {calls : Calls} (new : NewFrom 0 calls) :
    (calls.map fun call => call.1.key).Nodup := by
  rw [List.Nodup, List.pairwise_map, List.pairwise_iff_getElem]
  intro i j hi hj before
  exact new i j _ _ before (Nat.zero_le j) (List.getElem?_eq_getElem hi)
    (List.getElem?_eq_getElem hj)

/-! ### The invariant -/

/-- All candidates that were scored are marked as seen, and from some place on each was new when it
was scored. -/
structure Scored (free : Nat) (s : Search (σ × Calls) ε) : Prop where
  marked : ∀ call ∈ s.calls, s.seen.contains call.1.key = true
  new : NewFrom free s.calls

namespace Scored

variable {free : Nat} {s : Search (σ × Calls) ε} {p : Plan σ}

theorem contains_insert (seen : Std.TreeSet String) {key other : String}
    (member : seen.contains other = true ∨ other = key) :
    (seen.insert key).contains other = true := by
  rcases member with old | rfl
  · simp [Std.TreeSet.contains_insert, old]
  · simp [Std.TreeSet.contains_insert]

/-- One more call keeps the invariant if its candidate was not seen, or if it is made at a place
that is left out. -/
theorem evaluate (scored : Scored free s) {c : Candidate}
    (allowed : s.seen.contains c.key = false ∨ s.calls.length < free) :
    Ends (p.logged.evaluate c) s
      (fun _ t => Scored free t ∧ t.calls.length = s.calls.length + 1) (Scored free) := by
  apply (p.logged.evaluate_ends c s).mono
  · rintro _ _ ⟨-, rfl⟩
    refine ⟨⟨?_, ?_⟩, List.length_append⟩
    · intro call listed
      apply contains_insert
      rcases List.mem_append.mp listed with old | last
      · exact .inl (scored.marked call old)
      · obtain rfl := List.mem_singleton.mp last
        exact .inr rfl
    · apply scored.new.append
      intro late call listed same
      rcases allowed with notSeen | early
      · have seen := scored.marked call listed
        rw [same] at seen
        exact absurd (seen.symm.trans notSeen) (by decide)
      · exact absurd early (Nat.not_lt.mpr late)
  · rintro _ rfl
    exact ⟨fun call listed => contains_insert _ (.inl (scored.marked call listed)), scored.new⟩

end Scored

/-- No step breaks the invariant. -/
theorem Plan.neutral_scored (p : Plan σ) (free : Nat) :
    p.logged.Neutral (Scored (ε := ε) free) where
  quiet := by
    rintro s t scored ⟨source, -, rfl⟩
    exact ⟨scored.marked, scored.new⟩
  best _ _ _ scored _ := ⟨scored.marked, scored.new⟩
  current _ _ _ scored := ⟨scored.marked, scored.new⟩
  own _ _ scored := ⟨scored.marked, scored.new⟩
  scored s c scored notSeen := by
    exact (scored.evaluate (.inl notSeen)).mono (fun _ _ after => after.1) fun _ after => after

/-! ### The first population -/

namespace Genetic

/-- Fill the population as `fillNew` does, and count the candidates that are drawn. -/
def fillCounting (p : Plan σ) : Nat → Nat → Move σ Population Nat
  | 0, places => do
      fillAny p places
      return places
  | _ + 1, 0 => return 0
  | tries + 1, places + 1 => do
      let c ← draw p.config.operators.random
      if (← wasSeen c) && tries != 0 then
        let count ← fillCounting p tries (places + 1)
        return count + 1
      else
        enlarge p c
        let count ← fillCounting p tries places
        return count + 1

theorem fillNew_eq_fillCounting (p : Plan σ) (tries places : Nat) :
    fillNew p tries places = (do
      let _ ← fillCounting p tries places
      return) := by
  induction tries generalizing places with
  | zero => simp [fillNew, fillCounting]
  | succ tries ih =>
      cases places with
      | zero => simp [fillNew, fillCounting]
      | succ places =>
          simp only [fillNew, fillCounting, ih, bind_assoc]
          congr 1
          funext c
          congr 1
          funext seen
          split
          · simp
          · simp

variable {p : Plan σ} {free : Nat} {s : Search (σ × Calls) Population}

/-- Taking a candidate into the population makes one call. -/
theorem enlarge_scored (scored : Scored free s) {c : Candidate}
    (allowed : s.seen.contains c.key = false ∨ s.calls.length < free) :
    Ends (enlarge p.logged c) s
      (fun _ t => Scored free t ∧ t.calls.length = s.calls.length + 1) (fun _ => True) := by
  refine ((scored.evaluate allowed).mono (fun _ _ after => after) fun _ _ => trivial).bind ?_
  rintro score t ⟨scored, one⟩
  refine .modify_bind (.modify_bind (.bind (R := fun _ t => Scored free t ∧
    t.calls.length = s.calls.length + 1) ?_ fun _ _ after => .pure after))
  exact updateBest_ends (fun _ => ⟨⟨scored.marked, scored.new⟩, one⟩)
    fun _ => ⟨⟨scored.marked, scored.new⟩, one⟩

theorem fillAny_scored (places : Nat) (scored : Scored free s)
    (room : s.calls.length + places ≤ free) :
    Ends (fillAny p.logged places) s (fun _ t => Scored free t) (fun _ => True) := by
  induction places generalizing s with
  | zero => exact .pure scored
  | succ places ih =>
      refine .bind (R := fun _ t => Scored free t ∧ t.calls.length = s.calls.length)
        (.draw ⟨⟨scored.marked, scored.new⟩, rfl⟩) ?_
      rintro c t ⟨scored, same⟩
      refine (enlarge_scored scored (.inr (by omega))).bind ?_
      rintro _ u ⟨scored, one⟩
      exact ih scored (by omega)

/-- The first population keeps the invariant if all its places are left out, or if it is filled
before the tries run out. -/
theorem fillCounting_scored (tries places : Nat) (scored : Scored free s) :
    Ends (fillCounting p.logged tries places) s
      (fun count t => s.calls.length + places ≤ free ∨ count < tries → Scored free t)
      (fun _ => True) := by
  induction tries generalizing places s with
  | zero =>
      by_cases room : s.calls.length + places ≤ free
      · refine (fillAny_scored places scored room).bind fun _ t scored => .pure fun _ => scored
      · refine (Ends.trivial _ _).bind fun _ t _ => .pure fun enough => ?_
        rcases enough with left | counted
        · exact absurd left room
        · exact absurd counted (Nat.not_lt_zero places)
  | succ tries ih =>
      cases places with
      | zero => exact .pure fun _ => scored
      | succ places =>
          refine .bind (R := fun _ t => Scored free t ∧ t.calls.length = s.calls.length)
            (.draw ⟨⟨scored.marked, scored.new⟩, rfl⟩) ?_
          rintro c t ⟨scored, same⟩
          refine .get_bind (.ite (fun _ => ?_) fun taken => ?_)
          · refine (ih (places + 1) scored).bind fun count u after => .pure fun enough => ?_
            exact after (by omega)
          -- The candidate is new, or this was the last try.
          · by_cases allowed : t.seen.contains c.key = false ∨ t.calls.length < free
            · refine (enlarge_scored scored allowed).bind ?_
              rintro _ u ⟨scored, one⟩
              refine (ih places scored).bind fun count v after => .pure fun enough => ?_
              exact after (by omega)
            · rw [not_or, Bool.not_eq_false] at allowed
              have last : tries = 0 := by simpa [allowed.1] using taken
              refine (Ends.trivial _ _).bind fun _ u _ => (Ends.trivial _ _).bind ?_
              refine fun count v _ => .pure fun enough => absurd enough ?_
              omega

/-- Fill the population as `populate` does, and count the candidates that are drawn. -/
def populateCounting (p : Plan σ) : Move σ Population Nat := do
  modify fun s => { s with
    own := ⟨[s.current], Std.TreeMap.empty.insert s.current.key s.currentScore⟩ }
  fillCounting p p.config.patience (p.config.populationSize.value - 1)

theorem populate_eq_populateCounting (p : Plan σ) :
    populate p = (do
      let _ ← populateCounting p
      return) := by
  simp [populate, populateCounting, fillNew_eq_fillCounting]

end Genetic

/-- How many random candidates a genetic search draws to fill its first population. -/
def Plan.firstDraws (p : Plan σ) (w : Surroundings σ) : Nat :=
  match p.begin ⟨[], ∅⟩ w with
  | (.ok (), s) => ((Genetic.populateCounting p).run.run s).1.toOption.getD 0
  | _ => 0

/-- Writing calls down does not change what is drawn. -/
theorem Genetic.fillCounting_agrees {τ : Type} {R : σ → τ → Prop} {config : SearchConfig}
    {e : Evaluator σ} {e' : Evaluator τ} (alike : e.Agrees R e') (tries places : Nat) :
    Agrees R (fillCounting ⟨config, e⟩ tries places) (fillCounting ⟨config, e'⟩ tries places) := by
  induction tries generalizing places with
  | zero => exact .bind (fillAny_agrees alike places) fun _ => .pure _
  | succ tries ih =>
      cases places with
      | zero => exact .pure _
      | succ places =>
          refine .bind (.draw _) fun c => .bind (wasSeen_agrees c) fun seen => ?_
          refine .ite (fun _ => .bind (ih (places + 1)) fun _ => .pure _) fun _ => ?_
          exact .bind (enlarge_agrees alike c) fun _ => .bind (ih places) fun _ => .pure _

theorem Genetic.populateCounting_agrees {τ : Type} {R : σ → τ → Prop} {config : SearchConfig}
    {e : Evaluator σ} {e' : Evaluator τ} (alike : e.Agrees R e') :
    Agrees R (populateCounting ⟨config, e⟩) (populateCounting ⟨config, e'⟩) := by
  refine .bind (.progress fun s : Progress Population => { s with
    own := ⟨[s.current], Std.TreeMap.empty.insert s.current.key s.currentScore⟩ }) fun _ => ?_
  exact fillCounting_agrees alike _ _

theorem Plan.firstDraws_logged (p : Plan σ) (w : Surroundings σ) :
    p.logged.firstDraws (w.withCalls []) = p.firstDraws w := by
  have first : (p.logged.begin (⟨[], ∅⟩ : Population) (w.withCalls [])).1 =
      (p.begin (⟨[], ∅⟩ : Population) w).1 ∧
        (p.logged.begin (⟨[], ∅⟩ : Population) (w.withCalls [])).2.Matches Remembers
          (p.begin (⟨[], ∅⟩ : Population) w).2 :=
    Plan.begin_agrees p.evaluator.logged_agrees _ ⟨rfl, rfl⟩
  unfold firstDraws
  generalize p.logged.begin (⟨[], ∅⟩ : Population) (w.withCalls []) = begun at first ⊢
  generalize p.begin (⟨[], ∅⟩ : Population) w = begun' at first ⊢
  obtain ⟨outcome, s⟩ := begun
  obtain ⟨outcome', t⟩ := begun'
  obtain ⟨same, related⟩ := first
  obtain rfl : outcome = outcome' := same
  cases outcome with
  | ok _ =>
      have counted : ((Genetic.populateCounting p.logged).run.run s).1 =
          ((Genetic.populateCounting p).run.run t).1 :=
        (Genetic.populateCounting_agrees p.evaluator.logged_agrees s t related).1
      exact congrArg (fun count => count.toOption.getD 0) counted
  | error e => rfl

/-! ### Runs -/

section
variable {p : Plan σ} {free : Nat}

/-- The first call is new. -/
theorem Plan.begin_scored (free : Nat) (own : ε) {w : Surroundings σ} {s : Search (σ × Calls) ε}
    (begun : p.logged.begin own (w.withCalls []) = (.ok (), s)) :
    Scored free s ∧ s.calls.length = 1 := by
  have fresh : Scored free (p.logged.unscored own (w.withCalls [])) := by
    constructor
    · intro call listed
      cases listed
    · intro i j c d before late early
      cases early
  have ends : Ends p.logged.scoreFirst (p.logged.unscored own (w.withCalls []))
      (fun _ t => Scored free t ∧ t.calls.length = 1) (fun _ => True) := by
    refine .get_bind (((fresh.evaluate (.inl Std.TreeSet.contains_emptyc)).mono
      (fun _ _ after => after) fun _ _ => trivial).bind ?_)
    rintro score t ⟨scored, one⟩
    exact .modify ⟨⟨scored.marked, scored.new⟩, one⟩
  rw [Plan.begin_eq] at begun
  have after := ends.result (congrArg Prod.fst begun)
  rwa [begun] at after

/-- The first population keeps the invariant if all its places are left out, or if it is filled
before the tries run out. -/
theorem Genetic.begin_scored {w : Surroundings σ} {s : Search (σ × Calls) Population}
    (begun : Genetic.begin p.logged (w.withCalls []) = (.ok (), s))
    (enough : p.config.populationSize.value ≤ free ∨ p.firstDraws w < p.config.patience) :
    Scored free s := by
  obtain ⟨first, started, populated⟩ := begin_eq_ok begun
  obtain ⟨scored, one⟩ := Plan.begin_scored free _ started
  have filled : Ends (populateCounting p.logged) first
      (fun count t => p.config.populationSize.value ≤ free ∨ count < p.config.patience →
        Scored free t) (fun _ => True) := by
    have alone : Scored free ({ first with
        own := ⟨[first.current], Std.TreeMap.empty.insert first.current.key first.currentScore⟩ } :
          Search (σ × Calls) Population) := ⟨scored.marked, scored.new⟩
    have rest := fillCounting_scored (p := p) p.config.patience
      (p.config.populationSize.value - 1) alone
    refine .modify_bind (rest.mono (fun count t after enough => after ?_) fun _ _ => trivial)
    have places := p.config.populationSize.least_le
    change first.calls.length + (p.config.populationSize.value - 1) ≤ free ∨ _
    omega
  rw [← Plan.firstDraws_logged] at enough
  unfold Plan.firstDraws at enough
  rw [started] at enough
  rw [populate_eq_populateCounting, ExceptT.run_bind, StateT.run_bind] at populated
  unfold Ends at filled
  dsimp only at enough
  split at filled
  next count t run =>
    rw [run] at populated enough
    obtain rfl := (Prod.mk.inj populated).2
    exact filled enough
  next e t run =>
    rw [run] at populated
    cases (Prod.mk.inj populated).1

namespace Strategy

/-- A genetic search that keeps the invariant, with its surroundings. -/
def ScoresNew (free : Nat) (x : Strategy × Surroundings (σ × Calls)) : Prop :=
  ∃ progress, x.1 = .genetic progress ∧ Scored free (⟨progress, x.2⟩ : Search _ Population)

/-- A step keeps the invariant, whether it succeeds or fails. -/
theorem step_scoresNew {s : Strategy} {w : Surroundings (σ × Calls)}
    (holds : ScoresNew free (s, w)) : ScoresNew free (step p.logged s w).2 := by
  obtain ⟨progress, rfl, scored⟩ := holds
  unfold step
  split
  · exact ⟨_, rfl, scored.marked, scored.new⟩
  · have ends := Genetic.step_finishes (p.neutral_scored free) ⟨progress, w⟩
      ⟨scored.marked, scored.new⟩
    exact ⟨_, rfl, (ends.mono (fun _ _ both => both.1) fun _ after => after).state⟩

theorem after_scoresNew {start : Strategy × Surroundings (σ × Calls)}
    (holds : ScoresNew free start) (steps : Nat) :
    ScoresNew free (after p.logged start steps) := by
  induction steps with
  | zero => exact holds
  | succ steps ih => exact step_scoresNew ih

end Strategy

theorem Plan.calls_newFrom (genetic : p.config.algorithm = .genetic) {w : Surroundings σ}
    {steps : Nat} {x : Strategy × Surroundings σ} (reached : p.reached w steps = .ok x)
    (enough : p.config.populationSize.value ≤ free ∨ p.firstDraws w < p.config.patience) :
    NewFrom free (p.calls w steps) := by
  have logged := Plan.reached_logged reached
  obtain ⟨s, v, begun, final⟩ := Plan.reached_eq_ok logged
  have start : Strategy.ScoresNew free (s, v) := by
    rcases Strategy.begin_eq_ok begun with ⟨other, -⟩ | ⟨-, t, started, rfl, rfl⟩ | ⟨other, -⟩
    · exact absurd (genetic.symm.trans other) (by decide)
    · exact ⟨_, rfl, Genetic.begin_scored started enough⟩
    · exact absurd (genetic.symm.trans other) (by decide)
  have ends := Strategy.after_scoresNew (p := p) start steps
  rw [← final] at ends
  obtain ⟨progress, -, scored⟩ := ends
  exact scored.new

end

/-- A genetic search scores no candidate twice after its first population: every later call is of a
key that no call before it had.  The first population has as many calls as members, and when it is
filled before the tries run out, no key occurs twice among all calls.  The calls are those of the
same search with an evaluator that writes them down. -/
theorem Plan.reached_scores_new (p : Plan σ) (genetic : p.config.algorithm = .genetic)
    {w : Surroundings σ} {steps : Nat} {s : Strategy} {v : Surroundings σ}
    (reached : p.reached w steps = .ok (s, v)) :
    p.logged.reached (w.withCalls []) steps = .ok (s, v.withCalls (p.calls w steps)) ∧
      NewFrom p.config.populationSize.value (p.calls w steps) ∧
      (p.firstDraws w < p.config.patience →
        ((p.calls w steps).map fun call => call.1.key).Nodup) := by
  refine ⟨Plan.reached_logged reached, ?_, ?_⟩
  · exact Plan.calls_newFrom genetic reached (.inl (Nat.le_refl _))
  · intro early
    exact (Plan.calls_newFrom genetic reached (.inr early)).nodup

/-- A first population of two leaves that differ, and two steps. -/
theorem Plan.reached_scores_new_leaves :
    let p : Plan Oracle := ⟨{
      algorithm := .genetic, maxDepth := .ofNat 0, populationSize := .ofNat 2 },
      PrimeShare.evaluator ⟨2, 2.0⟩⟩
    let w : Surroundings Oracle := ⟨⟨[0.0, 0.9, 0.0], 7, 0⟩, .empty 1000⟩
    ∃ s v, p.reached w 2 = .ok (s, v) ∧
      ((p.calls w 2).map fun call => call.1.key).Nodup := by
  intro p w
  have begins : (p.reached w 2).toOption.isSome = true := by decide +kernel
  have early : p.firstDraws w < p.config.patience := by decide +kernel
  cases reached : p.reached w 2 with
  | error e =>
      rw [reached] at begins
      cases begins
  | ok x => exact ⟨x.1, x.2, rfl, (p.reached_scores_new rfl reached).2.2 early⟩

/-- With one try for each of two places, a leaf that is drawn three times is scored twice. -/
theorem Plan.calls_repeated :
    let p : Plan Oracle := ⟨{
      algorithm := .genetic, maxDepth := .ofNat 0, populationSize := .ofNat 2
      maxAttempts := .ofNat 1 }, PrimeShare.evaluator ⟨2, 2.0⟩⟩
    let w : Surroundings Oracle := ⟨⟨[0.0, 0.0, 0.0], 7, 0⟩, .empty 1000⟩
    (p.reached w 0).toOption.isSome = true ∧
      (p.calls w 0).map (fun call => call.1.key) = ["f(n) = n", "f(n) = n"] := by
  decide +kernel

end PrimeSearch
