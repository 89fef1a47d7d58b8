/-
Module: PrimeSearch.Proofs.Search.Work
Purpose: How much a genetic search works: how many candidates it draws for its first population, and
  how often a step calls the evaluator.
Main exports: Move.Rounds, Genetic.fillRound, Genetic.fillNew_ends, Genetic.Bred,
  Genetic.breed_ends, Genetic.topUp_ends, Genetic.Works, Plan.reached_bounded
-/
import PrimeSearch.Proofs.Loop
import PrimeSearch.Proofs.Outcome
import PrimeSearch.Proofs.Search.Population
import PrimeSearch.Proofs.Search.Unrepeated

namespace PrimeSearch

open Move

variable {σ ε α β : Type}

/-!
Three loops make the populations of a genetic search.  Each goes on until there are members enough,
and the first two also count: the one that fills the first population its draws, the one that breeds
the refused children.  Their recursions count rounds down, but the rounds never run out: a draw
that adds no member counts, and so does a child that is offered to a brood with room for it, by the
member or by the failure that it becomes.  Two children are offered in a round, so the failures may
exceed their bound by one.
-/

/-- A round of a loop, from what it is given and the state in which it begins. -/
def Move.Rounds (round : β → Move σ ε β) (x y : β × Search σ ε) : Prop :=
  (round x.1).run.run x.2 = (.ok y.1, y.2)

theorem Move.wasSeen_run (c : Candidate) (s : Search σ ε) :
    (wasSeen c : Move σ ε Bool).run.run s = (.ok (s.seen.contains c.key), s) := rfl

namespace SearchConfig

theorem patience_le (c : SearchConfig) :
    c.patience ≤ c.maxAttempts.value * c.populationSize.value := by
  unfold patience
  dsimp only
  split
  · exact Nat.le_refl _
  · exact Nat.min_le_left _ _

end SearchConfig

namespace Genetic

/-! ### The first population -/

section
variable {p : Plan σ} {s : Search σ Population}

/-- A search whose population is its current candidate alone. -/
def founded (s : Search σ Population) : Search σ Population :=
  { s with own := ⟨[s.current], Std.TreeMap.empty.insert s.current.key s.currentScore⟩ }

/-- Draw a candidate after so many others, and add it to the population unless it was seen and there
are tries left. -/
def fillRound (p : Plan σ) (draws : Nat) : Move σ Population Nat := do
  let c ← draw p.config.operators.random
  if (← wasSeen c) && decide (draws + 1 < p.config.patience) then return draws + 1
  else
    enlarge p c
    return draws + 1

/-- The first population has not all its members. -/
def Fills (p : Plan σ) (x : Nat × Search σ Population) : Prop :=
  x.2.own.members.length < p.config.populationSize.value

theorem enlarge_members (p : Plan σ) (c : Candidate) (s : Search σ Population) :
    Ends (enlarge p c) s (fun _ t => t.own.members = s.own.members ++ [c]) (fun _ => True) := by
  refine ((p.evaluate_ends c s).mono (fun _ _ after => after.2) fun _ _ => trivial).bind ?_
  rintro score _ rfl
  refine .modify_bind (.modify_bind (.bind (R := fun _ t => t.own.members = s.own.members ++ [c])
    ?_ fun _ _ after => .pure after))
  exact updateBest_ends (fun _ => rfl) fun _ => rfl

/-- A draw, after which the population is as it was. -/
theorem draw_ends (p : Plan σ) (s : Search σ Population) :
    Ends (draw p.config.operators.random) s
      (fun c t => (draw p.config.operators.random).run.run s = (.ok c, t) ∧ t.own = s.own)
      (fun _ => True) := .draw ⟨rfl, rfl⟩

/-- A round that passes over a seen candidate. -/
theorem fillRound_skips {draws : Nat} {c : Candidate} {t : Search σ Population}
    (drawn : (draw p.config.operators.random).run.run s = (.ok c, t))
    (seen : t.seen.contains c.key = true) (left : draws + 1 < p.config.patience) :
    Rounds (fillRound p) (draws, s) (draws + 1, t) := by
  unfold Rounds fillRound
  rw [run_bind_ok drawn, run_bind_ok (wasSeen_run c t), if_pos (by simp [seen, left])]
  rfl

/-- A round that adds a candidate. -/
theorem fillRound_adds {draws : Nat} {c : Candidate} {t u : Search σ Population}
    (drawn : (draw p.config.operators.random).run.run s = (.ok c, t))
    (added : (enlarge p c).run.run t = (.ok (), u))
    (open_ : t.seen.contains c.key = false ∨ p.config.patience ≤ draws + 1) :
    Rounds (fillRound p) (draws, s) (draws + 1, u) := by
  have notSkipped : ¬(t.seen.contains c.key && decide (draws + 1 < p.config.patience)) = true := by
    rcases open_ with new | spent
    · simp [new]
    · simp [Nat.not_lt.mpr spent]
  unfold Rounds fillRound
  rw [run_bind_ok drawn, run_bind_ok (wasSeen_run c t), if_neg notSkipped,
    run_bind_ok added]
  rfl

/-- Once the tries have run out every draw adds a member. -/
theorem fillAny_ends (draws places : Nat) (spent : p.config.patience ≤ draws)
    (room : s.own.members.length + places = p.config.populationSize.value) :
    Ends (fillAny p places) s
      (fun _ t => LoopEnds (Fills p) (Rounds (fillRound p)) (draws, s) places (draws + places, t))
      (fun _ => True) := by
  induction places generalizing draws s with
  | zero => exact .pure (.ended (by simp only [Fills]; omega))
  | succ places ih =>
      refine (draw_ends p s).bind fun c t ⟨drawn, same⟩ => ?_
      refine (enlarge_members p c t).told.bind fun _ u ⟨added, members⟩ => ?_
      have grown : u.own.members.length = s.own.members.length + 1 := by simp [members, same]
      refine (ih (draws + 1) (by omega) (by omega)).mono (fun _ v rest => ?_) fun _ _ => trivial
      have more : Fills p (draws, s) := by simp only [Fills]; omega
      rw [show draws + (places + 1) = draws + 1 + places by omega]
      exact .next more (fillRound_adds drawn added (.inr (by omega))) rest

/-- Every draw adds a member or uses up a try. -/
theorem fillNew_ends (draws tries places : Nat) (left : draws + tries = p.config.patience)
    (room : s.own.members.length + places = p.config.populationSize.value) :
    Ends (fillNew p tries places) s
      (fun _ t => ∃ rounds ≤ tries + places,
        LoopEnds (Fills p) (Rounds (fillRound p)) (draws, s) rounds (draws + rounds, t))
      (fun _ => True) := by
  induction tries generalizing draws places s with
  | zero =>
      refine (fillAny_ends draws places (by omega) room).mono (fun _ t ends => ?_) fun _ _ => trivial
      exact ⟨places, by omega, ends⟩
  | succ tries ih =>
      cases places with
      | zero => exact .pure ⟨0, Nat.zero_le _, .ended (by simp only [Fills]; omega)⟩
      | succ places =>
          have more : Fills p (draws, s) := by simp only [Fills]; omega
          refine (draw_ends p s).bind fun c t ⟨drawn, same⟩ => .get_bind (.ite (fun again => ?_)
            fun open_ => ?_)
          · obtain ⟨seen, left'⟩ := Bool.and_eq_true _ _ ▸ again
            have tried : tries ≠ 0 := by simpa using left'
            refine (ih (draws + 1) (places + 1) (by omega) (by rw [same]; omega)).mono
              (fun _ u ⟨rounds, few, rest⟩ => ⟨rounds + 1, by omega, ?_⟩) fun _ _ => trivial
            rw [show draws + (rounds + 1) = draws + 1 + rounds by omega]
            exact .next more (fillRound_skips drawn seen (by omega)) rest
          · have adds : t.seen.contains c.key = false ∨ p.config.patience ≤ draws + 1 := by
              by_cases new : t.seen.contains c.key = true
              · have last : tries = 0 := by simpa [new] using open_
                exact .inr (by omega)
              · exact .inl (Bool.eq_false_of_not_eq_true new)
            refine (enlarge_members p c t).told.bind fun _ u ⟨added, members⟩ => ?_
            have grown : u.own.members.length = s.own.members.length + 1 := by simp [members, same]
            refine (ih (draws + 1) places (by omega) (by omega)).mono
              (fun _ v ⟨rounds, few, rest⟩ => ⟨rounds + 1, by omega, ?_⟩) fun _ _ => trivial
            rw [show draws + (rounds + 1) = draws + 1 + rounds by omega]
            exact .next more (fillRound_adds drawn added adds) rest

/-- A search that has begun has filled its first population by a loop that ended by itself. -/
theorem begin_fills {w : Surroundings σ} {t : Search σ Population}
    (begun : Genetic.begin p w = (.ok (), t)) :
    ∃ first draws, p.begin ⟨[], ∅⟩ w = (.ok (), first) ∧
      draws ≤ p.config.maxAttempts.value * p.config.populationSize.value +
        p.config.populationSize.value ∧
      LoopEnds (Fills p) (Rounds (fillRound p)) (0, founded first) draws (draws, t) := by
  obtain ⟨first, started, populated⟩ := begin_eq_ok begun
  have places := p.config.populationSize.least_le
  have tries := p.config.patience_le
  have alone : (founded first).own.members.length + (p.config.populationSize.value - 1) =
      p.config.populationSize.value := by
    simp only [founded, List.length_singleton]
    omega
  have filled := fillNew_ends 0 p.config.patience _ (Nat.zero_add _) alone
  obtain ⟨draws, few, ends⟩ := filled.result (congrArg Prod.fst populated)
  have last : ((fillNew p p.config.patience (p.config.populationSize.value - 1)).run.run
      (founded first)).2 = t := congrArg Prod.snd populated
  rw [last, Nat.zero_add] at ends
  exact ⟨first, draws, started, by omega, ends⟩

/-- With an evaluator of the other mode nothing is drawn after the first candidate, whose scoring
fails. -/
theorem begin_unfit (unfit : ¬p.Fits) (w : Surroundings σ) :
    ∃ e first, p.begin (⟨[], ∅⟩ : Population) w = (.error e, first) ∧
      Genetic.begin p w = (.error e, first) := by
  rcases begun : p.begin (⟨[], ∅⟩ : Population) w with ⟨e | _, first⟩
  · refine ⟨e, first, rfl, ?_⟩
    rw [Genetic.begin, begun]
  · exact absurd (Plan.fits_of_begin begun) unfit

end

/-! ### The next generation -/

/-- Two parents have two children, and each of them is offered. -/
def breedRound (p : Plan σ) (b : Brood) : Move σ Population Brood := do
  let first ← selectParent p
  let second ← selectParent p
  let (one, other) ← attempt (p.config.operators.crossover first second)
  let b ← offer p b one
  offer p b other

/-- A brood is bred as long as it has room and not too many children were refused. -/
def Breeds (p : Plan σ) (x : Brood × Search σ Population) : Prop :=
  x.1.members.length < p.config.populationSize.value ∧ x.1.failures < p.config.patience

/-- A random candidate is taken in, and scored if it is new. -/
def topUpRound (p : Plan σ) (b : Brood) : Move σ Population Brood := do
  let c ← draw p.config.operators.random
  let score ← if ← wasSeen c then pure (scoreOf (← get).own c) else p.evaluate c
  record c score
  return b.accept c

/-- A brood has not all its members. -/
def TopsUp (p : Plan σ) (x : Brood × Search σ Population) : Prop :=
  x.1.members.length < p.config.populationSize.value

/-- How many children a brood with room has been offered, together with its first member: each was
taken in or refused. -/
def Brood.offered (b : Brood) : Nat := b.members.length + b.failures

theorem Brood.offered_refuse (b : Brood) : b.refuse.offered = b.offered + 1 := rfl

theorem Brood.offered_accept (b : Brood) (c : Candidate) :
    (b.accept c).offered = b.offered + 1 := by
  simp only [Brood.offered, Brood.accept, List.length_append, List.length_singleton]
  omega

/-- A brood that holds no more members than there are places and has refused at most so many
children, each of which was scored once at most. -/
structure Bred (size most : Nat) (start : Search (σ × Calls) Population) (b : Brood)
    (s : Search (σ × Calls) Population) : Prop where
  first : 1 ≤ b.members.length
  room : b.members.length ≤ size
  failures : b.failures ≤ most
  spends : start.Spends (b.offered - 1) s

namespace Bred

variable {start s t : Search (σ × Calls) Population} {size most most' : Nat} {b : Brood}

theorem mono (bred : Bred size most start b s) (atMost : most ≤ most') :
    Bred size most' start b s :=
  ⟨bred.first, bred.room, bred.failures.trans atMost, bred.spends⟩

/-- What makes no calls does not matter. -/
theorem frame (bred : Bred size most start b s) (same : t.calls = s.calls) :
    Bred size most start b t :=
  ⟨bred.first, bred.room, bred.failures, bred.spends.trans (.of_eq same 0)⟩

/-- A child is refused, for which one call at most was made. -/
theorem refuse (bred : Bred size most start b s) (spends : s.Spends 1 t) :
    Bred size (most + 1) start b.refuse t := by
  refine ⟨bred.first, bred.room, Nat.add_le_add_right bred.failures 1, ?_⟩
  refine (bred.spends.trans spends).mono ?_
  have first := bred.first
  rw [Brood.offered_refuse, Brood.offered]
  omega

/-- A member is taken in where there is room, for which one call at most was made. -/
theorem accept (bred : Bred size most start b s) (left : b.members.length < size)
    (spends : s.Spends 1 t) (c : Candidate) : Bred size most start (b.accept c) t := by
  have length : (b.accept c).members.length = b.members.length + 1 := by simp [Brood.accept]
  refine ⟨by omega, by omega, bred.failures, (bred.spends.trans spends).mono ?_⟩
  have first := bred.first
  rw [Brood.offered_accept, Brood.offered]
  omega

/-- All members but the first and all failures may have cost a call. -/
theorem bounded (bred : Bred size most start b s) (atMost : most ≤ most' + 1) :
    start.Spends (size + most') s := by
  have first := bred.first
  have room := bred.room
  have failures := bred.failures
  refine bred.spends.mono ?_
  rw [Brood.offered]
  omega

/-- A move that only draws does not disturb what follows it. -/
theorem draws {m : Move (σ × Calls) Population α} {f : α → Move (σ × Calls) Population β}
    {Q : β → Search (σ × Calls) Population → Prop} (bred : Bred size most start b s)
    (atMost : most ≤ most' + 1) (only : OnlyDraws m)
    (rest : ∀ a t, Bred size most start b t → (f a).Ends t Q (start.Spends (size + most'))) :
    (m >>= f).Ends s Q (start.Spends (size + most')) := by
  have kept (t : Search (σ × Calls) Population) (quiet : Quiet s t) : Bred size most start b t := by
    obtain ⟨source, -, rfl⟩ := quiet
    exact bred.frame rfl
  exact ((only s).mono (fun _ => kept) fun t quiet => (kept t quiet).bounded atMost).bind rest

/-- Scoring a candidate makes one call, or fails without one. -/
theorem evaluate {p : Plan σ} {c : Candidate}
    {f : Option Score → Move (σ × Calls) Population β}
    {Q : β → Search (σ × Calls) Population → Prop} (bred : Bred size most start b s)
    (atMost : most ≤ most' + 1)
    (rest : ∀ score t, s.Spends 1 t → (f score).Ends t Q (start.Spends (size + most'))) :
    (p.logged.evaluate c >>= f).Ends s Q (start.Spends (size + most')) := by
  refine ((p.logged.evaluate_ends c s).mono (fun _ _ after => after.2) ?_).bind ?_
  · rintro _ rfl
    exact (bred.frame rfl).bounded atMost
  · rintro score _ rfl
    exact rest score _ ⟨_, rfl, Nat.le_refl 1⟩

end Bred

section
variable {p : Plan σ} {start s t : Search (σ × Calls) Population} {most : Nat} {b : Brood}

/-- Recording a score makes no call. -/
theorem record_spends {E : Search (σ × Calls) Population → Prop} (c : Candidate)
    (score : Option Score) (spends : s.Spends 1 t) :
    Ends (record c score) t (fun _ u => s.Spends 1 u) E :=
  record_ends fun _ _ _ => spends.trans (.of_eq rfl 0)

/-- A child that is offered where there is room is taken in or refused. -/
theorem offer_bred (child : Candidate) (bred : Bred p.config.populationSize.value most start b s) :
    Ends (offer p.logged b child) s
      (fun b' t => Bred p.config.populationSize.value (most + 1) start b' t ∧
        (b.members.length < p.config.populationSize.value ∧ b'.offered = b.offered + 1 ∨
          p.config.populationSize.value ≤ b.members.length ∧ b' = b))
      (start.Spends (p.config.populationSize.value + most)) := by
  have atMost := Nat.le_succ most
  refine .ite (fun full => .pure ⟨bred.mono atMost, .inr ⟨full, rfl⟩⟩) fun open_ => ?_
  have left := Nat.lt_of_not_le open_
  refine bred.draws atMost (mutateChild_onlyDraws p.logged child) fun c t bred => ?_
  refine .get_bind (.ite (fun _ => .pure ?_) fun _ => ?_)
  · exact ⟨bred.refuse (.of_eq rfl 1), .inl ⟨left, b.offered_refuse⟩⟩
  refine bred.evaluate atMost fun score u spends => ?_
  cases score with
  | none => exact .pure ⟨bred.refuse spends, .inl ⟨left, b.offered_refuse⟩⟩
  | some score =>
      refine (record_spends c (some score) spends).bind fun _ v spends => .modify_bind (.pure ?_)
      have taken := (bred.accept left spends c).mono atMost
      exact ⟨taken.frame rfl, .inl ⟨left, b.offered_accept c⟩⟩

/-- A round offers a child where there is room, and refuses two at most. -/
theorem breedRound_bred (bred : Bred p.config.populationSize.value most start b s)
    (left : b.members.length < p.config.populationSize.value) :
    Ends (breedRound p.logged b) s
      (fun b' t => Bred p.config.populationSize.value (most + 2) start b' t ∧
        b.offered < b'.offered)
      (start.Spends (p.config.populationSize.value + (most + 1))) := by
  have atMost : most ≤ most + 1 + 1 := by omega
  refine bred.draws atMost (selectParent_onlyDraws p.logged) fun first t bred => ?_
  refine bred.draws atMost (selectParent_onlyDraws p.logged) fun second t bred => ?_
  refine bred.draws atMost (.attempt (Operators.crossover_advances _ _ _)) ?_
  rintro ⟨one, other⟩ t bred
  refine ((offer_bred one bred).mono (fun _ _ after => after) fun _ spends =>
    spends.mono (by omega)).bind fun b₁ u ⟨bred₁, offered₁⟩ => ?_
  refine (offer_bred other bred₁).mono (fun b₂ v ⟨bred₂, offered₂⟩ => ⟨bred₂, ?_⟩) fun _ spends =>
    spends
  -- The first child has room; the second one may have none left, and then counts for nothing.
  rcases offered₁ with ⟨-, offered₁⟩ | ⟨full, -⟩
  · rcases offered₂ with ⟨-, offered₂⟩ | ⟨-, rfl⟩
    · omega
    · omega
  · exact absurd full (Nat.not_le.mpr left)

/-- The recursion that breeds goes on with what a round leaves. -/
theorem breed_succ (p : Plan σ) (rounds : Nat) (b : Brood) :
    breed p (rounds + 1) b =
      if b.members.length < p.config.populationSize.value && b.failures < p.config.patience then
        breedRound p b >>= breed p rounds
      else pure b := by
  rw [breed]
  simp only [breedRound, bind_assoc]

/-- Breeding ends by itself: as many rounds are allowed as there are places and failures, and every
round offers a child. -/
theorem breed_ends (rounds : Nat)
    (bred : Bred p.config.populationSize.value (p.config.patience + 1) start b s)
    (enough : p.config.populationSize.value + p.config.patience ≤ rounds + b.offered) :
    Ends (breed p.logged rounds b) s
      (fun b' t => Bred p.config.populationSize.value (p.config.patience + 1) start b' t ∧
        ∃ n ≤ rounds, LoopEnds (Breeds p.logged) (Rounds (breedRound p.logged)) (b, s) n (b', t))
      (start.Spends (p.config.populationSize.value + p.config.patience)) := by
  induction rounds generalizing b s with
  | zero =>
      refine .pure ⟨bred, 0, Nat.le_refl 0, .ended fun ⟨left, patient⟩ => ?_⟩
      change b.members.length < p.config.populationSize.value at left
      change b.failures < p.config.patience at patient
      rw [Brood.offered] at enough
      omega
  | succ rounds ih =>
      rw [breed_succ]
      refine .ite (fun more => ?_) fun stops => .pure ⟨bred, 0, Nat.zero_le _, .ended ?_⟩
      · rw [Bool.and_eq_true, decide_eq_true_eq, decide_eq_true_eq] at more
        have left : b.members.length < p.config.populationSize.value := more.1
        have patient : b.failures < p.config.patience := more.2
        have few : Bred p.config.populationSize.value (p.config.patience - 1) start b s :=
          ⟨bred.first, bred.room, by omega, bred.spends⟩
        refine ((breedRound_bred few left).told.mono (fun _ _ after => after) fun _ spends =>
          spends.mono (by omega)).bind fun b' t ⟨run, bred', offered⟩ => ?_
        have round : Rounds (breedRound p.logged) (b, s) (b', t) := run
        refine (ih (bred'.mono (by omega)) (by omega)).mono (fun b'' u ⟨bred'', n, atMost, rest⟩ =>
          ⟨bred'', n + 1, by omega, .next more round rest⟩) fun _ spends => spends
      · rw [Bool.and_eq_true, decide_eq_true_eq, decide_eq_true_eq] at stops
        exact stops

/-- A round takes one member in. -/
theorem topUpRound_bred (bred : Bred p.config.populationSize.value most start b s)
    (left : b.members.length < p.config.populationSize.value) {most' : Nat}
    (atMost : most ≤ most' + 1) :
    Ends (topUpRound p.logged b) s
      (fun b' t => Bred p.config.populationSize.value most start b' t ∧
        b'.members.length = b.members.length + 1)
      (start.Spends (p.config.populationSize.value + most')) := by
  have taken (c : Candidate) (score : Option Score) {t u : Search (σ × Calls) Population}
      (bred : Bred p.config.populationSize.value most start b t) (spends : t.Spends 1 u) :
      Ends (do
        record c score
        return b.accept c) u
        (fun b' t => Bred p.config.populationSize.value most start b' t ∧
          b'.members.length = b.members.length + 1)
        (start.Spends (p.config.populationSize.value + most')) := by
    refine (record_spends c score spends).bind fun _ v spends => .pure ⟨?_, by simp [Brood.accept]⟩
    exact bred.accept left spends c
  refine bred.draws atMost (.draw (Operators.random_advances _)) fun c t bred => ?_
  refine .get_bind (.ite (fun _ => .get_bind ?_) fun _ => ?_)
  · exact taken c _ bred (.of_eq rfl 1)
  · exact bred.evaluate atMost fun score u spends => taken c score bred spends

/-- The recursion that fills a generation goes on with what a round leaves. -/
theorem topUp_succ (p : Plan σ) (places : Nat) (b : Brood) :
    topUp p (places + 1) b = topUpRound p b >>= topUp p places := by
  rw [topUp]
  simp only [topUpRound, bind_assoc]
  congr 1
  funext c
  congr 1
  funext seen
  split
  · simp only [bind_assoc, pure_bind]
  · simp only [bind_assoc, pure_bind]

/-- Filling a generation ends when all places are taken. -/
theorem topUp_ends (places : Nat) (bred : Bred p.config.populationSize.value most start b s)
    {most' : Nat} (atMost : most ≤ most' + 1)
    (room : b.members.length + places = p.config.populationSize.value) :
    Ends (topUp p.logged places b) s
      (fun b' t => Bred p.config.populationSize.value most start b' t ∧
        LoopEnds (TopsUp p.logged) (Rounds (topUpRound p.logged)) (b, s) places (b', t))
      (start.Spends (p.config.populationSize.value + most')) := by
  induction places generalizing b s with
  | zero =>
      refine .pure ⟨bred, .ended fun left => ?_⟩
      change b.members.length < p.config.populationSize.value at left
      omega
  | succ places ih =>
      have left : b.members.length < p.config.populationSize.value := by omega
      rw [topUp_succ]
      refine (topUpRound_bred bred left atMost).told.bind fun b' t ⟨run, bred', length⟩ => ?_
      have round : Rounds (topUpRound p.logged) (b, s) (b', t) := run
      refine (ih bred' (by omega)).mono (fun b'' u ⟨bred'', rest⟩ =>
        ⟨bred'', .next left round rest⟩) fun _ spends => spends

/-- What a step does: it breeds and it fills the generation, by loops that end by themselves, and the
brood becomes the population. -/
def Works (p : Plan σ) (s t : Search (σ × Calls) Population) : Prop :=
  ∃ bred u b v breedings places,
    breedings ≤ p.config.populationSize.value + p.config.patience ∧
    LoopEnds (Breeds p.logged) (Rounds (breedRound p.logged))
      (.ofBest s.best, { s with iteration := s.iteration + 1 }) breedings (bred, u) ∧
    LoopEnds (TopsUp p.logged) (Rounds (topUpRound p.logged)) (bred, u) places (b, v) ∧
    (succeed b).run.run v = (.ok (), t)

/-- A step makes no more calls than there are places and failures, whether it succeeds or fails. -/
theorem step_works (s : Search (σ × Calls) Population) :
    Ends (step p.logged) s
      (fun _ t => s.Spends (p.config.populationSize.value + p.config.patience) t ∧ Works p s t)
      (s.Spends (p.config.populationSize.value + p.config.patience)) := by
  have elite : Bred p.config.populationSize.value (p.config.patience + 1) s (.ofBest s.best)
      { s with iteration := s.iteration + 1 } :=
    ⟨Nat.le_refl 1, Nat.le_of_lt p.config.populationSize.least_le, Nat.zero_le _, .of_eq rfl _⟩
  refine .modify_bind (.get_bind ((breed_ends _ elite (Nat.le_add_right _ _)).bind ?_))
  intro bred u ⟨held, breedings, few, breeds⟩
  have room := Nat.add_sub_cancel' held.room
  refine (topUp_ends _ held (Nat.le_refl _) room).bind fun b v ⟨full, fills⟩ => ?_
  have succeeds : Ends (succeed b) v (fun _ t => t.calls = v.calls) (s.Spends
      (p.config.populationSize.value + p.config.patience)) := .modify rfl
  refine succeeds.told.bind fun _ t ⟨run, same⟩ => .get_bind (.pure ⟨?_, ?_⟩)
  · exact (full.bounded (Nat.le_refl _)).trans (.of_eq same 0)
  · exact ⟨bred, u, b, v, breedings, _, few, breeds, fills, run⟩

end

end Genetic

/-! ### Runs -/

namespace Strategy

variable {p : Plan σ} {progress : Progress Population} {w : Surroundings (σ × Calls)}

theorem step_works (p : Plan σ) (progress : Progress Population) (w : Surroundings (σ × Calls)) :
    (∃ more, (step p.logged (.genetic progress) w).2.2.memory.2 = w.memory.2 ++ more ∧
      more.length ≤ (p.config.maxAttempts.value + 1) * p.config.populationSize.value) ∧
    ∀ r s v, step p.logged (.genetic progress) w = (.ok r, s, v) →
      ∃ next, s = .genetic next ∧ Genetic.Works p ⟨progress, w⟩ ⟨next, v⟩ := by
  have ends := Genetic.step_works (p := p) ⟨progress, w⟩
  have atMost : p.config.populationSize.value + p.config.patience ≤
      (p.config.maxAttempts.value + 1) * p.config.populationSize.value := by
    have := p.config.patience_le
    rw [Nat.add_one_mul]
    omega
  unfold step
  split
  · refine ⟨⟨[], (List.append_nil _).symm, Nat.zero_le _⟩, fun r s v stepped => ?_⟩
    cases (Prod.mk.inj stepped).1
  · refine ⟨(ends.mono (fun _ _ both => both.1) fun _ spends => spends).state.mono atMost, ?_⟩
    intro r s v stepped
    obtain ⟨succeeds, rest⟩ := Prod.mk.inj stepped
    obtain ⟨rfl, rfl⟩ := Prod.mk.inj rest
    exact ⟨_, rfl, (ends.result succeeds).2⟩

end Strategy

/-- A genetic search always comes to an end with its first population and with each step, whatever
the settings, the random numbers and the evaluator.  Where the evaluator is of its mode, the search
begins, and it draws no more random candidates for the first population than tries for all its places
and as many as it has places; the loop that draws them ends by itself.  An evaluator of the other
mode fails before anything is drawn for the population.  No step makes more calls of the
evaluator than tries for all places and one more for each, whether it succeeds or fails.  With proper
settings every step succeeds, and the loops of a step that succeeds end by themselves.  The calls are
those of the same search with an evaluator that writes them down. -/
theorem Plan.reached_bounded (p : Plan σ) (genetic : p.config.algorithm = .genetic)
    (w : Surroundings σ) :
    (p.Fits → ∃ first draws last, p.begin ⟨[], ∅⟩ w = (.ok (), first) ∧
      draws ≤ p.config.maxAttempts.value * p.config.populationSize.value +
        p.config.populationSize.value ∧
      LoopEnds (Genetic.Fills p) (Rounds (Genetic.fillRound p)) (0, Genetic.founded first) draws
        (draws, last) ∧
      p.reached w 0 = .ok (.genetic last.toProgress, last.toSurroundings)) ∧
    (¬p.Fits → ∃ e first, p.begin (⟨[], ∅⟩ : Population) w = (.error e, first) ∧
      Strategy.begin p w = (.error e, first.toSurroundings)) ∧
    ∀ steps s v, p.reached w steps = .ok (s, v) →
      p.logged.reached (w.withCalls []) steps = .ok (s, v.withCalls (p.calls w steps)) ∧
        (∃ more, p.calls w (steps + 1) = p.calls w steps ++ more ∧
          more.length ≤ (p.config.maxAttempts.value + 1) * p.config.populationSize.value) ∧
        (p.Fits → p.config.Proper → ∃ r, (Strategy.step p s v).1 = .ok r) ∧
        ∀ r s' v', Strategy.step p s v = (.ok r, s', v') →
          ∃ progress next, s = .genetic progress ∧ s' = .genetic next ∧
            Genetic.Works p ⟨progress, v.withCalls (p.calls w steps)⟩
              ⟨next, v'.withCalls (p.calls w (steps + 1))⟩ := by
  refine ⟨fun fits => ?_, fun unfit => ?_, fun steps s v reached => ?_⟩
  · obtain ⟨s, begun⟩ := Strategy.begin_genetic fits genetic w
    have started : Strategy.begin p w = (.ok s, (Strategy.begin p w).2) := Prod.ext begun rfl
    rcases Strategy.begin_eq_ok started with ⟨other, -⟩ | ⟨-, last, filled, rfl, same⟩ | ⟨other, -⟩
    · exact absurd (genetic.symm.trans other) (by decide)
    · obtain ⟨first, draws, scored, few, ends⟩ := Genetic.begin_fills filled
      rw [same] at started
      exact ⟨first, draws, last, scored, few, ends, Plan.reached_of_begin started 0⟩
    · exact absurd (genetic.symm.trans other) (by decide)
  · obtain ⟨e, first, scored, failed⟩ := Genetic.begin_unfit unfit w
    refine ⟨e, first, scored, ?_⟩
    rw [Strategy.begin, genetic]
    exact congrArg (Strategy.split _) failed
  · obtain ⟨s₀, v₀, begun, final⟩ := Plan.reached_eq_ok reached
    have algorithm : s.algorithm = .genetic := by
      have := Strategy.after_algorithm p (s₀, v₀) steps
      rw [← final] at this
      exact (this.trans (Strategy.begin_algorithm begun)).trans genetic
    have held := (Plan.reached_holds p.closed_inMode trivial reached).1
    cases s with
    | lateAcceptance progress => cases algorithm
    | annealing progress => cases algorithm
    | genetic progress =>
        obtain ⟨more, works⟩ := Strategy.step_works p progress (v.withCalls (p.calls w steps))
        have logged := Plan.step_logged reached
        rw [logged] at more
        refine ⟨Plan.reached_logged reached, more, fun fits proper => ?_, fun r s' v' stepped => ?_⟩
        · exact (Strategy.step_succeeds fits proper (Strategy.inMode_iff.mpr held) v).1
        · rw [stepped] at logged
          obtain ⟨next, same, worked⟩ := works r s' _ logged
          exact ⟨progress, next, rfl, same, worked⟩

/-- Two places, one try for each, and no valid scores: the first population takes four draws at most,
and the first step succeeds with four calls at most. -/
theorem Plan.reached_bounded_unscorable :
    let p : Plan Oracle := ⟨{
      algorithm := .genetic, maxDepth := .ofNat 0, populationSize := .ofNat 2
      maxAttempts := .ofNat 1 }, unscorable⟩
    let w : Surroundings Oracle := ⟨⟨[0.0, 0.0, 0.0], 7, 0⟩, .empty 1000⟩
    p.Fits ∧ p.config.Proper ∧ ∃ draws last more r, draws ≤ 4 ∧
      LoopEnds (Genetic.Fills p) (Rounds (Genetic.fillRound p))
        (0, Genetic.founded (p.begin ⟨[], ∅⟩ w).2) draws (draws, last) ∧
      p.reached w 0 = .ok (.genetic last.toProgress, last.toSurroundings) ∧
      p.calls w 1 = p.calls w 0 ++ more ∧ more.length ≤ 4 ∧
      (Strategy.step p (.genetic last.toProgress) last.toSurroundings).1 = .ok r := by
  intro p w
  have fits : p.Fits := rfl
  have proper : p.config.Proper := by decide
  obtain ⟨begins, -, steps⟩ := p.reached_bounded rfl w
  obtain ⟨first, draws, last, started, few, ends, reached⟩ := begins fits
  obtain ⟨-, ⟨more, grown, atMost⟩, succeeds, -⟩ := steps 0 _ _ reached
  obtain ⟨r, ok⟩ := succeeds fits proper
  obtain rfl : (p.begin ⟨[], ∅⟩ w).2 = first := congrArg Prod.snd started
  exact ⟨fits, proper, draws, last, more, r, few, ends, reached, grown, atMost, ok⟩

end PrimeSearch
