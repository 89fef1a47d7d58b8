/-
Module: PrimeSearch.Proofs.Search.Population
Purpose: The population of a genetic search: its size, its table of scores, and how a generation
  follows another.
Main exports: FirstCall, Known, Stocked, Genetic.Child, Genetic.Descends, Genetic.populate_stocked,
  Genetic.step_descends, Plan.reached_stocked
-/
import PrimeSearch.Proofs.Search.Modes
import PrimeSearch.Proofs.Search.Scoring

namespace PrimeSearch

open Move

variable {σ α : Type}

/-! ### Scores that were given -/

/-- A candidate was scored after the calls `base`, and no call before was of its key. -/
def FirstCall (base calls : Calls) (c : Candidate) (given : Score) : Prop :=
  ∃ before after, calls = before ++ (c, given) :: after ∧ base <+: before ∧
    ∀ call ∈ before, call.1.key ≠ c.key

/-- A score, if there is one, is valid and was given for the key. -/
def GivenFor (calls : Calls) (key : String) (score : Option Score) : Prop :=
  ∀ given, score = some given → given.valid = true ∧ ∃ c, (c, given) ∈ calls ∧ c.key = key

section
variable {base calls more : Calls} {c : Candidate} {given : Score}

theorem FirstCall.last (after : base <+: calls) (new : ∀ call ∈ calls, call.1.key ≠ c.key) :
    FirstCall base (calls ++ [(c, given)]) c given :=
  ⟨calls, [], rfl, after, new⟩

theorem FirstCall.mono (first : FirstCall base calls c given) (grown : calls <+: more) :
    FirstCall base more c given := by
  obtain ⟨before, after, rfl, based, new⟩ := first
  obtain ⟨rest, rfl⟩ := grown
  exact ⟨before, after ++ rest, by simp, based, new⟩

theorem FirstCall.mem (first : FirstCall base calls c given) : (c, given) ∈ calls := by
  obtain ⟨before, after, rfl, -, -⟩ := first
  simp

theorem GivenFor.none (calls : Calls) (key : String) : GivenFor calls key none := by
  intro given impossible
  cases impossible

theorem GivenFor.mono {key : String} {score : Option Score} (old : GivenFor calls key score)
    (grown : calls <+: more) : GivenFor more key score := by
  intro given same
  obtain ⟨valid, c, listed, keyed⟩ := old given same
  exact ⟨valid, c, grown.subset listed, keyed⟩

/-- What a search keeps of a score was given by the call. -/
theorem GivenFor.counted (listed : (c, given) ∈ calls) :
    GivenFor calls c.key given.counted := by
  intro kept same
  unfold Score.counted at same
  split at same
  next valid =>
    obtain rfl := Option.some.inj same
    exact ⟨valid, c, listed, rfl⟩
  next => cases same

end

/-! ### What is known all the time -/

/-- Whatever was scored is marked as seen, and what the table remembers was given for its key. -/
structure Known (s : Search (σ × Calls) Population) : Prop where
  marked : ∀ call ∈ s.calls, s.seen.contains call.1.key = true
  given : ∀ (key : String) score, s.own.scores[key]? = some score → GivenFor s.calls key score

/-- A population of so many members: the table has their keys and no others, and one of them has the
key of the best candidate. -/
structure Stocked (count : Nat) (s : Search (σ × Calls) Population) : Prop extends Known s where
  size : s.own.members.length = count
  keys : ∀ key, s.own.scores.contains key = true ↔ ∃ c ∈ s.own.members, c.key = key
  best : ∃ c ∈ s.own.members, c.key = s.best.key

section
variable {p : Plan σ} {s t : Search (σ × Calls) Population} {c : Candidate}

/-- A table has the key that was entered last and those that it had. -/
theorem contains_insert_iff (scores : Std.TreeMap String (Option Score)) (key other : String)
    (score : Option Score) : (scores.insert key score).contains other = true ↔
      key = other ∨ scores.contains other = true := by
  rw [Std.TreeMap.contains_insert, Bool.or_eq_true, beq_iff_eq, Std.LawfulEqCmp.compare_eq_iff_eq]

theorem Known.scoreOf (known : Known s) (c : Candidate) :
    GivenFor s.calls c.key (Genetic.scoreOf s.own c) := by
  unfold Genetic.scoreOf
  cases remembered : s.own.scores[c.key]? with
  | none => exact .none _ _
  | some score => exact known.given c.key score remembered

theorem Known.insert (known : Known s) {score : Option Score}
    (given : GivenFor s.calls c.key score) (best : Candidate) (bestScore : Option Score) :
    Known { s with
      best, bestScore, own := { s.own with scores := s.own.scores.insert c.key score } } := by
  refine ⟨known.marked, fun key score' found => ?_⟩
  rw [Std.TreeMap.getElem?_insert] at found
  split at found
  next same =>
    obtain rfl := Std.LawfulEqCmp.eq_of_compare same
    exact Option.some.inj found ▸ given
  next => exact known.given key score' found

/-- Scoring a candidate writes one call down and marks the candidate. -/
theorem Known.evaluate (known : Known s) {Q : Option Score → Search (σ × Calls) Population → Prop}
    {E : Search (σ × Calls) Population → Prop}
    (scored : ∀ given source memory,
      Known { s with
        seen := s.seen.insert c.key, source, memory := (memory, s.calls ++ [(c, given)]) } →
      Q given.counted { s with
        seen := s.seen.insert c.key, source, memory := (memory, s.calls ++ [(c, given)]) })
    (refused : Known { s with seen := s.seen.insert c.key } →
      E { s with seen := s.seen.insert c.key }) :
    Ends (p.logged.evaluate c) s Q E := by
  apply (p.logged.evaluate_ends c s).mono
  · rintro _ _ ⟨rfl, rfl⟩
    refine scored _ _ _ ⟨?_, fun key score found => ?_⟩
    · intro call listed
      apply Scored.contains_insert
      rcases List.mem_append.mp listed with old | last
      · exact .inl (known.marked call old)
      · obtain rfl := List.mem_singleton.mp last
        exact .inr rfl
    · exact (known.given key score found).mono (List.prefix_append _ _)
  · rintro _ rfl
    exact refused ⟨fun call listed => Scored.contains_insert _ (.inl (known.marked call listed)),
      known.given⟩

/-- Recording a score enters it into the table, and may make its candidate the best one. -/
theorem Genetic.record_ends {score : Option Score}
    {Q : Unit → Search (σ × Calls) Population → Prop} {E : Search (σ × Calls) Population → Prop}
    (recorded : ∀ best bestScore, best = s.best ∨ best = c → Q () { s with
      best, bestScore, own := { s.own with scores := s.own.scores.insert c.key score } }) :
    Ends (record c score) s Q E := by
  refine .modify_bind (.bind (R := fun _ t => Q () t) ?_ fun _ _ after => .pure after)
  exact updateBest_ends (fun _ => recorded c score (.inr rfl)) fun _ =>
    recorded s.best s.bestScore (.inl rfl)

end

/-! ### The first population -/

namespace Genetic

section
variable {p : Plan σ} {s : Search (σ × Calls) Population} {count : Nat}

theorem enlarge_stocked (stocked : Stocked count s) (c : Candidate) :
    Ends (enlarge p.logged c) s (fun _ t => Stocked (count + 1) t) fun _ => True := by
  refine .bind (R := fun score t => Stocked count t ∧ GivenFor t.calls c.key score) ?_ ?_
  · refine stocked.toKnown.evaluate (fun given source memory known => ⟨?_, ?_⟩) fun _ => trivial
    · exact ⟨known, stocked.size, stocked.keys, stocked.best⟩
    · exact .counted (by simp [Search.calls])
  · rintro score t ⟨stocked, given⟩
    have enlarged : Known { t with own := { t.own with members := t.own.members ++ [c] } } :=
      ⟨stocked.marked, stocked.given⟩
    refine .modify_bind (record_ends fun best bestScore from_ => ?_)
    refine ⟨enlarged.insert given best bestScore, ?_, fun key => ?_, ?_⟩
    · simp [stocked.size]
    · rw [contains_insert_iff, stocked.keys]
      simp [or_and_right, exists_or, or_comm]
    · rcases from_ with rfl | rfl
      · obtain ⟨d, member, keyed⟩ := stocked.best
        exact ⟨d, List.mem_append_left _ member, keyed⟩
      · exact ⟨best, by simp, rfl⟩

/-- Drawing a candidate leaves a population as it is. -/
theorem drawn_stocked (stocked : Stocked count s) {d : Draw α} :
    Ends (draw d) s (fun _ t => Stocked count t) fun _ => True :=
  .draw ⟨⟨stocked.marked, stocked.given⟩, stocked.size, stocked.keys, stocked.best⟩

theorem fillAny_stocked (places : Nat) (stocked : Stocked count s) :
    Ends (fillAny p.logged places) s (fun _ t => Stocked (count + places) t) fun _ => True := by
  induction places generalizing count s with
  | zero => exact .pure stocked
  | succ places ih =>
      refine (drawn_stocked stocked).bind fun c t stocked => ?_
      refine (enlarge_stocked stocked c).bind fun _ t stocked => ?_
      rw [show count + (places + 1) = count + 1 + places by omega]
      exact ih stocked

/-- However often candidates are drawn again, all places are filled. -/
theorem fillNew_stocked (tries places : Nat) (stocked : Stocked count s) :
    Ends (fillNew p.logged tries places) s (fun _ t => Stocked (count + places) t)
      fun _ => True := by
  induction tries generalizing count places s with
  | zero => exact fillAny_stocked places stocked
  | succ tries ih =>
      cases places with
      | zero => exact .pure stocked
      | succ places =>
          refine (drawn_stocked stocked).bind fun c t stocked => ?_
          refine .get_bind (.ite (fun _ => ih (places + 1) stocked) fun _ => ?_)
          refine (enlarge_stocked stocked c).bind fun _ t stocked => ?_
          rw [show count + (places + 1) = count + 1 + places by omega]
          exact ih places stocked

/-- The first population is full. -/
theorem populate_stocked (marked : ∀ call ∈ s.calls, s.seen.contains call.1.key = true)
    (given : GivenFor s.calls s.current.key s.currentScore) (same : s.best = s.current) :
    Ends (populate p.logged) s (fun _ t => Stocked p.config.populationSize.value t)
      fun _ => True := by
  have alone : Stocked 1 ({ s with
      own := ⟨[s.current], Std.TreeMap.empty.insert s.current.key s.currentScore⟩ } :
        Search (σ × Calls) Population) := by
    refine ⟨⟨marked, fun key score found => ?_⟩, rfl, fun key => ?_, ?_⟩
    · rw [Std.TreeMap.getElem?_insert] at found
      split at found
      next keyed =>
        obtain rfl := Std.LawfulEqCmp.eq_of_compare keyed
        exact Option.some.inj found ▸ given
      next => simp at found
    · rw [contains_insert_iff]
      simp
    · exact ⟨s.current, by simp, congrArg Candidate.key same.symm⟩
  have places := p.config.populationSize.least_le
  have filled := fillNew_stocked (p := p) p.config.patience (p.config.populationSize.value - 1) alone
  rw [Nat.add_sub_cancel' (by omega)] at filled
  exact .modify_bind filled

end

/-- A genetic search begins with a full population. -/
theorem begin_stocked {p : Plan σ} {w : Surroundings σ} {s : Search (σ × Calls) Population}
    (begun : Genetic.begin p.logged (w.withCalls []) = (.ok (), s)) :
    Stocked p.config.populationSize.value s := by
  obtain ⟨first, started, populated⟩ := begin_eq_ok begun
  have marked := (Plan.begin_scored 0 _ started).1.marked
  have fresh : Ends p.logged.scoreFirst (p.logged.unscored (⟨[], ∅⟩ : Population) (w.withCalls []))
      (fun _ t => GivenFor t.calls t.current.key t.currentScore ∧ t.best = t.current)
      fun _ => True := by
    refine .get_bind (((p.logged.evaluate_ends _ _).mono (fun _ _ after => after)
      fun _ _ => trivial).bind ?_)
    rintro _ _ ⟨rfl, rfl⟩
    exact .modify ⟨.counted (List.mem_append_right _ (List.mem_singleton_self _)), rfl⟩
  have after := fresh.result (congrArg Prod.fst started)
  rw [Plan.begin_eq] at started
  rw [started] at after
  have ends := (populate_stocked (p := p) marked after.1 after.2).result
    (congrArg Prod.fst populated)
  rwa [populated] at ends

/-! ### A generation

A brood is bred from the members that a step finds, and no member changes before the step ends.  What
is known of a child holds from its admission to the end of the step: no candidate of its key is
scored again, and a remembered score is only ever recorded as it is.
-/

/-- A child that a step took in: the evaluator scored it during the step, when neither the search had
seen it nor any call had its key, and it is remembered with the valid score that it was given. -/
def Child (start s : Search (σ × Calls) Population) (c : Candidate) : Prop :=
  ∃ given, FirstCall start.calls s.calls c given ∧ given.valid = true ∧
    start.seen.contains c.key = false ∧ s.own.scores[c.key]? = some (some given)

/-- Within a step nothing is forgotten that was known when it began, and its members are still the
same. -/
structure Pending (start s : Search (σ × Calls) Population) : Prop extends Known s where
  grown : start.calls <+: s.calls
  seen : ∀ key, start.seen.contains key = true → s.seen.contains key = true
  members : s.own.members = start.own.members

/-- A generation begins with the best candidate of before, and children follow. -/
def Family (start s : Search (σ × Calls) Population) (generation : List Candidate) : Prop :=
  ∃ children, generation = start.best :: children ∧ ∀ c ∈ children, Child start s c

/-- A brood that has room for its children, which all have keys of their own. -/
structure Raised (size : Nat) (start : Search (σ × Calls) Population) (b : Brood)
    (s : Search (σ × Calls) Population) : Prop extends Pending start s where
  room : b.members.length ≤ size
  keys : ∀ c ∈ b.members, b.keys.contains c.key = true
  distinct : (b.members.map Candidate.key).Nodup
  family : Family start s b.members
  best : ∃ c ∈ b.members, c.key = s.best.key

section
variable {p : Plan σ} {size : Nat} {b : Brood} {start s t : Search (σ × Calls) Population}
  {c : Candidate}

theorem Child.mono (child : Child start s c) (grown : s.calls <+: t.calls)
    (remembered : t.own.scores[c.key]? = s.own.scores[c.key]?) : Child start t c := by
  obtain ⟨given, first, valid, unseen, found⟩ := child
  exact ⟨given, first.mono grown, valid, unseen, remembered.trans found⟩

theorem Family.mono {generation : List Candidate} (family : Family start s generation)
    (grown : s.calls <+: t.calls)
    (remembered : ∀ c ∈ generation, Child start s c →
      t.own.scores[c.key]? = s.own.scores[c.key]?) : Family start t generation := by
  obtain ⟨children, rfl, taken⟩ := family
  refine ⟨children, rfl, fun c listed => (taken c listed).mono grown ?_⟩
  exact remembered c (List.mem_cons_of_mem _ listed) (taken c listed)

theorem Pending.quiet (pending : Pending start s) (quiet : Quiet s t) : Pending start t := by
  obtain ⟨source, -, rfl⟩ := quiet
  exact ⟨⟨pending.marked, pending.given⟩, pending.grown, pending.seen, pending.members⟩

/-- Scoring a candidate adds its call and forgets nothing. -/
theorem Pending.evaluate (pending : Pending start s)
    {Q : Option Score → Search (σ × Calls) Population → Prop}
    (scored : ∀ given t, Pending start t → t.calls = s.calls ++ [(c, given)] → t.own = s.own →
      t.best = s.best → Q given.counted t) :
    Ends (p.logged.evaluate c) s Q (Pending start) := by
  have seen (key : String) (old : start.seen.contains key = true) :
      (s.seen.insert c.key).contains key = true :=
    Scored.contains_insert _ (.inl (pending.seen key old))
  refine pending.toKnown.evaluate (fun given source memory known => ?_) fun known => ?_
  · refine scored given _ ⟨known, ?_, seen, pending.members⟩ rfl rfl rfl
    exact pending.grown.trans (List.prefix_append _ _)
  · exact ⟨known, pending.grown, seen, pending.members⟩

theorem Pending.insert (pending : Pending start s) {score : Option Score}
    (given : GivenFor s.calls c.key score) (best : Candidate) (bestScore : Option Score) :
    Pending start { s with
      best, bestScore, own := { s.own with scores := s.own.scores.insert c.key score } } :=
  ⟨pending.toKnown.insert given best bestScore, pending.grown, pending.seen, pending.members⟩

/-- More calls do no harm to a brood. -/
theorem Raised.advance (raised : Raised size start b s) (pending : Pending start t)
    (grown : s.calls <+: t.calls) (own : t.own = s.own) (best : t.best = s.best) :
    Raised size start b t := by
  refine ⟨pending, raised.room, raised.keys, raised.distinct, ?_, best ▸ raised.best⟩
  exact raised.family.mono grown fun c _ _ => by rw [own]

theorem Raised.draws {β : Type} {m : Move (σ × Calls) Population α}
    {f : α → Move (σ × Calls) Population β} {Q : β → Search (σ × Calls) Population → Prop}
    (raised : Raised size start b s) (only : m.OnlyDraws)
    (rest : ∀ a t, Raised size start b t → (f a).Ends t Q (Pending start)) :
    (m >>= f).Ends s Q (Pending start) := by
  have quietly (t) (quiet : Quiet s t) : Raised size start b t := by
    have pending := raised.toPending.quiet quiet
    obtain ⟨source, -, rfl⟩ := quiet
    exact raised.advance pending List.prefix_rfl rfl rfl
  exact ((only s).mono (fun _ t => quietly t) fun t quiet => (quietly t quiet).toPending).bind rest

theorem Raised.refuse (raised : Raised size start b s) : Raised size start b.refuse s :=
  ⟨raised.toPending, raised.room, raised.keys, raised.distinct, raised.family, raised.best⟩

/-- Whoever is best once a candidate was recorded has a key of the brood that takes it in. -/
theorem best_accept {best : Candidate} (held : ∃ d ∈ b.members, d.key = s.best.key)
    (from_ : best = s.best ∨ best = c) : ∃ d ∈ (b.accept c).members, d.key = best.key := by
  rcases from_ with rfl | rfl
  · obtain ⟨d, member, keyed⟩ := held
    exact ⟨d, List.mem_append_left _ member, keyed⟩
  · exact ⟨best, List.mem_append_right _ (List.mem_singleton_self _), rfl⟩

theorem keys_accept (keys : ∀ d ∈ b.members, b.keys.contains d.key = true) :
    ∀ d ∈ (b.accept c).members, (b.accept c).keys.contains d.key = true := by
  intro d member
  apply Scored.contains_insert
  rcases List.mem_append.mp member with old | last
  · exact .inl (keys d old)
  · obtain rfl := List.mem_singleton.mp last
    exact .inr rfl

theorem distinct_accept (distinct : (b.members.map Candidate.key).Nodup)
    (other : ∀ d ∈ b.members, c.key ≠ d.key) : ((b.accept c).members.map Candidate.key).Nodup := by
  rw [Brood.accept, List.map_append, List.nodup_append]
  refine ⟨distinct, List.nodup_singleton _, fun key held key' last => ?_⟩
  obtain ⟨d, member, rfl⟩ := List.mem_map.mp held
  obtain rfl := List.mem_singleton.mp last
  exact (other d member).symm

/-- A generation with one more child, whose score is remembered. -/
theorem Family.accept (family : Family start s b.members) {given : Score}
    (other : ∀ d ∈ b.members, c.key ≠ d.key) (first : FirstCall start.calls s.calls c given)
    (valid : given.valid = true) (unseen : start.seen.contains c.key = false)
    (calls : t.calls = s.calls)
    (remembered : t.own.scores = s.own.scores.insert c.key (some given)) :
    Family start t (b.accept c).members := by
  obtain ⟨children, all, taken⟩ := family
  refine ⟨children ++ [c], by rw [Brood.accept, all, List.cons_append], fun d listed => ?_⟩
  rcases List.mem_append.mp listed with old | last
  · refine (taken d old).mono (calls ▸ List.prefix_rfl) ?_
    have distinct := other d (all ▸ List.mem_cons_of_mem _ old)
    rw [remembered, Std.TreeMap.getElem?_insert, if_neg]
    simpa [Std.LawfulEqCmp.compare_eq_iff_eq] using distinct
  · obtain rfl := List.mem_singleton.mp last
    refine ⟨given, calls ▸ first, valid, unseen, ?_⟩
    rw [remembered, Std.TreeMap.getElem?_insert_self]

/-- A child with a new key is taken in with its score. -/
theorem Raised.accept (raised : Raised size start b s) {given : Score}
    (new : b.keys.contains c.key = false) (room : b.members.length < size)
    (first : FirstCall start.calls s.calls c given) (valid : given.valid = true)
    (unseen : start.seen.contains c.key = false) (best current : Candidate)
    (bestScore currentScore : Option Score) (from_ : best = s.best ∨ best = c) :
    Raised size start (b.accept c) { s with
      best, bestScore, current, currentScore
      own := { s.own with scores := s.own.scores.insert c.key (some given) } } := by
  have other (d) (member : d ∈ b.members) : c.key ≠ d.key := by
    intro same
    rw [same, raised.keys d member] at new
    cases new
  have counted : GivenFor s.calls c.key (some given) := fun _ same =>
    Option.some.inj same ▸ ⟨valid, c, first.mem, rfl⟩
  have pending := raised.toPending.insert counted best bestScore
  constructor
  · exact ⟨⟨pending.marked, pending.given⟩, pending.grown, pending.seen, pending.members⟩
  · rw [Brood.accept, List.length_append]
    exact room
  · exact keys_accept raised.keys
  · exact distinct_accept raised.distinct other
  · exact raised.family.accept other first valid unseen rfl rfl
  · exact best_accept raised.best from_

/-- A child is taken in only where there is room, and where it is new and can be scored. -/
theorem offer_raised (child : Candidate)
    (raised : Raised p.config.populationSize.value start b s) :
    Ends (offer p.logged b child) s
      (fun b t => Raised p.config.populationSize.value start b t) (Pending start) := by
  refine .ite (fun _ => .pure raised) fun full => ?_
  refine raised.draws (mutateChild_onlyDraws p.logged child) fun c t raised => ?_
  refine .get_bind (.ite (fun _ => .pure raised.refuse) fun new => ?_)
  rw [Bool.or_eq_true, not_or, Bool.not_eq_true, Bool.not_eq_true] at new
  have unseen : start.seen.contains c.key = false := by
    cases seen : start.seen.contains c.key with
    | false => rfl
    | true => exact absurd (new.1.symm.trans (raised.seen c.key seen)) (by decide)
  refine .bind (R := fun score u => ∃ given, score = given.counted ∧
    Raised p.config.populationSize.value start b u ∧
      FirstCall start.calls u.calls c given) ?_ ?_
  · refine raised.toPending.evaluate fun given u pending calls own best => ⟨given, rfl, ?_, ?_⟩
    · exact raised.advance pending (calls ▸ List.prefix_append _ _) own best
    · rw [calls]
      refine .last raised.grown fun call listed same => ?_
      have seen := raised.marked call listed
      rw [same] at seen
      exact absurd (new.1.symm.trans seen) (by decide)
  · rintro score u ⟨given, rfl, raised, first⟩
    cases valid : given.valid with
    | false =>
        have counted : given.counted = none := by simp [Score.counted, valid]
        rw [counted]
        exact .pure raised.refuse
    | true =>
        have counted : given.counted = some given := by simp [Score.counted, valid]
        rw [counted]
        refine .bind (R := fun _ v => Raised p.config.populationSize.value start (b.accept c)
          { v with current := c, currentScore := some given }) ?_ fun _ v accepted => ?_
        · refine record_ends fun best bestScore from_ => ?_
          exact raised.accept new.2 (Nat.lt_of_not_le full) first valid unseen best c bestScore
            (some given) from_
        · exact .modify_bind (.pure accepted)

theorem breed_raised (rounds : Nat) (raised : Raised p.config.populationSize.value start b s) :
    Ends (breed p.logged rounds b) s
      (fun b t => Raised p.config.populationSize.value start b t) (Pending start) := by
  induction rounds generalizing b s with
  | zero => exact .pure raised
  | succ rounds ih =>
      refine .ite (fun _ => ?_) fun _ => .pure raised
      refine raised.draws (selectParent_onlyDraws _) fun first t raised => ?_
      refine raised.draws (selectParent_onlyDraws _) fun second t raised => ?_
      refine raised.draws (.attempt (Operators.crossover_advances _ _ _))
        fun (one, other) t raised => ?_
      refine .bind (offer_raised one raised) fun b t raised => ?_
      exact .bind (offer_raised other raised) fun b t raised => ih raised

/-- A brood that was bred, and candidates that fill it. -/
structure Filled (start : Search (σ × Calls) Population) (bred b : Brood)
    (s : Search (σ × Calls) Population) : Prop extends Pending start s where
  fill : bred.members <+: b.members
  family : Family start s bred.members
  best : ∃ c ∈ b.members, c.key = s.best.key

/-- A candidate is filled in with a score that is remembered of its key or was just given for it, so
that the children keep their scores. -/
theorem Filled.accept {bred : Brood} (filled : Filled start bred b s) {score : Option Score}
    (given : GivenFor s.calls c.key score)
    (kept : ∀ d, Child start s d → d.key = c.key → s.own.scores[d.key]? = some score) :
    Ends (record c score) s (fun _ t => Filled start bred (b.accept c) t) (Pending start) := by
  refine record_ends fun best bestScore from_ => ?_
  refine ⟨filled.toPending.insert given best bestScore, ?_, ?_, ?_⟩
  · exact filled.fill.trans (List.prefix_append _ _)
  · refine filled.family.mono List.prefix_rfl fun d _ child => ?_
    rw [Std.TreeMap.getElem?_insert]
    split
    next same => exact (kept d child (Std.LawfulEqCmp.eq_of_compare same).symm).symm
    next => rfl
  · exact best_accept filled.best from_

/-- A candidate that was not seen has a key of its own: no child has it. -/
theorem Filled.evaluate {bred : Brood} (filled : Filled start bred b s)
    (new : s.seen.contains c.key ≠ true) :
    Ends (p.logged.evaluate c) s (fun score t => Filled start bred b t ∧
      GivenFor t.calls c.key score ∧ ∀ d, Child start t d → d.key ≠ c.key) (Pending start) := by
  refine filled.toPending.evaluate fun given t pending calls own best => ⟨?_, ?_, ?_⟩
  · refine ⟨pending, filled.fill, ?_, best ▸ filled.best⟩
    exact filled.family.mono (calls ▸ List.prefix_append _ _) fun d _ _ => by rw [own]
  · exact .counted (by simp [calls])
  · -- A remembered score was given by a call, and the candidate was not seen by then.
    rintro d ⟨given', -, -, -, found⟩ same
    rw [own] at found
    obtain ⟨-, e, listed, keyed⟩ := filled.given d.key _ found given' rfl
    have seen := filled.marked _ listed
    exact new (by rwa [keyed, same] at seen)

/-- All places are filled, with candidates that may have been seen. -/
theorem topUp_filled {bred : Brood} (places : Nat) (filled : Filled start bred b s) :
    Ends (topUp p.logged places b) s
      (fun b' t => Filled start bred b' t ∧ b'.members.length = b.members.length + places)
      (Pending start) := by
  induction places generalizing b s with
  | zero => exact .pure ⟨filled, rfl⟩
  | succ places ih =>
      have rest {c : Candidate} {score : Option Score} {t : Search (σ × Calls) Population}
          (accepted : Ends (record c score) t (fun _ u => Filled start bred (b.accept c) u)
            (Pending start)) : Ends (do
              record c score
              topUp p.logged places (b.accept c)) t (fun b' u => Filled start bred b' u ∧
                b'.members.length = b.members.length + (places + 1)) (Pending start) := by
        refine accepted.bind fun _ u filled => (ih filled).mono ?_ fun _ after => after
        rintro b' v ⟨filled, length⟩
        refine ⟨filled, ?_⟩
        rw [length, Brood.accept, List.length_append, List.length_singleton]
        omega
      refine .bind (R := fun _ t => Filled start bred b t) (.draw ?_) fun c t filled => ?_
      · exact ⟨⟨⟨filled.marked, filled.given⟩, filled.grown, filled.seen, filled.members⟩,
          filled.fill, filled.family, filled.best⟩
      refine .get_bind ?_
      dsimp only
      refine .ite (fun _ => .get_bind ?_) fun new => ?_
      · rw [pure_bind]
        refine rest (filled.accept (filled.toKnown.scoreOf c) fun d child same => ?_)
        obtain ⟨given, -, -, -, found⟩ := child
        rw [scoreOf, ← same, found]
        rfl
      · refine (filled.evaluate new).bind fun score u ⟨filled, given, others⟩ => ?_
        exact rest (filled.accept given fun d child same => absurd same (others d child))

/-- The table that is made for members looks every key up in the old table. -/
theorem getElem_scores (own : Population) (members : List Candidate)
    (scores : Std.TreeMap String (Option Score)) (key : String) :
    (members.foldl (fun scores c => scores.insert c.key (scoreOf own c)) scores)[key]? =
      if ∃ c ∈ members, c.key = key then some (own.scores[key]?).join else scores[key]? := by
  induction members generalizing scores with
  | nil => simp
  | cons c members ih =>
      rw [List.foldl_cons, ih]
      by_cases later : ∃ d ∈ members, d.key = key
      · rw [if_pos later, if_pos (by simp [later])]
      · rw [if_neg later, Std.TreeMap.getElem?_insert]
        by_cases same : c.key = key
        · subst same
          simp [scoreOf]
        · have none : ¬∃ d ∈ c :: members, d.key = key := by simpa [same] using later
          rw [if_neg none, if_neg (by simpa [Std.LawfulEqCmp.compare_eq_iff_eq] using same)]

/-- A full brood becomes the population. -/
theorem succeed_stocked {bred : Brood} (filled : Filled start bred b s)
    (full : b.members.length = size) {E : Search (σ × Calls) Population → Prop} :
    Ends (succeed b) s (fun _ t => Stocked size t ∧ t.own.members = b.members ∧
      Family start t bred.members) E := by
  have found (key : String) := getElem_scores s.own b.members Std.TreeMap.empty key
  refine .modify ⟨⟨⟨filled.marked, fun key score entry => ?_⟩, full, fun key => ?_, filled.best⟩,
    rfl, filled.family.mono List.prefix_rfl fun c member child => ?_⟩
  · rw [found] at entry
    split at entry
    next held =>
      obtain ⟨c, -, rfl⟩ := held
      exact Option.some.inj entry ▸ filled.toKnown.scoreOf c
    next => simp at entry
  · rw [← Std.TreeMap.isSome_getElem?_eq_contains, found]
    split
    next held => simpa using held
    next none => simpa using none
  · obtain ⟨given, -, -, -, remembered⟩ := child
    have held : ∃ d ∈ b.members, d.key = c.key := ⟨c, filled.fill.subset member, rfl⟩
    rw [found, if_pos held, remembered]
    rfl

/-- How a generation follows another: the candidate that was best is its first member, the children
that the step breeds follow, and whatever fills it comes last.  The best and the children all have
keys of their own. -/
def Descends (p : Plan σ) (s t : Search (σ × Calls) Population) : Prop :=
  ∃ b u children fill,
    (breed p.logged (p.config.populationSize.value + p.config.patience) (.ofBest s.best)).run.run
        { s with iteration := s.iteration + 1 } = (.ok b, u) ∧
      b.members = s.best :: children ∧ t.own.members = s.best :: children ++ fill ∧
      ((s.best :: children).map Candidate.key).Nodup ∧ ∀ c ∈ children, Child s t c

/-- Whatever the population was like, the next one is full. -/
theorem step_descends (known : Known s) :
    Ends (step p.logged) s
      (fun _ t => Stocked p.config.populationSize.value t ∧ Descends p s t) (Pending s) := by
  have places := p.config.populationSize.least_le
  have elite : Raised p.config.populationSize.value s (.ofBest s.best)
      { s with iteration := s.iteration + 1 } := by
    refine ⟨⟨⟨known.marked, known.given⟩, List.prefix_rfl, fun _ old => old, rfl⟩, ?_, ?_, ?_, ?_, ?_⟩
    · exact Nat.le_of_lt places
    · simp [Brood.ofBest]
    · exact List.nodup_singleton _
    · exact ⟨[], rfl, by simp⟩
    · exact ⟨s.best, by simp [Brood.ofBest], rfl⟩
  refine .modify_bind (.get_bind ((breed_raised _ elite).told.bind fun bred u ⟨run, raised⟩ => ?_))
  have filled : Filled s bred bred u :=
    ⟨raised.toPending, List.prefix_rfl, raised.family, raised.best⟩
  refine (topUp_filled _ filled).bind fun b v ⟨filled, length⟩ => ?_
  have full : b.members.length = p.config.populationSize.value := by
    rw [length]
    exact Nat.add_sub_cancel' raised.room
  refine (succeed_stocked filled full).bind fun _ t ⟨stocked, members, family⟩ => ?_
  refine .get_bind (.pure ⟨stocked, ?_⟩)
  obtain ⟨fill, filledBy⟩ := filled.fill
  obtain ⟨children, all, taken⟩ := family
  refine ⟨bred, u, children, fill, run, all, ?_, all ▸ raised.distinct, taken⟩
  rw [members, ← filledBy, all]

end

end Genetic

/-! ### Runs -/

namespace Strategy

/-- A genetic search of which all is known that was scored, with as many members as there should
be. -/
def Populated (size : Nat) (x : Strategy × Surroundings (σ × Calls)) : Prop :=
  ∃ progress, x.1 = .genetic progress ∧ progress.own.members.length = size ∧
    Known (⟨progress, x.2⟩ : Search (σ × Calls) Population)

variable {p : Plan σ}

theorem begin_stocked (genetic : p.config.algorithm = .genetic) {w : Surroundings σ} {s : Strategy}
    {v : Surroundings (σ × Calls)} (begun : begin p.logged (w.withCalls []) = (.ok s, v)) :
    ∃ progress, s = .genetic progress ∧
      Stocked p.config.populationSize.value (⟨progress, v⟩ : Search (σ × Calls) Population) := by
  rcases begin_eq_ok begun with ⟨other, -⟩ | ⟨-, t, started, rfl, rfl⟩ | ⟨other, -⟩
  · exact absurd (genetic.symm.trans other) (by decide)
  · exact ⟨_, rfl, Genetic.begin_stocked started⟩
  · exact absurd (genetic.symm.trans other) (by decide)

/-- A step that succeeds leaves a full population, which descends from the one before. -/
theorem step_stocked {progress : Progress Population} {w v : Surroundings (σ × Calls)} {s : Strategy}
    {r : StepResult} (known : Known (⟨progress, w⟩ : Search (σ × Calls) Population))
    (stepped : step p.logged (.genetic progress) w = (.ok r, s, v)) :
    ∃ next, s = .genetic next ∧
      Stocked p.config.populationSize.value (⟨next, v⟩ : Search (σ × Calls) Population) ∧
        Genetic.Descends p ⟨progress, w⟩ ⟨next, v⟩ := by
  unfold step at stepped
  split at stepped
  · cases (Prod.mk.inj stepped).1
  · obtain ⟨succeeds, rest⟩ := Prod.mk.inj stepped
    obtain ⟨rfl, rfl⟩ := Prod.mk.inj rest
    exact ⟨_, rfl, (Genetic.step_descends known).result succeeds⟩

/-- A step that fails leaves the members as they were. -/
theorem step_populated {x : Strategy × Surroundings (σ × Calls)}
    (populated : Populated p.config.populationSize.value x) :
    Populated p.config.populationSize.value (step p.logged x.1 x.2).2 := by
  obtain ⟨⟨_, w⟩, progress, rfl, size, known⟩ := x, populated
  unfold step
  split
  · exact ⟨_, rfl, size, known.marked, known.given⟩
  · have ends : Move.Ends (Genetic.step p.logged) ⟨progress, w⟩ (fun _ t =>
        t.own.members.length = p.config.populationSize.value ∧ Known t) (fun t =>
          t.own.members.length = p.config.populationSize.value ∧ Known t) :=
      (Genetic.step_descends known).mono (fun _ t after => ⟨after.1.size, after.1.toKnown⟩)
        fun t pending => ⟨pending.members ▸ size, pending.toKnown⟩
    exact ⟨_, rfl, ends.state⟩

theorem after_populated {start : Strategy × Surroundings (σ × Calls)}
    (populated : Populated p.config.populationSize.value start) (steps : Nat) :
    Populated p.config.populationSize.value (after p.logged start steps) := by
  induction steps with
  | zero => exact populated
  | succ steps ih => exact step_populated ih

end Strategy

/-- The population of a genetic search is always of the size that its settings ask for.  When the
search begins and after each step that it takes, the table of scores has the keys of the members and
no others, with valid scores that the evaluator gave for them or none, and some member has the key of
the best candidate.  The first member is the one that was best before the step; the children that the
step bred follow, each scored when its key had not been seen and with a key that no member before it
has.  The search begins where the evaluator is of its mode, and with proper settings every step is
taken.  The calls are those of the same search with an evaluator that writes them down. -/
theorem Plan.reached_stocked (p : Plan σ) (genetic : p.config.algorithm = .genetic)
    (w : Surroundings σ) :
    (p.Fits → ∃ x, p.reached w 0 = .ok x) ∧
      ∀ steps s v, p.reached w steps = .ok (s, v) →
        p.logged.reached (w.withCalls []) steps = .ok (s, v.withCalls (p.calls w steps)) ∧
          (p.Fits → p.config.Proper → ∃ r, (Strategy.step p s v).1 = .ok r) ∧
          ∃ progress, s = .genetic progress ∧
            progress.own.members.length = p.config.populationSize.value ∧
            (steps = 0 → Stocked p.config.populationSize.value
              ⟨progress, v.withCalls (p.calls w steps)⟩) ∧
            ∀ r s' v', Strategy.step p s v = (.ok r, s', v') → ∃ next, s' = .genetic next ∧
              Stocked p.config.populationSize.value ⟨next, v'.withCalls (p.calls w (steps + 1))⟩ ∧
              Genetic.Descends p ⟨progress, v.withCalls (p.calls w steps)⟩
                ⟨next, v'.withCalls (p.calls w (steps + 1))⟩ := by
  refine ⟨fun fits => ?_, fun steps s v reached => ⟨Plan.reached_logged reached, ?_, ?_⟩⟩
  · obtain ⟨s, begun⟩ := Strategy.begin_genetic fits genetic w
    exact ⟨_, Plan.reached_of_begin (Prod.ext begun rfl) 0⟩
  · intro fits proper
    have held := (Plan.reached_holds p.closed_inMode trivial reached).1
    exact (Strategy.step_succeeds fits proper (Strategy.inMode_iff.mpr held) v).1
  · have logged := Plan.reached_logged reached
    obtain ⟨start, u, begun, final⟩ := Plan.reached_eq_ok logged
    obtain ⟨first, rfl, stocked⟩ := Strategy.begin_stocked genetic begun
    have populated : Strategy.Populated p.config.populationSize.value (.genetic first, u) :=
      ⟨first, rfl, stocked.size, stocked.toKnown⟩
    have ends := Strategy.after_populated populated steps
    rw [← final] at ends
    obtain ⟨progress, rfl, size, known⟩ := ends
    refine ⟨progress, rfl, size, ?_, ?_⟩
    · rintro rfl
      obtain ⟨same, rfl⟩ := Prod.mk.inj final
      obtain rfl := Strategy.genetic.inj same
      exact stocked
    · intro r s' v' stepped
      have step := Plan.step_logged reached
      rw [stepped] at step
      exact Strategy.step_stocked known step

/-- Two steps of a search with two members. -/
theorem Plan.reached_stocked_leaves :
    let p : Plan Oracle := ⟨{
      algorithm := .genetic, maxDepth := .ofNat 1, populationSize := .ofNat 2 },
      PrimeShare.evaluator ⟨3, 3.0⟩⟩
    let w : Surroundings Oracle := ⟨⟨[0.1, 0.3, 0.0, 0.6], 7, 0⟩, .empty 1000⟩
    p.Fits ∧ p.config.Proper ∧ ∃ progress v next v',
      p.reached w 1 = .ok (.genetic progress, v) ∧ p.reached w 2 = .ok (.genetic next, v') ∧
        Stocked 2 (⟨next, v'.withCalls (p.calls w 2)⟩ : Search (Oracle × Calls) Population) ∧
        Genetic.Descends p ⟨progress, v.withCalls (p.calls w 1)⟩
          ⟨next, v'.withCalls (p.calls w 2)⟩ := by
  intro p w
  have fits : p.Fits := rfl
  have proper : p.config.Proper := by decide
  obtain ⟨begins, runs⟩ := p.reached_stocked rfl w
  obtain ⟨x, begun⟩ := begins fits
  have one := Plan.reached_succ begun
  obtain ⟨-, succeeds, progress, same, -, -, steps⟩ := runs 1 _ _ one
  obtain ⟨r, stepped⟩ := succeeds fits proper
  obtain ⟨next, same', stocked, descends⟩ := steps r _ _ (Prod.ext stepped rfl)
  have two := Plan.reached_succ one
  refine ⟨fits, proper, progress, _, next, _, ?_, ?_, stocked, descends⟩
  · rw [one, ← same]
  · rw [two, ← same']

end PrimeSearch
