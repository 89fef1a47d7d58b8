/-
Module: PrimeSearch.Proofs.Search.Tournament
Purpose: A parent is the first of the best members that win a place of its tournament.
Main exports: Population.Comparable, Population.Draws, Place, Genetic.compete_ends,
  Genetic.selectParent_ends, Strategy.selectParent_foremost
-/
import Mathlib.Data.List.Iterate
import PrimeSearch.Proofs.Search.Best
import PrimeSearch.Proofs.Search.Modes

namespace PrimeSearch

open Binary64

/-!
Each number of the source draws one member.  How many numbers a place of a tournament takes depends on
the members that they draw, so a place is described by its draws: members without a score and then the
winner.  The draws of all places, one after the other, are what the source draws from where it was.
-/

variable {σ : Type}

namespace Population

variable {own : Population} {populated : 0 < own.members.length}

/-- The member that a number draws. -/
def pick (own : Population) (populated : 0 < own.members.length) (u : Float) : Candidate :=
  own.members.get ⟨Draw.indexOf own.members.length u, Draw.indexOf_lt populated u⟩

/-- The members that the next numbers of a source draw. -/
def picks (own : Population) (populated : 0 < own.members.length) (source : Source)
    (count : Nat) : List Candidate :=
  (List.iterate Source.advance source count).map fun s => own.pick populated s.next.1

/-- These members are drawn from the first source, one number for each, which leaves the second. -/
structure Draws (own : Population) (populated : 0 < own.members.length) (source : Source)
    (draws : List Candidate) (rest : Source) : Prop where
  drawn : draws = own.picks populated source draws.length
  left : rest = Source.advance^[draws.length] source

theorem Draws.none (source : Source) : own.Draws populated source [] source := ⟨rfl, rfl⟩

theorem Draws.one (source : Source) :
    own.Draws populated source [own.pick populated source.next.1] source.advance := ⟨rfl, rfl⟩

theorem Draws.append {s t u : Source} {a b : List Candidate}
    (first : own.Draws populated s a t) (second : own.Draws populated t b u) :
    own.Draws populated s (a ++ b) u := by
  obtain ⟨drawn, rfl⟩ := first
  obtain ⟨drawn', rfl⟩ := second
  constructor
  · rw [List.length_append, picks, List.iterate_add, List.map_append]
    exact congrArg₂ (· ++ ·) drawn drawn'
  · rw [List.length_append, Nat.add_comm, Function.iterate_add_apply]

/-! ### Scores -/

/-- Every score of the table is valid, with a total above minus infinity. -/
def Comparable (own : Population) : Prop :=
  ∀ (key : String) score, own.scores[key]? = some (some score) →
    score.valid = true ∧ -infinity < score.total

/-- What a member counts in a comparison. -/
def rank (own : Population) (c : Candidate) : Float := effective (Genetic.scoreOf own c)

theorem rank_of_unscored {c : Candidate} (unscored : Genetic.scoreOf own c = none) :
    own.rank c = -infinity := by
  rw [rank, unscored]
  rfl

theorem Comparable.lt_rank (comparable : own.Comparable) {c : Candidate}
    (scored : Genetic.scoreOf own c ≠ none) : -infinity < own.rank c := by
  obtain ⟨score, given⟩ := Option.ne_none_iff_exists'.mp scored
  obtain ⟨valid, above⟩ := comparable c.key score (Option.join_eq_some_iff.mp given)
  rw [rank, given, effective, if_pos valid]
  exact above

theorem Comparable.number (comparable : own.Comparable) (c : Candidate) :
    decode (own.rank c) ≠ .nan := by
  by_cases unscored : Genetic.scoreOf own c = none
  · rw [rank_of_unscored unscored, decode_bottom]
    simp
  · exact ((lt_iff _ _).mp (comparable.lt_rank unscored)).2.1

end Population

/-! ### Places -/

/-- The draws for a place of a tournament, of which there are at most so many.  The member that is drawn
last wins the place.  The members before it have no score; the winner has none only when no further draw
was left. -/
structure Place (own : Population) (most : Nat) where
  passed : List Candidate
  winner : Candidate
  unscored : ∀ c ∈ passed, Genetic.scoreOf own c = none
  atMost : passed.length < most
  spent : Genetic.scoreOf own winner = none → passed.length + 1 = most

namespace Place

variable {own : Population} {most : Nat}

/-- All draws for a place. -/
def draws (place : Place own most) : List Candidate := place.passed ++ [place.winner]

/-- The place that a member wins at once. -/
def ofWinner (c : Candidate) (scored : Genetic.scoreOf own c = none → most = 0) :
    Place own (most + 1) :=
  ⟨[], c, by simp, Nat.succ_pos most, fun unscored => by simp [scored unscored]⟩

/-- The place for which a member without a score is drawn first. -/
def pass (c : Candidate) (unscored : Genetic.scoreOf own c = none) (place : Place own most) :
    Place own (most + 1) where
  passed := c :: place.passed
  winner := place.winner
  unscored := List.forall_mem_cons.mpr ⟨unscored, place.unscored⟩
  atMost := Nat.succ_lt_succ place.atMost
  spent unscored := congrArg Nat.succ (place.spent unscored)

theorem unscored_of_winner {place : Place own most}
    (unscored : Genetic.scoreOf own place.winner = none) :
    ∀ c ∈ place.draws, Genetic.scoreOf own c = none := by
  intro c drawn
  rcases List.mem_append.mp drawn with passed | last
  · exact place.unscored c passed
  · obtain rfl := List.mem_singleton.mp last
    exact unscored

end Place

/-! ### Tournaments -/

namespace Genetic

variable {s : Search σ Population} {E : Search σ Population → Prop}

theorem drawMember_ends (populated : 0 < s.own.members.length) :
    drawMember.Ends s (fun c t => c = s.own.pick populated s.source.next.1 ∧
      t = { s with source := s.source.advance }) E := by
  obtain ⟨⟨iteration, seen, current, currentScore, best, bestScore, ⟨members, scores⟩⟩, w⟩ := s
  cases members with
  | nil => exact absurd populated (Nat.lt_irrefl 0)
  | cons first rest => exact .get_bind (.draw ⟨rfl, rfl⟩)

/-- A member is drawn, and others instead of it as long as they have no score and draws are left. -/
theorem place_ends (tries : Nat) (populated : 0 < s.own.members.length) :
    Move.Ends (drawMember >>= redraw tries) s (fun winner t =>
      ∃ place : Place s.own (tries + 1), place.winner = winner ∧
        ∃ source, s.own.Draws populated s.source place.draws source ∧ t = { s with source }) E := by
  induction tries generalizing s with
  | zero =>
      refine (drawMember_ends populated).bind ?_
      rintro c t ⟨rfl, rfl⟩
      exact .pure ⟨.ofWinner _ fun _ => rfl, rfl, _, .one s.source, rfl⟩
  | succ tries ih =>
      refine (drawMember_ends populated).bind ?_
      rintro c t ⟨rfl, rfl⟩
      refine .get_bind (.ite (fun scored => ?_) fun unscored => ?_)
      · have given := Option.isSome_iff_ne_none.mp scored
        exact .pure ⟨.ofWinner _ (absurd · given), rfl, _, .one s.source, rfl⟩
      · -- The other draws are those for a place with one draw less.
        refine (ih (s := { s with source := s.source.advance }) populated).mono ?_ fun _ => id
        rintro winner t ⟨place, won, source, taken, rfl⟩
        have passed := Option.not_isSome_iff_eq_none.mp unscored
        exact ⟨place.pass _ passed, won, source,
          (Population.Draws.one s.source).append taken, rfl⟩

/-- A place of a tournament takes at most eleven draws. -/
theorem drawScored_ends (populated : 0 < s.own.members.length) :
    drawScored.Ends s (fun winner t => ∃ place : Place s.own 11, place.winner = winner ∧
      ∃ source, s.own.Draws populated s.source place.draws source ∧ t = { s with source }) E :=
  place_ends tournamentRetries populated

/-- One more place: the better of the best winner so far and of its own. -/
theorem betterOf_foremost {own : Population} (comparable : own.Comparable)
    {winners : List Candidate} {best : Candidate} (foremost : Foremost own.rank winners best)
    (c : Candidate) : Foremost own.rank (winners ++ [c]) (betterOf own best c) := by
  unfold betterOf
  split
  next greater => exact foremost.append_of_lt greater
  next notGreater =>
      exact foremost.append_of_le (Binary64.le_of_not_lt (comparable.number best)
        (comparable.number c) notGreater)

/-- The remaining places of a tournament.  The best winner so far is kept up to date. -/
theorem compete_ends (count : Nat) (populated : 0 < s.own.members.length)
    (comparable : s.own.Comparable) {winners : List Candidate} {best : Candidate}
    (foremost : Foremost s.own.rank winners best) :
    (compete count best).Ends s (fun parent t => ∃ places : List (Place s.own 11),
      places.length = count ∧ Foremost s.own.rank (winners ++ places.map Place.winner) parent ∧
        ∃ source, s.own.Draws populated s.source (places.flatMap Place.draws) source ∧
          t = { s with source }) E := by
  induction count generalizing s winners best with
  | zero => exact .pure ⟨[], rfl, by simpa using foremost, s.source, .none s.source, rfl⟩
  | succ count ih =>
      refine (drawScored_ends populated).bind ?_
      rintro c t ⟨place, rfl, source, taken, rfl⟩
      have better := betterOf_foremost comparable foremost place.winner
      refine .get_bind ((ih (s := { s with source }) populated comparable better).mono ?_
        fun _ => id)
      rintro parent t ⟨places, size, best, source', taken', rfl⟩
      refine ⟨place :: places, congrArg Nat.succ size, ?_, source', ?_, rfl⟩
      · rwa [List.append_assoc] at best
      · exact taken.append taken'

/-- All places of a tournament, the first of which has no winner before it. -/
theorem selectParent_ends (p : Plan σ) (populated : 0 < s.own.members.length)
    (comparable : s.own.Comparable) :
    (selectParent p).Ends s (fun parent t => ∃ places : List (Place s.own 11),
      places.length = p.config.tournamentSize.value ∧
        Foremost s.own.rank (places.map Place.winner) parent ∧
        ∃ source, s.own.Draws populated s.source (places.flatMap Place.draws) source ∧
          t = { s with source }) E := by
  refine (drawScored_ends populated).bind ?_
  rintro c t ⟨place, rfl, source, taken, rfl⟩
  have others := compete_ends (s := { s with source }) (E := E)
    (p.config.tournamentSize.value - 1) populated comparable (.single place.winner)
  refine others.mono ?_ fun _ => id
  rintro parent t ⟨places, size, best, source', taken', rfl⟩
  refine ⟨place :: places, ?_, best, source', taken.append taken', rfl⟩
  have least := p.config.tournamentSize.least_le
  rw [List.length_cons, size]
  omega

/-- The first of the best winners has no score only if no winner has one, and then no member that was
drawn. -/
theorem unscored_of_foremost {own : Population} (comparable : own.Comparable)
    {places : List (Place own 11)} {parent : Candidate}
    (foremost : Foremost own.rank (places.map Place.winner) parent)
    (unscored : scoreOf own parent = none) :
    ∀ place ∈ places, ∀ c ∈ place.draws, scoreOf own c = none := by
  intro place held
  refine Place.unscored_of_winner (Classical.byContradiction fun scored => ?_)
  have atMost := foremost.le (comparable.number parent) _ (List.mem_map_of_mem held)
  rw [Population.rank_of_unscored unscored] at atMost
  have above := Binary64.lt_of_le_of_lt atMost (comparable.lt_rank scored)
  exact Int.lt_irrefl _ ((lt_iff _ _).mp above).2.2

end Genetic

/-- A tournament always has a winner.  Every place of it is held with the members that the next numbers
of the source draw, at most eleven: members without a score are passed over, up to the first member with
a score or the last draw.  The first of the winners with the greatest effective score is the parent; when
it has no score, no member that was drawn has one.  Nothing changes but the source. -/
theorem Strategy.selectParent_foremost (p : Plan σ)
    (whole : p.config.tournamentSize.isWhole = true) (progress : Progress Population)
    (populated : 0 < progress.own.members.length) (comparable : progress.own.Comparable)
    (w : Surroundings σ) :
    ∃ (parent : Candidate) (places : List (Place progress.own 11)) (source : Source),
      selectParent p progress w = (.ok parent, .genetic progress, { w with source }) ∧
        progress.own.Draws populated w.source (places.flatMap Place.draws) source ∧
        places.length = p.config.tournamentSize.value ∧
        Foremost (fun c => effective (Genetic.scoreOf progress.own c))
          (places.map Place.winner) parent ∧
        (Genetic.scoreOf progress.own parent = none →
          ∀ place ∈ places, ∀ c ∈ place.draws, Genetic.scoreOf progress.own c = none) := by
  have ends := Genetic.selectParent_ends (s := ⟨progress, w⟩) (E := fun _ => False) p populated
    comparable
  obtain ⟨parent, t, ran, places, size, foremost, source, draws, rfl⟩ := ends.succeeds
  refine ⟨parent, places, source, ?_, draws, size, foremost,
    Genetic.unscored_of_foremost comparable foremost⟩
  rw [selectParent, countFault_eq_none whole]
  unfold run
  rw [ran]

/-- All draws for the first place find the member without a score, and so does the first draw for the
second place.  The member with a score, drawn last, is the parent. -/
theorem Strategy.selectParent_foremost_last :
    let sine : Candidate := .single (.unary .sin .var)
    let p : Plan Oracle := ⟨{ algorithm := .genetic, tournamentSize := .ofNat 2 },
      PrimeShare.evaluator ⟨3, 3.0⟩⟩
    let own : Population := ⟨[.single .var, sine],
      (Std.TreeMap.empty.insert "f(n) = n" none).insert "f(n) = sin(n)" (some ⟨0.5, [], true⟩)⟩
    let progress : Progress Population := ⟨0, ∅, .single .var, none, .single .var, none, own⟩
    let w : Surroundings Oracle := ⟨⟨List.replicate 12 0.0 ++ [0.9], 7, 0⟩, .empty 1000⟩
    p.config.tournamentSize.isWhole = true ∧ own.Comparable ∧
      ∃ (populated : 0 < own.members.length) (places : List (Place own 11)) (source : Source),
        selectParent p progress w = (.ok sine, .genetic progress, { w with source }) ∧
          own.Draws populated w.source (places.flatMap Place.draws) source ∧
          places.length = 2 ∧
          Foremost (fun c => effective (Genetic.scoreOf own c)) (places.map Place.winner) sine := by
  intro sine p own progress w
  have comparable : own.Comparable := by
    intro key score found
    simp only [own, Std.TreeMap.getElem?_insert] at found
    split at found
    · obtain rfl := Option.some.inj (Option.some.inj found)
      exact ⟨rfl, by decide +kernel⟩
    · split at found <;> simp at found
  obtain ⟨parent, places, source, ran, draws, size, foremost, -⟩ :=
    selectParent_foremost p rfl progress (Nat.succ_pos 1) comparable w
  have chosen : (selectParent p progress w).1.toOption = some sine := by decide +kernel
  rw [ran] at chosen
  obtain rfl := Option.some.inj chosen
  exact ⟨rfl, comparable, Nat.succ_pos 1, places, source, ran, draws, size, foremost⟩

end PrimeSearch
