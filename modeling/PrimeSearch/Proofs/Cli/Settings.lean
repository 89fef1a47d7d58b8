/-
Module: PrimeSearch.Proofs.Cli.Settings
Purpose: The settings of a search from the command line are refused with a message that is meant for
  a user, or they are in whole numbers.
Main exports: SearchRequest.Accepts, SearchRequest.Numeric, SearchRequest.Numeric.check,
  Command.read_search, SearchOptions.Filled, SearchOptions.numeric_of_read
-/
import PrimeSearch.Proofs.Cli.Arguments
import PrimeSearch.Proofs.Outcome
import PrimeSearch.Proofs.Search.Driving

namespace PrimeSearch

namespace SearchRequest

/-!
A check of settings goes from one to the next and stops at the first that will not do.  Where every
setting is a number of its kind, what stops it is always a rule about the value.
-/

variable {α β : Type}

/-- A check accepts what `Q` says, and refuses nothing for being no number. -/
def Accepts (x : Except SearchRequestError α) (Q : α → Prop) : Prop :=
  match x with
  | .ok a => Q a
  | .error e => ∀ misfit, e ≠ .misfit misfit

namespace Accepts

variable {x : Except SearchRequestError α} {f : α → Except SearchRequestError β} {R : α → Prop}

theorem bind {Q : β → Prop} (first : Accepts x R) (rest : ∀ a, R a → Accepts (f a) Q) :
    Accepts (x >>= f) Q := by
  cases x with
  | ok a => exact rest a first
  | error e => exact first

end Accepts

theorem checkMode_accepts (given : Json) : Accepts (checkMode given) fun _ => True := by
  unfold checkMode
  split
  next text =>
    cases Mode.ofName? text with
    | some mode => exact trivial
    | none => exact fun _ => nofun
  next => exact fun _ => nofun

theorem checkAlgorithm_accepts (given : Json) : Accepts (checkAlgorithm given) fun _ => True := by
  unfold checkAlgorithm
  split
  next text =>
    cases Algorithm.ofName? text with
    | some algorithm => exact trivial
    | none => exact fun _ => nofun
  next => exact fun _ => nofun

/-- A whole number is accepted as the number of things that it is. -/
theorem count_accepts (name : String) (least : Nat) (n : Int) :
    Accepts (count name least (.int n)) fun c => c.given = .whole c.value := by
  unfold count
  dsimp only [Quantity.ofJson?]
  split
  next => exact fun _ => nofun
  next enough =>
    have reached : (least : Int) ≤ n := Int.not_lt.mp fun below => enough (decide_eq_true below)
    have counted : Count.ofQuantity? (.whole n) =
        some (⟨.whole n, n.toNat, rfl, by omega⟩ : Count least) := dif_pos (by omega)
    rw [counted]
    show Quantity.whole n = .whole (n.toNat : Int)
    rw [Int.toNat_of_nonneg (by omega)]

theorem temperature_accepts (x : Float) :
    Accepts (temperature (.real x)) fun q => q.isWithinDoubles = true := by
  unfold temperature
  dsimp only [Quantity.ofJson?]
  split
  next => exact fun _ => nofun
  next => exact rfl

theorem cooling_accepts (x : Float) : Accepts (cooling (.real x)) fun _ => True := by
  unfold cooling
  refine .bind (R := fun _ => True) trivial fun q _ => ?_
  split
  next => exact trivial
  next => exact fun _ => nofun

theorem rate_accepts (name : String) (x : Float) :
    Accepts (rate name (.real x)) fun q => q.isSome = true := by
  unfold rate
  refine .bind (R := fun _ => True) trivial fun q _ => ?_
  split
  next => exact rfl
  next => exact fun _ => nofun

/-- Settings with numbers where numbers are wanted. -/
structure Numeric (r : SearchRequest) : Prop where
  iterations : ∃ n, r.maxIterations = .int n
  size : ∃ n, r.sampleSize = .int n
  depth : ∃ n, r.maxDepth = .int n
  attempts : ∃ n, r.maxAttempts = .int n
  history : ∃ n, r.historyLength = .int n
  population : ∃ n, r.populationSize = .int n
  tournament : ∃ n, r.tournamentSize = .int n
  temperature : ∃ x, r.startTemperature = .real x
  cooling : ∃ x, r.coolingRate = .real x
  random : ∃ x, r.randomRate = .real x
  mutation : ∃ x, r.mutationRate = .real x
  symmetric : r.symmetricRate = .null

/-- Numbers are refused for what they are, or accepted as settings in whole numbers. -/
theorem Numeric.check {r : SearchRequest} (numeric : r.Numeric) :
    Accepts r.check SearchConfig.Whole := by
  obtain ⟨⟨_, iterations⟩, ⟨_, size⟩, ⟨_, depth⟩, ⟨_, attempts⟩, ⟨_, history⟩, ⟨_, population⟩,
    ⟨_, tournament⟩, ⟨_, temperature⟩, ⟨_, cooling⟩, ⟨_, random⟩, ⟨_, mutation⟩, symmetric⟩ := numeric
  unfold SearchRequest.check
  rw [iterations, size, depth, attempts, history, population, tournament, temperature, cooling,
    random, mutation, symmetric]
  refine .bind (checkMode_accepts _) fun _ _ => .bind (checkAlgorithm_accepts _) fun _ _ => ?_
  refine .bind (count_accepts _ _ _) fun _ _ => .bind (count_accepts _ _ _) fun _ size => ?_
  refine .bind (count_accepts _ _ _) fun _ attempts => ?_
  refine .bind (count_accepts _ _ _) fun _ history => ?_
  refine .bind (count_accepts _ _ _) fun _ tournament => ?_
  refine .bind (count_accepts _ _ _) fun _ population => .bind (count_accepts _ _ _) fun _ _ => ?_
  refine .bind (temperature_accepts _) fun _ within => .bind (cooling_accepts _) fun _ _ => ?_
  refine .bind (rate_accepts _ _) fun _ random => .bind (rate_accepts _ _) fun _ mutation => ?_
  refine .bind (R := fun _ => True) trivial fun _ _ => ?_
  have whole {least : Nat} {c : Count least} (counted : c.given = .whole c.value) :
      c.isWhole = true := by
    rw [Count.isWhole, counted]
    rfl
  rw [if_neg (by simp [SearchConfig.hasPatience, whole attempts, whole population])]
  exact {
    attempts := whole attempts
    tournament := whole tournament
    random := random
    mutation := mutation
    temperature := by simp [SearchConfig.isTooHot, within]
    size := size
    history := whole history }

end SearchRequest

/-! ### Options that were read -/

namespace Command

variable {arguments rest : List String} {command : Command} {name : String}

/-- A command that was read has a name and arguments of its own. -/
theorem read_eq_ok (read : Command.read arguments = .ok command) :
    ∃ name rest, ofName name rest = .ok command := by
  unfold Command.read at read
  obtain ⟨⟨surplus, left⟩, -, read⟩ := bind_eq_ok read
  cases left with
  | nil => cases surplus with | true | false => cases read
  | cons name rest =>
      obtain ⟨c, named, read⟩ := bind_eq_ok read
      split at read
      next => cases read
      next =>
        obtain rfl := Except.ok.inj read
        exact ⟨name, rest, named⟩

/-- The options of a command are those that its arguments were read with. -/
theorem ofName_eq_ok (named : ofName name rest = .ok command) :
    (∃ r, searchSignature.read rest = .ok r ∧ command = .search (searchOptions r)) ∨
      (∃ r, scoreSignature.read rest = .ok r ∧ command = .score (scoreOptions r)) ∨
      (∃ expression count, command = .parse expression count) ∨ ∃ o, command = .runs o := by
  unfold ofName at named
  split at named
  next =>
    obtain ⟨r, read, rfl⟩ := map_eq_ok named
    exact .inl ⟨r, read, rfl⟩
  next =>
    obtain ⟨r, read, rfl⟩ := map_eq_ok named
    exact .inr (.inl ⟨r, read, rfl⟩)
  next =>
    obtain ⟨r, -, rfl⟩ := map_eq_ok named
    exact .inr (.inr (.inl ⟨_, _, rfl⟩))
  next =>
    obtain ⟨r, -, rfl⟩ := map_eq_ok named
    exact .inr (.inr (.inr ⟨_, rfl⟩))
  next => cases named

theorem read_score {o : ScoreOptions} (read : Command.read arguments = .ok (.score o)) :
    ∃ r, r.OfKind scoreSignature ∧ o = scoreOptions r := by
  obtain ⟨name, rest, named⟩ := read_eq_ok read
  rcases ofName_eq_ok named with ⟨r, -, other⟩ | ⟨r, gathered, same⟩ | ⟨_, _, other⟩ | ⟨_, other⟩
  · cases other
  · exact ⟨r, Signature.read_ofKind gathered, Command.score.inj same⟩
  · cases other
  · cases other

theorem read_search {o : SearchOptions} (read : Command.read arguments = .ok (.search o)) :
    ∃ r, r.OfKind searchSignature ∧ o = searchOptions r := by
  obtain ⟨name, rest, named⟩ := read_eq_ok read
  rcases ofName_eq_ok named with ⟨r, gathered, same⟩ | ⟨r, -, other⟩ | ⟨_, _, other⟩ | ⟨_, other⟩
  · exact ⟨r, Signature.read_ofKind gathered, Command.search.inj same⟩
  · cases other
  · cases other
  · cases other

end Command

/-- The sample size of a score is a whole number, unless a separator stands in its place. -/
theorem ScoreOptions.sampleSize_of_read {arguments : List String} {o : ScoreOptions}
    (read : Command.read arguments = .ok (.score o)) (filled : o.sampleSize ≠ .arr []) :
    ∃ n, o.sampleSize = .int n := by
  obtain ⟨r, ofKind, rfl⟩ := Command.read_score read
  exact ofKind.value_whole (by decide) 200 filled

namespace SearchOptions

/-- No separator stands in place of a number. -/
structure Filled (o : SearchOptions) : Prop where
  iterations : o.request.maxIterations ≠ .arr []
  size : o.request.sampleSize ≠ .arr []
  depth : o.request.maxDepth ≠ .arr []
  history : o.request.historyLength ≠ .arr []
  population : o.request.populationSize ≠ .arr []
  temperature : o.request.startTemperature ≠ .arr []
  cooling : o.request.coolingRate ≠ .arr []
  interval : o.tickInterval ≠ .arr []

/-- The options of a search are numbers where numbers are wanted. -/
theorem numeric_of_read {arguments : List String} {o : SearchOptions}
    (read : Command.read arguments = .ok (.search o)) (filled : o.Filled) :
    o.request.Numeric ∧ ∃ x, o.tickInterval = .real x := by
  obtain ⟨r, ofKind, rfl⟩ := Command.read_search read
  refine ⟨?_, ofKind.value_real (by decide) _ filled.interval⟩
  exact {
    iterations := ofKind.value_whole (by decide) _ filled.iterations
    size := ofKind.value_whole (by decide) _ filled.size
    depth := ofKind.value_whole (by decide) _ filled.depth
    attempts := ⟨10, rfl⟩
    history := ofKind.value_whole (by decide) _ filled.history
    population := ofKind.value_whole (by decide) _ filled.population
    tournament := ⟨3, rfl⟩
    temperature := ofKind.value_real (by decide) _ filled.temperature
    cooling := ofKind.value_real (by decide) _ filled.cooling
    random := ⟨_, rfl⟩
    mutation := ⟨_, rfl⟩
    symmetric := rfl }

end SearchOptions

end PrimeSearch
