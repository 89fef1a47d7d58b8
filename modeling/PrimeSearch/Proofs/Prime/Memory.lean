/-
Module: PrimeSearch.Proofs.Prime.Memory
Purpose: What an oracle remembers never shows in its answers.
Main exports: Oracle.Reachable, Oracle.Forgetful, Oracle.isPrime_forgetful,
  Oracle.samplesFor_forgetful
-/
import PrimeSearch.Prime.Request
import PrimeSearch.Proofs.Number.Doubling
import PrimeSearch.Proofs.Prime.Oracle

namespace PrimeSearch

namespace Oracle

/-!
An oracle answers from its sets, from the bound of its sieve, by a test, or by another sieve, and
which way it takes depends on what it was asked before.  As long as it only remembers numbers that
trial division decides, what it remembers is right, and so all ways lead to the same answer.  Nothing
is assumed of the test of larger numbers: the oracle puts it to each of them every time.
-/

variable {α β : Type} {o : Oracle}

/-- What an oracle remembers is right, and was decided by trial division. -/
structure Reliable (o : Oracle) : Prop extends Sound o where
  small : o.cacheLimit < trialLimit

/-- An oracle that began without memory and was asked for some things. -/
def Reachable (o : Oracle) : Prop :=
  ∃ limit requests, 2 ≤ limit ∧ limit < trialLimit ∧ o = (empty limit).run requests

theorem Reliable.trusted (reliable : Reliable o) : Trusted o where
  toSound := reliable.toSound
  exact n inside := isPrime_iff_of_lt (by have := reliable.small; omega)

theorem Reliable.after (reliable : Reliable o) (request : Request) :
    Reliable (o.after request) where
  toSound := (reliable.trusted.after request).toSound
  small := by
    rw [(asked_after o request).2]
    exact reliable.small

theorem Reachable.reliable (reachable : Reachable o) : Reliable o := by
  obtain ⟨limit, requests, two, small, rfl⟩ := reachable
  have start : Reliable (empty limit) := ⟨sound_empty two, small⟩
  refine ⟨(start.trusted.run requests).toSound, ?_⟩
  rw [(asked_run (empty limit) requests).2]
  exact small

theorem Reachable.after (reachable : Reachable o) (request : Request) :
    Reachable (o.after request) := by
  obtain ⟨limit, requests, two, small, rfl⟩ := reachable
  refine ⟨limit, requests ++ [request], two, small, ?_⟩
  rw [run, run, List.foldl_append]
  rfl

/-! ### Answers that do not depend on the memory -/

/-- Reachable oracles all do some work with the same answer, and are reachable afterwards. -/
def Forgetful (work : Oracle → α × Oracle) : Prop :=
  ∀ o, o.Reachable → (work o).2.Reachable ∧ ∀ o', o'.Reachable → (work o).1 = (work o').1

theorem Forgetful.pure (a : α) : Forgetful fun o => (a, o) :=
  fun _ reachable => ⟨reachable, fun _ _ => rfl⟩

/-- Work on the oracle that another work leaves behind, given its answer. -/
theorem Forgetful.bind {m : Oracle → α × Oracle} {f : α → Oracle → β × Oracle}
    (first : Forgetful m) (rest : ∀ a, Forgetful (f a)) :
    Forgetful fun o => f (m o).1 (m o).2 := by
  intro o reachable
  obtain ⟨after, same⟩ := first o reachable
  refine ⟨(rest _ _ after).1, fun o' reachable' => ?_⟩
  dsimp only
  rw [same o' reachable']
  exact (rest _ _ after).2 _ (first o' reachable').1

theorem Forgetful.map {m : Oracle → α × Oracle} (first : Forgetful m) (g : α → β) :
    Forgetful fun o => (g (m o).1, (m o).2) :=
  .bind (f := fun a o => (g a, o)) first fun a => .pure (g a)

/-- A request whose answer depends on reliable memory only. -/
theorem Forgetful.of_request {work : Oracle → α × Oracle} (request : Request)
    (asked : ∀ o : Oracle, (work o).2 = o.after request) (answer : α)
    (right : ∀ o, Reliable o → (work o).1 = answer) : Forgetful work := by
  intro o reachable
  refine ⟨asked o ▸ reachable.after request, fun o' reachable' => ?_⟩
  rw [right o reachable.reliable, right o' reachable'.reliable]

theorem isPrime_forgetful (n : Int) : Forgetful fun o => o.isPrime n :=
  .of_request (.isPrime n) (fun _ => rfl) _ fun _ reliable => (reliable.trusted.isPrime n).1

theorem primesUpTo_forgetful (limit : Int) : Forgetful fun o => o.primesUpTo limit :=
  .of_request (.primesUpTo limit) (fun _ => rfl) _ fun _ reliable =>
    (reliable.primesUpTo limit).1.unique ((sound_empty (le_refl 2)).primesUpTo limit).1

theorem compositesUpTo_forgetful (limit : Int) : Forgetful fun o => o.compositesUpTo limit :=
  .of_request (.compositesUpTo limit) (fun _ => rfl) _ fun _ reliable =>
    (reliable.compositesUpTo limit).1.unique ((sound_empty (le_refl 2)).compositesUpTo limit).1

/-- What widening finds, apart from the oracle that it leaves behind. -/
def widened (count fuel limit : Nat) (o : Oracle) : (List Nat × Nat) × Oracle :=
  (((widen count fuel limit o).1, (widen count fuel limit o).2.1), (widen count fuel limit o).2.2)

theorem widened_succ (count fuel limit : Nat) (o : Oracle) :
    widened count (fuel + 1) limit o =
      if (o.primesUpTo limit).1.length < count then
        widened count fuel (2 * limit) (o.primesUpTo limit).2
      else (((o.primesUpTo limit).1, limit), (o.primesUpTo limit).2) := by
  unfold widened
  rw [widen]
  dsimp only
  split
  · rfl
  · rfl

theorem widened_forgetful (count fuel limit : Nat) : Forgetful (widened count fuel limit) := by
  induction fuel generalizing limit with
  | zero => exact (primesUpTo_forgetful limit).bind fun primes => .pure (primes, limit)
  | succ fuel ih =>
      rw [funext (widened_succ count fuel limit)]
      refine .bind (f := fun primes o => if primes.length < count then
        widened count fuel (2 * limit) o else ((primes, limit), o)) (primesUpTo_forgetful limit) ?_
      intro primes
      split
      · exact ih (2 * limit)
      · exact .pure (primes, limit)

theorem sample_forgetful (count : Nat) : Forgetful fun o => o.sample count :=
  .bind (f := fun found o => ((found.1.take count, (o.compositesUpTo found.2).1.take count),
      (o.compositesUpTo found.2).2))
    (widened_forgetful count count (max 1000 (5 * count))) fun (primes, limit) =>
      (compositesUpTo_forgetful limit).map fun composites =>
        (primes.take count, composites.take count)

theorem sampleData_forgetful (count : Int) : Forgetful fun o => o.sampleData count := by
  unfold sampleData
  split
  · exact .pure _
  · exact (sample_forgetful count.toNat).map Except.ok

/-! ### Sizes of any kind -/

/-- A limit that is a number is no obstacle: the memory ends long before the largest table. -/
theorem Reliable.preCacheFor (reliable : Reliable o) {limit : Json} {n : Int}
    (whole : limit.integer = .ok n) : o.preCacheFor limit = (.ok (), o.preCache n) := by
  have fits : ¬largestBound < min n o.cacheLimit := by
    have := reliable.small
    simp only [trialLimit] at this
    simp only [largestBound]
    omega
  have bounded : boundFor (min n o.cacheLimit) = .ok (min n o.cacheLimit).toNat := if_neg fits
  unfold Oracle.preCacheFor
  rw [whole]
  dsimp only
  rw [bounded]

/-- A table that is too long for a whole size is refused once the memory has been filled. -/
theorem Reliable.samplesFor_tooLong (reliable : Reliable o) {size : Quantity} {n : Int}
    (whole : size.whole? = some n) {e : OracleError} (tooLong : boundFor (5 * n) = .error e) :
    o.samplesFor size = (.error e, o.preCache (5 * n)) := by
  have filled : o.preCacheFor (.int (5 * n)) = (.ok (), o.preCache (5 * n)) :=
    reliable.preCacheFor rfl
  have refused : o.primesFor (.whole (5 * n)) = (.error e, o.preCache (5 * n)) := by
    unfold primesFor
    dsimp only [Quantity.whole?]
    rw [filled]
    dsimp only
    rw [tooLong]
  unfold samplesFor
  rw [whole]
  dsimp only
  rw [tooLong]
  dsimp only
  rw [refused]
  rfl

/-- Up to a finite limit primes are found, or the limit is beyond the sieve.  Where some are found, the
limit can be doubled. -/
theorem Reachable.primesFor_real (reachable : Reachable o) {limit : Float} {mantissa : Nat}
    {exponent : Int} (value : Binary64.decode limit = .finite false mantissa exponent) :
    (o.primesFor (.real limit)).2.Reachable ∧
      ((o.primesFor (.real limit)).1 = .error realLength ∨
        (∃ primes, (o.primesFor (.real limit)).1 = .ok primes) ∧ ∃ mantissa exponent,
          Binary64.decode (2.0 * limit) = .finite false mantissa exponent) := by
  have whole : (Json.real limit).integer = .ok ((Binary64.truncate? limit).getD 0) := by
    rw [Json.integer, value]
  have filled := reachable.reliable.preCacheFor whole
  have after := reachable.after (.preCache ((Binary64.truncate? limit).getD 0))
  unfold primesFor
  dsimp only [Quantity.whole?, Quantity.toJson]
  split
  next low =>
    have atMost : limit ≤ Binary64.ofInt (2 : Nat) := Binary64.le_of_lt (of_decide_eq_true low)
    exact ⟨reachable, .inr ⟨⟨_, rfl⟩, Binary64.decode_mul_two_of_le value (by decide) atMost⟩⟩
  next =>
    rw [filled]
    dsimp only
    split
    next within =>
      have short : (o.preCache ((Binary64.truncate? limit).getD 0)).sievedTo < 2 ^ 53 := by
        have bound := after.reliable.sievedTo_le
        have small := after.reliable.small
        simp only [trialLimit] at small
        change (o.preCache _).sievedTo ≤ (o.preCache _).cacheLimit at bound
        change (o.preCache _).cacheLimit < 1000000 at small
        omega
      refine ⟨after, .inr ⟨⟨_, rfl⟩, ?_⟩⟩
      exact Binary64.decode_mul_two_of_le value short (of_decide_eq_true within)
    next => exact ⟨after, .inl rfl⟩

/-- A finite limit is doubled until it is beyond the sieve, or there are primes enough; in both cases
the size turns out to be no length. -/
theorem Reachable.widenReal (reachable : Reachable o) (size : Quantity) (fuel : Nat)
    {limit : Float} {mantissa : Nat} {exponent : Int}
    (value : Binary64.decode limit = .finite false mantissa exponent) :
    (widenReal size fuel limit o).1 = realLength ∧ (widenReal size fuel limit o).2.Reachable := by
  induction fuel generalizing limit mantissa exponent o with
  | zero => exact ⟨rfl, reachable⟩
  | succ fuel ih =>
      obtain ⟨after, found⟩ := reachable.primesFor_real value
      unfold Oracle.widenReal
      generalize o.primesFor (.real limit) = outcome at after found
      obtain ⟨answer, o'⟩ := outcome
      rcases found with rfl | ⟨⟨primes, rfl⟩, _, _, doubled⟩
      · exact ⟨rfl, after⟩
      · dsimp only
        split
        · exact ih after doubled
        · exact ⟨rfl, after⟩

/-- An infinite limit is no limit of a table. -/
theorem widenReal_infinite (size : Quantity) (fuel : Nat) {limit : Float}
    (value : Binary64.decode limit = .infinite false) (o : Oracle) :
    widenReal size (fuel + 1) limit o = (.misfit .infinityToInteger, o) := by
  have above : ¬limit < Binary64.ofInt 2 := by
    intro less
    obtain ⟨-, -, order⟩ := (Binary64.lt_iff _ _).mp less
    rw [Binary64.key, value] at order
    exact absurd order (by decide)
  have noBound : (Quantity.real limit).isBelow 2 = false := decide_eq_false above
  have noLimit : (Json.real limit).integer = .error .infinityToInteger := by
    rw [Json.integer, value]
  have refused : o.primesFor (.real limit) = (.error (.misfit .infinityToInteger), o) := by
    unfold primesFor preCacheFor
    dsimp only [Quantity.whole?, Quantity.toJson]
    rw [noBound, noLimit]
    rfl
  rw [widenReal, refused]

/-- Samples of a whole size are found, or their table is too long. -/
theorem samplesFor_forgetful_of_whole {size : Quantity} {n : Int} (whole : size.whole? = some n) :
    Forgetful fun o => o.samplesFor size := by
  cases tooLong : boundFor (5 * n) with
  | error e =>
      intro o reachable
      dsimp only
      rw [reachable.reliable.samplesFor_tooLong whole tooLong]
      refine ⟨reachable.after (.preCache _), fun o' reachable' => ?_⟩
      rw [reachable'.reliable.samplesFor_tooLong whole tooLong]
  | ok bound =>
      have asked (o : Oracle) : o.samplesFor size = o.sampleData n := by
        rw [samplesFor, whole]
        dsimp only
        rw [tooLong]
      rw [funext asked]
      exact sampleData_forgetful n

/-- Widening from a limit above the least one ends alike, whether or not the limit is finite. -/
theorem widenReal_forgetful (size : Quantity) (fuel : Nat) {limit : Float}
    (large : 1000.0 < limit) : Forgetful (widenReal size (fuel + 1) limit) := by
  intro o reachable
  rcases Binary64.decode_of_lt large (by decide) with infinite |
    ⟨mantissa, exponent, value⟩
  · rw [widenReal_infinite size fuel infinite]
    refine ⟨reachable, fun o' _ => ?_⟩
    rw [widenReal_infinite size fuel infinite]
  · obtain ⟨ends, after⟩ := reachable.widenReal size (fuel + 1) value
    refine ⟨after, fun o' reachable' => ?_⟩
    rw [ends, (reachable'.widenReal size (fuel + 1) value).1]

/-- Whatever the size, samples are found or refused alike. -/
theorem samplesFor_forgetful (size : Quantity) : Forgetful fun o => o.samplesFor size := by
  cases whole : size.whole? with
  | some n => exact samplesFor_forgetful_of_whole whole
  | none =>
      have asked (o : Oracle) : o.samplesFor size =
          if size.isBelow 1 then (.error (.sampleSize size), o)
          else if 1000.0 < 5.0 * size.toFloat then
            (.error (widenReal size 1024 (5.0 * size.toFloat) o).1,
              (widenReal size 1024 (5.0 * size.toFloat) o).2)
          else (.error (.misfit .notAPlace), (o.sample (size.ceiling 0)).2) := by
        rw [samplesFor, whole]
      rw [funext asked]
      split
      · exact .pure _
      · split
        next large => exact (widenReal_forgetful size 1023 large).map Except.error
        next =>
          exact (sample_forgetful (size.ceiling 0)).map fun _ =>
            Except.error (OracleError.misfit .notAPlace)

end Oracle

end PrimeSearch
