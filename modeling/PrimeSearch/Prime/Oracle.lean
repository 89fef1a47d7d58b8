/-
Module: PrimeSearch.Prime.Oracle
Purpose: A primality oracle that remembers what it has found out.
Main exports: Oracle, OracleError, primesWithin, Oracle.isPrime, Oracle.preCache,
  Oracle.primesUpTo, Oracle.compositesUpTo, Oracle.sampleData, Oracle.stats
-/
import Std.Data.TreeSet
import PrimeSearch.Json.Misfit
import PrimeSearch.Prime.Test
import PrimeSearch.Prime.Sieve

namespace PrimeSearch

/-!
Answers for numbers up to a limit are kept in two sets.  Larger numbers are tested every
time, so that the oracle cannot grow without bound.  Up to the bound of the last sieve
run all primes are in the set, and whatever is not there is known to be composite.
-/

/-- A run of the sieve: how many primes it found, and up to where. -/
structure Sieving where
  count : Nat
  limit : Nat
deriving Repr, DecidableEq

/-- A primality oracle with a memory. -/
structure Oracle where
  /-- Greatest number whose answer is remembered. -/
  cacheLimit : Nat
  primes : Std.TreeSet Nat
  composites : Std.TreeSet Nat
  hits : Nat
  misses : Nat
  /-- Bound up to which all primes are known. -/
  sievedTo : Nat
  /-- All runs of the sieve, latest first. -/
  sievings : List Sieving

/-- Why the oracle refuses a request. -/
inductive OracleError where
  | limit (given : Quantity)
  | cacheLimit (given : Quantity)
  | sampleSize (given : Quantity)
  /-- A value that is no number the oracle can work with. -/
  | misfit (error : Misfit)

/-- Wording of an oracle error. -/
def OracleError.message : OracleError → String
  | .limit given => "Limit must be >= 2, got " ++ given.text
  | .cacheLimit given => "cache_limit must be >= 2, got " ++ given.text
  | .sampleSize given => "sample_size must be >= 1, got " ++ given.text
  | .misfit error => error.message

/-- The primes up to a limit, which has to leave room for one. -/
def primesWithin (limit : Int) : Except OracleError (List Nat) :=
  if limit < 2 then .error (.limit (.whole limit)) else .ok (primesTo limit.toNat)

/-- What the oracle has done since it was last cleared. -/
structure OracleStats where
  hits : Nat
  misses : Nat
  cachedPrimes : Nat
  cachedComposites : Nat
deriving Repr, DecidableEq

/-- Share of questions answered from memory. -/
def OracleStats.hitRate (s : OracleStats) : Float :=
  let total := s.hits + s.misses
  if total = 0 then 0.0
  else (UInt64.ofNat s.hits).toFloat / (UInt64.ofNat total).toFloat

/-- The counters as they are saved. -/
def OracleStats.toJson (s : OracleStats) : Json :=
  .obj [("hits", .int s.hits), ("misses", .int s.misses), ("hit_rate", .real s.hitRate),
    ("cached_primes", .int s.cachedPrimes), ("cached_composites", .int s.cachedComposites)]

namespace Oracle

/-- Cache limit of an ordinary oracle. -/
def defaultLimit : Nat := 100000

/-- An oracle that knows nothing yet. -/
def empty (cacheLimit : Nat) : Oracle := ⟨cacheLimit, ∅, ∅, 0, 0, 1, []⟩

/-- A new oracle; its memory must have room for one prime. -/
def new (cacheLimit : Int) : Except OracleError Oracle :=
  if cacheLimit < 2 then .error (.cacheLimit (.whole cacheLimit)) else .ok (empty cacheLimit.toNat)

/-- Count a question answered from memory. -/
def hit (o : Oracle) : Oracle := { o with hits := o.hits + 1 }

/-- Count a question that had to be worked out, and keep its answer if there is room. -/
def learn (o : Oracle) (n : Nat) (answer : Bool) : Oracle :=
  let o := { o with misses := o.misses + 1 }
  if o.cacheLimit < n then o
  else if answer then { o with primes := o.primes.insert n }
  else { o with composites := o.composites.insert n }

/-- Whether a number is prime. -/
def isPrime (o : Oracle) (n : Int) : Bool × Oracle :=
  let k := n.toNat
  if o.primes.contains k then (true, o.hit)
  else if o.composites.contains k || decide (n ≤ o.sievedTo) then (false, o.hit)
  else
    let answer := PrimeSearch.isPrime n
    (answer, o.learn k answer)

/-- Sieve all primes up to a limit into the memory, as far as it reaches. -/
def preCache (o : Oracle) (limit : Int) : Oracle :=
  let bound := min limit.toNat o.cacheLimit
  if bound ≤ o.sievedTo then o
  else
    let primes := primesTo bound
    { o with
      primes := primes.foldl (·.insert ·) o.primes
      sievedTo := bound
      sievings := ⟨primes.length, bound⟩ :: o.sievings }

/-- The primes up to a limit, in increasing order.  The memory is filled on the way. -/
def primesUpTo (o : Oracle) (limit : Int) : List Nat × Oracle :=
  if limit < 2 then ([], o)
  else
    let o := o.preCache limit
    if limit ≤ o.sievedTo then (o.primes.toList.filter (· ≤ limit.toNat), o)
    else (primesTo limit.toNat, o)

/-- The composite numbers up to a limit, in increasing order. -/
def compositesUpTo (o : Oracle) (limit : Int) : List Nat × Oracle :=
  if limit < 4 then ([], o)
  else
    let (primes, o) := o.primesUpTo limit
    (compositesAmong limit.toNat primes, o)

/-- Double a limit until there are `count` primes up to it.  A doubling adds a prime at
least, so `count` of them are enough. -/
def widen (count : Nat) : Nat → Nat → Oracle → List Nat × Nat × Oracle
  | 0, limit, o =>
      let (primes, o) := o.primesUpTo limit
      (primes, limit, o)
  | fuel + 1, limit, o =>
      let (primes, o) := o.primesUpTo limit
      if primes.length < count then widen count fuel (2 * limit) o else (primes, limit, o)

/-- The first `count` primes and the first `count` composites. -/
def sample (o : Oracle) (count : Nat) : (List Nat × List Nat) × Oracle :=
  let (primes, limit, o) := widen count count (max 1000 (5 * count)) o
  let (composites, o) := o.compositesUpTo limit
  ((primes.take count, composites.take count), o)

/-- Samples of a requested size, which has to be positive. -/
def sampleData (o : Oracle) (count : Int) :
    Except OracleError (List Nat × List Nat) × Oracle :=
  if count < 1 then (.error (.sampleSize (.whole count)), o)
  else
    let (samples, o) := o.sample count.toNat
    (.ok samples, o)

/-- Counters and sizes. -/
def stats (o : Oracle) : OracleStats :=
  ⟨o.hits, o.misses, o.primes.size, o.composites.size⟩

/-- Forget everything but the limit. -/
def clear (o : Oracle) : Oracle :=
  { o with primes := ∅, composites := ∅, hits := 0, misses := 0, sievedTo := 1 }

end Oracle

end PrimeSearch
