/-
Module: PrimeSearch.Prime.Request
Purpose: What the sieve and the oracle are asked for in numbers of any kind.
Main exports: isPrimeFor, primesFor, Oracle.samplesFor, AskedOracle, AskedOracle.new,
  AskedOracle.answers, AskedOracle.preCache, AskedOracle.primes, AskedOracle.composites,
  AskedOracle.samples
-/
import PrimeSearch.Prime.Oracle

namespace PrimeSearch

-- Powers are the core library's, whatever else is imported.
attribute [local instance (high)] instPowNat

/-!
Bounds and sizes may be asked for as real numbers.  They compare like any others, but no table
of marks is laid out to a real bound and no list is cut at a real length, so such requests
end in a misfit as soon as they come to that.
-/

/-- A table of marks, or a list, of a real length. -/
def realLength : OracleError := .misfit (.notCountable "float")

/-- Greatest bound of a table of marks, which has a place for zero, too. -/
def largestBound : Int := 2 ^ (63 : Nat) - 2

/-- A bound of a table of marks. -/
def boundFor (n : Int) : Except OracleError Nat :=
  if largestBound < n then .error (.misfit .tableTooLong) else .ok n.toNat

/-- Whether a number is prime, its fraction dropped. -/
def isPrimeFor (n : Json) : Except Misfit Bool := n.integer.map isPrime

/-- The primes up to a requested bound, for which there has to be a table. -/
def primesFor (limit : Json) : Except OracleError (List Nat) :=
  match Quantity.ofJson? limit with
  | none => .error (.misfit (.unordered "<" limit.typeName "int"))
  | some (.whole n) => (boundFor n).bind fun _ => primesWithin n
  | some q => .error (if q.isBelow 2 then .limit q else realLength)

namespace Oracle

/-- Sieve all primes up to a requested limit into the memory, its fraction dropped. -/
def preCacheFor (o : Oracle) (limit : Json) : Except OracleError Unit × Oracle :=
  match limit.integer with
  | .ok n =>
      match boundFor (min n o.cacheLimit) with
      | .ok _ => (.ok (), o.preCache n)
      | .error e => (.error e, o)
  | .error e => (.error (.misfit e), o)

/-- Whether a number is prime, its fraction dropped. -/
def isPrimeFor (o : Oracle) (n : Json) : Except OracleError Bool × Oracle :=
  match n.integer with
  | .ok n => let (answer, o) := o.isPrime n; (.ok answer, o)
  | .error e => (.error (.misfit e), o)

/-- Whether some numbers are prime, up to the first that is none. -/
def answersFor : List Json → Oracle → Except OracleError (List Bool) × Oracle
  | [], o => (.ok [], o)
  | n :: rest, o =>
      match o.isPrimeFor n with
      | (.error e, o) => (.error e, o)
      | (.ok answer, o) =>
          let (answers, o) := answersFor rest o
          (answers.map (answer :: ·), o)

/-- The primes up to a requested limit. -/
def primesFor (o : Oracle) (limit : Quantity) : Except OracleError (List Nat) × Oracle :=
  match limit.whole? with
  | some n =>
      match o.preCacheFor (.int n) with
      | (.error e, o) => (.error e, o)
      | (.ok (), o) =>
          match boundFor n with
          | .ok _ => let (primes, o) := o.primesUpTo n; (.ok primes, o)
          | .error e => (.error e, o)
  | none =>
      if limit.isBelow 2 then (.ok [], o)
      else
        match o.preCacheFor limit.toJson with
        | (.error e, o) => (.error e, o)
        | (.ok (), o) =>
            if limit.isAtMost o.sievedTo then
              (.ok (o.primes.toList.filter fun p => limit.isAtLeast p), o)
            else (.error realLength, o)

/-- The composite numbers up to a requested limit. -/
def compositesFor (o : Oracle) (limit : Quantity) : Except OracleError (List Nat) × Oracle :=
  match limit.whole? with
  | some n =>
      match boundFor n with
      | .ok _ => let (composites, o) := o.compositesUpTo n; (.ok composites, o)
      | .error e => (.error e, o)
  | none => if limit.isBelow 4 then (.ok [], o) else (.error realLength, o)

/-- Double a real limit until there are primes enough up to it; then composites are wanted
up to it, and that is one thing too many. -/
def widenReal (size : Quantity) : Nat → Float → Oracle → OracleError × Oracle
  | 0, _, o => (realLength, o)
  | fuel + 1, limit, o =>
      match o.primesFor (.real limit) with
      | (.error e, o) => (e, o)
      | (.ok primes, o) =>
          if size.isAbove primes.length then widenReal size fuel (2.0 * limit) o
          else (realLength, o)

/-- Samples of a requested size.  Where its fivefold stays within the least bound, primes and
composites are found, but they cannot be cut to a real size. -/
def samplesFor (o : Oracle) (size : Quantity) :
    Except OracleError (List Nat × List Nat) × Oracle :=
  match size.whole? with
  | some n =>
      match boundFor (5 * n) with
      | .ok _ => o.sampleData n
      | .error e =>
          let (primes, o) := o.primesFor (.whole (5 * n))
          (primes.bind fun _ => .error e, o)
  | none =>
      if size.isBelow 1 then (.error (.sampleSize size), o)
      else
        let limit := 5.0 * size.toFloat
        if 1000.0 < limit then
          let (e, o) := widenReal size 1024 limit o
          (.error e, o)
        else
          let (_, o) := o.sample (size.ceiling 0)
          (.error (.misfit .notAPlace), o)

end Oracle

/-- An oracle with the limit of its memory as it was asked for. -/
structure AskedOracle where
  limit : Quantity
  oracle : Oracle

namespace AskedOracle

/-- Use a quantity that may be none at all. -/
def sized {α : Type} (j : Json) (f : Quantity → Except OracleError α) : Except OracleError α :=
  match Quantity.ofJson? j with
  | some q => f q
  | none => .error (.misfit (.unordered "<" j.typeName "int"))

/-- A new oracle with a requested limit; its memory must have room for one prime. -/
def new (limit : Json) : Except OracleError AskedOracle :=
  sized limit fun q =>
    if q.isBelow 2 then .error (.cacheLimit q) else .ok ⟨q, .empty (q.truncated 0).toNat⟩

/-- Let an oracle work. -/
def run {α : Type} (work : Oracle → Except OracleError α × Oracle) (o : AskedOracle) :
    Except OracleError α × AskedOracle :=
  let (answer, oracle) := work o.oracle
  (answer, { o with oracle })

/-- Whether the sieve would have to stop at the limit of the memory, and that is real. -/
def stopsAtReal (o : AskedOracle) (bound : Int) : Bool :=
  o.limit.whole?.isNone && !o.limit.isAtLeast bound && !o.limit.isAtMost o.oracle.sievedTo

/-- Let an oracle work on a number, for which it sieves up to a bound. -/
def sieve {α : Type} (j : Json) (bound : Quantity → Int)
    (work : Quantity → Oracle → Except OracleError α × Oracle) (o : AskedOracle) :
    Except OracleError α × AskedOracle :=
  match sized j fun q => if o.stopsAtReal (bound q) then .error realLength else .ok q with
  | .ok q => o.run (work q)
  | .error e => (.error e, o)

/-- Whether some numbers are prime, up to the first that is none. -/
def answers (numbers : List Json) (o : AskedOracle) :
    Except OracleError (List Bool) × AskedOracle :=
  o.run (Oracle.answersFor numbers)

/-- Sieve all primes up to a requested limit into the memory, its fraction dropped. -/
def preCache (limit : Json) (o : AskedOracle) : Except OracleError Unit × AskedOracle :=
  match limit.integer with
  | .ok n => o.sieve (.int n) (fun _ => n) fun q oracle => oracle.preCacheFor q.toJson
  | .error e => (.error (.misfit e), o)

/-- The primes up to a requested limit. -/
def primes (limit : Json) (o : AskedOracle) : Except OracleError (List Nat) × AskedOracle :=
  o.sieve limit (·.truncated 0) fun q oracle => oracle.primesFor q

/-- The composite numbers up to a requested limit. -/
def composites (limit : Json) (o : AskedOracle) : Except OracleError (List Nat) × AskedOracle :=
  o.sieve limit (fun q => if q.isBelow 4 then 0 else q.truncated 0) fun q oracle =>
    oracle.compositesFor q

/-- Samples of a requested size. -/
def samples (size : Json) (o : AskedOracle) :
    Except OracleError (List Nat × List Nat) × AskedOracle :=
  o.sieve size (fun q => if q.isBelow 1 then 0 else max 1000 (5 * q.truncated 0)) fun q oracle =>
    oracle.samplesFor q

/-- Forget everything but the limit. -/
def clear (o : AskedOracle) : AskedOracle := { o with oracle := o.oracle.clear }

end AskedOracle

end PrimeSearch
