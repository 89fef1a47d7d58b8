/-
Module: PrimeSearch.Proofs.Prime.Oracle
Purpose: The oracle with its memory answers like one without, after any requests in any order.
Main exports: Oracle.Sound, Oracle.Request, Oracle.run, Oracle.Sound.run, Oracle.Trusted,
  Oracle.Trusted.run, Oracle.Refines, Oracle.run_refines_primality
-/
import Mathlib.Data.Finset.Interval
import Mathlib.Data.Nat.Prime.Basic
import Mathlib.Order.Interval.Finset.Nat
import Mathlib.Tactic.NormNum.Prime
import PrimeSearch.Prime.Oracle
import PrimeSearch.Proofs.Prime.Sieve
import PrimeSearch.Proofs.Prime.Test

namespace PrimeSearch

namespace Oracle

/-!
What the oracle may have in memory is a property of one state (`Sound`): both sets hold right
answers within the limit, and no prime up to the bound of the sieve is missing.  The second part
is what makes absence an answer.  Every request keeps the property, and each answer follows from
it alone, so the order of requests does not matter.

Numbers from a million on are put to a test whose exactness is taken for granted, for the
numbers that are asked and for no others: some composite number passes any such test.
-/

/-- The test without a memory gives the right answer for a number. -/
def Exact (n : Int) : Prop := PrimeSearch.isPrime n = true ↔ n.toNat.Prime

/-- A number may be asked: if it is too large for trial division, its test is exact. -/
def Decided (n : Int) : Prop := trialLimit ≤ n → Exact n

theorem Decided.exact {n : Int} (decided : Decided n) : Exact n := by
  by_cases small : n < trialLimit
  · exact isPrime_iff_of_lt small
  · exact decided (by omega)

/-- What an oracle remembers is right. -/
structure Sound (o : Oracle) : Prop where
  room : 2 ≤ o.cacheLimit
  primes : ∀ n ∈ o.primes, n.Prime ∧ n ≤ o.cacheLimit
  composites : ∀ n ∈ o.composites, Composite n ∧ n ≤ o.cacheLimit
  sieved : ∀ n, n.Prime → n ≤ o.sievedTo → n ∈ o.primes
  sievedTo_pos : 1 ≤ o.sievedTo
  sievedTo_le : o.sievedTo ≤ o.cacheLimit

theorem mem_insert {s : Std.TreeSet Nat} {a b : Nat} : b ∈ s.insert a ↔ b = a ∨ b ∈ s := by
  rw [Std.TreeSet.mem_insert, Nat.compare_eq_eq]
  exact or_congr_left eq_comm

theorem mem_foldl_insert (found : List Nat) (s : Std.TreeSet Nat) (n : Nat) :
    n ∈ found.foldl (·.insert ·) s ↔ n ∈ found ∨ n ∈ s := by
  induction found generalizing s with
  | nil => simp
  | cons p found ih =>
      rw [List.foldl_cons, ih, mem_insert, List.mem_cons]
      tauto

/-! ### Requests keep the memory right -/

theorem sound_empty {limit : Nat} (room : 2 ≤ limit) : Sound (empty limit) where
  room := room
  primes n member := absurd member Std.TreeSet.not_mem_emptyc
  composites n member := absurd member Std.TreeSet.not_mem_emptyc
  sieved n prime small := by
    have := prime.two_le
    simp only [empty] at small
    omega
  sievedTo_pos := le_refl 1
  sievedTo_le := by
    simp only [empty]
    omega

variable {o : Oracle}

theorem Sound.clear (sound : Sound o) : Sound o.clear where
  room := sound.room
  primes n member := absurd member Std.TreeSet.not_mem_emptyc
  composites n member := absurd member Std.TreeSet.not_mem_emptyc
  sieved n prime small := by
    have := prime.two_le
    simp only [Oracle.clear] at small
    omega
  sievedTo_pos := le_refl 1
  sievedTo_le := by
    have := sound.room
    simp only [Oracle.clear]
    omega

theorem Sound.hit (sound : Sound o) : Sound o.hit :=
  ⟨sound.room, sound.primes, sound.composites, sound.sieved, sound.sievedTo_pos, sound.sievedTo_le⟩

/-- A right answer may be learnt. -/
theorem Sound.learn (sound : Sound o) {n : Nat} {answer : Bool} (two : 2 ≤ n)
    (right : answer = true ↔ n.Prime) : Sound (o.learn n answer) := by
  unfold Oracle.learn
  dsimp only
  split
  next =>
    exact ⟨sound.room, sound.primes, sound.composites, sound.sieved, sound.sievedTo_pos,
      sound.sievedTo_le⟩
  next inside =>
    split
    next yes =>
      refine ⟨sound.room, fun k member => ?_, sound.composites, fun k prime small => ?_,
        sound.sievedTo_pos, sound.sievedTo_le⟩
      · rcases mem_insert.mp member with rfl | old
        · exact ⟨right.mp yes, Nat.le_of_not_lt inside⟩
        · exact sound.primes k old
      · exact mem_insert.mpr (.inr (sound.sieved k prime small))
    next no =>
      refine ⟨sound.room, sound.primes, fun k member => ?_, sound.sieved, sound.sievedTo_pos,
        sound.sievedTo_le⟩
      rcases mem_insert.mp member with rfl | old
      · exact ⟨⟨two, fun prime => no (right.mpr prime)⟩, Nat.le_of_not_lt inside⟩
      · exact sound.composites k old

/-- An answer is right, and the memory stays right, if the test of the number is exact. -/
theorem Sound.isPrime (sound : Sound o) {n : Int} (exact : Exact n) :
    ((o.isPrime n).1 = true ↔ n.toNat.Prime) ∧ Sound (o.isPrime n).2 := by
  unfold Oracle.isPrime
  dsimp only
  split
  next known =>
    have prime := (sound.primes _ (Std.TreeSet.mem_iff_contains.mpr known)).1
    exact ⟨by simp [prime], sound.hit⟩
  next unknown =>
    split
    next absent =>
      have composite : ¬ n.toNat.Prime := by
        intro prime
        rw [Bool.or_eq_true, decide_eq_true_eq] at absent
        rcases absent with stored | small
        · exact (sound.composites _ (Std.TreeSet.mem_iff_contains.mpr stored)).1.2 prime
        · exact unknown (Std.TreeSet.mem_iff_contains.mp (sound.sieved _ prime (by omega)))
      exact ⟨by simp [composite], sound.hit⟩
    next open_ =>
      rw [Bool.or_eq_true, decide_eq_true_eq, not_or] at open_
      have := sound.sievedTo_pos
      exact ⟨exact, sound.learn (by omega) exact⟩

theorem Sound.preCache (sound : Sound o) (limit : Int) : Sound (o.preCache limit) := by
  unfold Oracle.preCache
  dsimp only
  split
  next => exact sound
  next further =>
    have found := (lists_primesTo (min limit.toNat o.cacheLimit)).mem_iff
    refine ⟨sound.room, fun n member => ?_, sound.composites, fun n prime small => ?_, ?_, ?_⟩
    · rcases (mem_foldl_insert _ _ n).mp member with new | old
      · obtain ⟨small, prime⟩ := (found n).mp new
        exact ⟨prime, small.trans (Nat.min_le_right _ _)⟩
      · exact sound.primes n old
    · exact (mem_foldl_insert _ _ n).mpr (.inl ((found n).mpr ⟨small, prime⟩))
    · have := sound.sievedTo_pos
      simp only
      omega
    · exact Nat.min_le_right _ _

theorem lists_filter_primes (sound : Sound o) {limit : Nat} (within : limit ≤ o.sievedTo) :
    Lists (o.primes.toList.filter (· ≤ limit)) fun n => n ≤ limit ∧ n.Prime where
  increasing := by
    refine (Std.TreeSet.ordered_toList.imp ?_).filter _
    intro a b less
    exact Nat.compare_eq_lt.mp less
  mem_iff n := by
    rw [List.mem_filter, Std.TreeSet.mem_toList, decide_eq_true_eq]
    constructor
    · rintro ⟨member, small⟩
      exact ⟨small, (sound.primes n member).1⟩
    · rintro ⟨small, prime⟩
      exact ⟨sound.sieved n prime (small.trans within), small⟩

/-- The primes up to a limit are listed, and the memory stays right. -/
theorem Sound.primesUpTo (sound : Sound o) (limit : Int) :
    (Lists (o.primesUpTo limit).1 fun n => (n : Int) ≤ limit ∧ n.Prime) ∧
      Sound (o.primesUpTo limit).2 := by
  have filled := sound.preCache limit
  unfold Oracle.primesUpTo
  split
  next low =>
    refine ⟨⟨.nil, fun n => ?_⟩, sound⟩
    simp only [List.not_mem_nil, false_iff, not_and]
    intro small prime
    have := prime.two_le
    omega
  next high =>
    obtain ⟨bound, rfl⟩ := Int.eq_ofNat_of_zero_le (a := limit) (by omega)
    simp only [Int.toNat_natCast, Nat.cast_le] at filled ⊢
    split
    next within => exact ⟨lists_filter_primes filled (by omega), filled⟩
    next => exact ⟨lists_primesTo bound, filled⟩

/-- The composite numbers up to a limit are listed, and the memory stays right. -/
theorem Sound.compositesUpTo (sound : Sound o) (limit : Int) :
    (Lists (o.compositesUpTo limit).1 fun n => (n : Int) ≤ limit ∧ Composite n) ∧
      Sound (o.compositesUpTo limit).2 := by
  obtain ⟨primes, filled⟩ := sound.primesUpTo limit
  unfold Oracle.compositesUpTo
  split
  next low =>
    refine ⟨⟨.nil, fun n => ?_⟩, sound⟩
    simp only [List.not_mem_nil, false_iff, not_and]
    rintro small ⟨two, notPrime⟩
    obtain rfl | rfl : n = 2 ∨ n = 3 := by omega
    · exact notPrime Nat.prime_two
    · exact notPrime Nat.prime_three
  next high =>
    obtain ⟨bound, rfl⟩ := Int.eq_ofNat_of_zero_le (a := limit) (by omega)
    have rest := lists_compositesAmong bound (o.primesUpTo bound).1
    refine ⟨⟨rest.increasing, fun n => (rest.mem_iff n).trans ?_⟩, filled⟩
    rw [primes.mem_iff n, Nat.cast_le]
    constructor
    · rintro ⟨small, two, notListed⟩
      exact ⟨small, two, fun prime => notListed ⟨small, prime⟩⟩
    · rintro ⟨small, two, notPrime⟩
      exact ⟨small, two, fun listed => notPrime listed.2⟩

theorem Sound.widen (sound : Sound o) (count fuel limit : Nat) :
    Sound (widen count fuel limit o).2.2 := by
  induction fuel generalizing limit o with
  | zero => exact (sound.primesUpTo limit).2
  | succ fuel ih =>
      have filled := (sound.primesUpTo limit).2
      unfold Oracle.widen
      dsimp only
      split
      · exact ih filled _
      · exact filled

theorem Sound.sampleData (sound : Sound o) (count : Int) : Sound (o.sampleData count).2 := by
  unfold Oracle.sampleData
  split
  · exact sound
  · exact ((sound.widen count.toNat count.toNat (max 1000 (5 * count.toNat))).compositesUpTo _).2

/-! ### Counters -/

/-- Two states of an oracle differ in nothing but what they remember. -/
structure SameCounters (before after : Oracle) : Prop where
  hits : after.hits = before.hits
  misses : after.misses = before.misses
  cacheLimit : after.cacheLimit = before.cacheLimit

namespace SameCounters

theorem refl (o : Oracle) : SameCounters o o := ⟨rfl, rfl, rfl⟩

theorem trans {first second third : Oracle} (one : SameCounters first second)
    (two : SameCounters second third) : SameCounters first third :=
  ⟨two.hits.trans one.hits, two.misses.trans one.misses, two.cacheLimit.trans one.cacheLimit⟩

theorem preCache (o : Oracle) (limit : Int) : SameCounters o (o.preCache limit) := by
  unfold Oracle.preCache
  dsimp only
  split
  · exact refl o
  · exact ⟨rfl, rfl, rfl⟩

theorem primesUpTo (o : Oracle) (limit : Int) : SameCounters o (o.primesUpTo limit).2 := by
  unfold Oracle.primesUpTo
  split
  · exact refl o
  · dsimp only
    split <;> exact preCache o limit

theorem compositesUpTo (o : Oracle) (limit : Int) : SameCounters o (o.compositesUpTo limit).2 := by
  unfold Oracle.compositesUpTo
  split
  · exact refl o
  · exact primesUpTo o limit

theorem widen (count fuel limit : Nat) (o : Oracle) :
    SameCounters o (widen count fuel limit o).2.2 := by
  induction fuel generalizing limit o with
  | zero => exact primesUpTo o limit
  | succ fuel ih =>
      unfold Oracle.widen
      dsimp only
      split
      · exact (primesUpTo o limit).trans (ih _ _)
      · exact primesUpTo o limit

theorem sampleData (o : Oracle) (count : Int) : SameCounters o (o.sampleData count).2 := by
  unfold Oracle.sampleData
  split
  · exact refl o
  · exact (widen count.toNat count.toNat (max 1000 (5 * count.toNat)) o).trans (compositesUpTo _ _)

end SameCounters

/-- A question is counted once. -/
theorem asked_isPrime (o : Oracle) (n : Int) :
    (o.isPrime n).2.hits + (o.isPrime n).2.misses = o.hits + o.misses + 1 ∧
      (o.isPrime n).2.cacheLimit = o.cacheLimit := by
  unfold Oracle.isPrime Oracle.learn Oracle.hit
  dsimp only
  split
  · exact ⟨by simp only; omega, rfl⟩
  · split
    · exact ⟨by simp only; omega, rfl⟩
    · split
      · exact ⟨rfl, rfl⟩
      · split <;> exact ⟨rfl, rfl⟩

/-! ### Runs -/

/-- What an oracle may be asked for. -/
inductive Request where
  | isPrime (n : Int)
  | preCache (limit : Int)
  | primesUpTo (limit : Int)
  | compositesUpTo (limit : Int)
  | sampleData (count : Int)
  | clear
deriving Repr, DecidableEq

/-- The oracle after a request. -/
def after (o : Oracle) : Request → Oracle
  | .isPrime n => (o.isPrime n).2
  | .preCache limit => o.preCache limit
  | .primesUpTo limit => (o.primesUpTo limit).2
  | .compositesUpTo limit => (o.compositesUpTo limit).2
  | .sampleData count => (o.sampleData count).2
  | .clear => o.clear

/-- The oracle after some requests in turn. -/
def run (o : Oracle) (requests : List Request) : Oracle := requests.foldl after o

/-- Number of questions since the memory was last cleared, if `asked` had been asked before. -/
def asked (requests : List Request) (before : Nat) : Nat :=
  requests.foldl (fun count request =>
    match request with
    | .isPrime _ => count + 1
    | .clear => 0
    | _ => count) before

/-- A request keeps the memory right. -/
theorem Sound.after (sound : Sound o) {request : Request}
    (decided : ∀ n, request = .isPrime n → Decided n) : Sound (o.after request) := by
  cases request with
  | isPrime n => exact (sound.isPrime (decided n rfl).exact).2
  | preCache limit => exact sound.preCache limit
  | primesUpTo limit => exact (sound.primesUpTo limit).2
  | compositesUpTo limit => exact (sound.compositesUpTo limit).2
  | sampleData count => exact sound.sampleData count
  | clear => exact sound.clear

/-- Any requests in any order keep the memory right. -/
theorem Sound.run (sound : Sound o) {requests : List Request}
    (decided : ∀ n, .isPrime n ∈ requests → Decided n) : Sound (o.run requests) := by
  induction requests generalizing o with
  | nil => exact sound
  | cons request requests ih =>
      apply ih (sound.after fun n isQuestion => decided n (by simp [isQuestion]))
      exact fun n member => decided n (List.mem_cons_of_mem request member)

theorem asked_after (o : Oracle) (request : Request) :
    (o.after request).hits + (o.after request).misses = asked [request] (o.hits + o.misses) ∧
      (o.after request).cacheLimit = o.cacheLimit := by
  have counted {o' : Oracle} (same : SameCounters o o') :
      o'.hits + o'.misses = o.hits + o.misses ∧ o'.cacheLimit = o.cacheLimit := by
    rw [same.hits, same.misses]
    exact ⟨rfl, same.cacheLimit⟩
  cases request with
  | isPrime n => exact asked_isPrime o n
  | preCache limit => exact counted (.preCache o limit)
  | primesUpTo limit => exact counted (.primesUpTo o limit)
  | compositesUpTo limit => exact counted (.compositesUpTo o limit)
  | sampleData count => exact counted (.sampleData o count)
  | clear => exact ⟨rfl, rfl⟩

/-- The counters count the questions since the memory was last cleared. -/
theorem asked_run (o : Oracle) (requests : List Request) :
    (o.run requests).hits + (o.run requests).misses = asked requests (o.hits + o.misses) ∧
      (o.run requests).cacheLimit = o.cacheLimit := by
  induction requests generalizing o with
  | nil => exact ⟨rfl, rfl⟩
  | cons request requests ih =>
      obtain ⟨count, limit⟩ := asked_after o request
      obtain ⟨later, laterLimit⟩ := ih (o.after request)
      refine ⟨later.trans ?_, laterLimit.trans limit⟩
      rw [count]
      rfl

/-- Nothing but a question or clearing the memory changes the counters. -/
theorem sameCounters_after {request : Request} (quiet : ∀ n, request ≠ .isPrime n)
    (kept : request ≠ .clear) : SameCounters o (o.after request) := by
  cases request with
  | isPrime n => exact absurd rfl (quiet n)
  | preCache limit => exact .preCache o limit
  | primesUpTo limit => exact .primesUpTo o limit
  | compositesUpTo limit => exact .compositesUpTo o limit
  | sampleData count => exact .sampleData o count
  | clear => exact absurd rfl kept

/-! ### Memory that may be asked anything

A number beyond the limit of the memory may be asked, too, whether or not its test is exact: the
test decides it every time, right or wrong, and nothing of it is remembered. -/

/-- A number beyond the limit is tested and counted, and the memory stays as it is. -/
theorem Sound.isPrime_beyond (sound : Sound o) {n : Int} (beyond : (o.cacheLimit : Int) < n) :
    o.isPrime n = (PrimeSearch.isPrime n, { o with misses := o.misses + 1 }) := by
  have noPrime : o.primes.contains n.toNat = false := by
    refine Bool.eq_false_of_not_eq_true fun known => ?_
    have := (sound.primes _ (Std.TreeSet.mem_iff_contains.mpr known)).2
    omega
  have noComposite : o.composites.contains n.toNat = false := by
    refine Bool.eq_false_of_not_eq_true fun known => ?_
    have := (sound.composites _ (Std.TreeSet.mem_iff_contains.mpr known)).2
    omega
  have unsieved : ¬n ≤ o.sievedTo := by
    have := sound.sievedTo_le
    omega
  have outside : o.cacheLimit < n.toNat := by omega
  unfold Oracle.isPrime Oracle.learn
  simp only [noPrime, noComposite, unsieved, outside, decide_false, Bool.or_self,
    Bool.false_eq_true, if_false, if_true]

/-- What an oracle remembers is right, and so is the test of whatever it has room for. -/
structure Trusted (o : Oracle) : Prop extends Sound o where
  exact : ∀ n : Int, n ≤ o.cacheLimit → Exact n

/-- The answer to any question is that of the test without a memory. -/
theorem Trusted.isPrime (trusted : Trusted o) (n : Int) :
    (o.isPrime n).1 = PrimeSearch.isPrime n ∧ Sound (o.isPrime n).2 := by
  by_cases inside : n ≤ o.cacheLimit
  · have exact := trusted.exact n inside
    obtain ⟨right, sound⟩ := trusted.toSound.isPrime exact
    exact ⟨Bool.eq_iff_iff.mpr (right.trans exact.symm), sound⟩
  · rw [trusted.isPrime_beyond (by omega)]
    exact ⟨rfl, trusted.room, trusted.primes, trusted.composites, trusted.sieved,
      trusted.sievedTo_pos, trusted.sievedTo_le⟩

theorem Trusted.after (trusted : Trusted o) (request : Request) : Trusted (o.after request) where
  toSound := by
    cases request with
    | isPrime n => exact (trusted.isPrime n).2
    | preCache limit => exact trusted.preCache limit
    | primesUpTo limit => exact (trusted.primesUpTo limit).2
    | compositesUpTo limit => exact (trusted.compositesUpTo limit).2
    | sampleData count => exact trusted.sampleData count
    | clear => exact trusted.clear
  exact := by
    rw [(asked_after o request).2]
    exact trusted.exact

/-- Any requests in any order keep the memory right. -/
theorem Trusted.run (trusted : Trusted o) (requests : List Request) : Trusted (o.run requests) := by
  induction requests generalizing o with
  | nil => exact trusted
  | cons request requests ih => exact ih (trusted.after request)

/-! ### Refinement -/

theorem Sound.disjoint (sound : Sound o) {n : Nat} (member : n ∈ o.primes) : n ∉ o.composites :=
  fun other => (sound.composites n other).1.2 (sound.primes n member).1

theorem nodup_toList (s : Std.TreeSet Nat) : s.toList.Nodup :=
  Std.TreeSet.ordered_toList.imp fun less => (Nat.compare_eq_lt.mp less).ne

/-- The memory holds different numbers from two up to the limit. -/
theorem Sound.size_le (sound : Sound o) :
    o.primes.size + o.composites.size ≤ o.cacheLimit - 1 := by
  have distinct : (o.primes.toList ++ o.composites.toList).Nodup := by
    refine List.nodup_append'.mpr ⟨nodup_toList _, nodup_toList _, fun n one two => ?_⟩
    exact sound.disjoint (Std.TreeSet.mem_toList.mp one) (Std.TreeSet.mem_toList.mp two)
  have within : (o.primes.toList ++ o.composites.toList).toFinset ⊆ Finset.Icc 2 o.cacheLimit := by
    intro n member
    rw [List.mem_toFinset, List.mem_append, Std.TreeSet.mem_toList, Std.TreeSet.mem_toList]
      at member
    rw [Finset.mem_Icc]
    rcases member with prime | composite
    · exact ⟨(sound.primes n prime).1.two_le, (sound.primes n prime).2⟩
    · exact ⟨(sound.composites n composite).1.1, (sound.composites n composite).2⟩
  have count := Finset.card_le_card within
  rw [List.toFinset_card_of_nodup distinct, List.length_append, Std.TreeSet.length_toList,
    Std.TreeSet.length_toList, Nat.card_Icc] at count
  omega

/-- An oracle with a limit refines primality after some requests: what it has in memory is right
and within the limit, it answers as if it had no memory, and it has counted the questions since
it was last cleared. -/
structure Refines (limit : Int) (requests : List Request) (o : Oracle) : Prop where
  primes : ∀ n ∈ o.primes, n.Prime ∧ 2 ≤ n ∧ (n : Int) ≤ limit
  composites : ∀ n ∈ o.composites, Composite n ∧ 2 ≤ n ∧ (n : Int) ≤ limit
  disjoint : ∀ n ∈ o.primes, n ∉ o.composites
  size : (o.primes.size + o.composites.size : Int) ≤ limit - 1
  sieved : ∀ n, n.Prime → n ≤ o.sievedTo → n ∈ o.primes
  sievedTo : 1 ≤ o.sievedTo ∧ (o.sievedTo : Int) ≤ limit
  isPrime : ∀ n, Decided n → ((o.isPrime n).1 = true ↔ n.toNat.Prime)
  primesUpTo : ∀ k : Int, Lists (o.primesUpTo k).1 fun n => (n : Int) ≤ k ∧ n.Prime
  compositesUpTo : ∀ k : Int, Lists (o.compositesUpTo k).1 fun n => (n : Int) ≤ k ∧ Composite n
  counted : o.hits + o.misses = asked requests 0
  quiet : ∀ request, (∀ n, request ≠ .isPrime n) → request ≠ .clear →
    (o.after request).hits = o.hits ∧ (o.after request).misses = o.misses

/-- A new oracle refines primality after any requests in any order. -/
theorem run_refines_primality {limit : Int} (room : 2 ≤ limit) :
    ∃ new, Oracle.new limit = .ok new ∧ ∀ requests : List Request,
      (∀ n, .isPrime n ∈ requests → Decided n) → Refines limit requests (new.run requests) := by
  obtain ⟨bound, rfl⟩ := Int.eq_ofNat_of_zero_le (a := limit) (by omega)
  have created : Oracle.new bound = .ok (empty bound) := by
    rw [Oracle.new, if_neg (by omega)]
    rfl
  refine ⟨empty bound, created, fun requests decided => ?_⟩
  have fresh : Sound (empty bound) := sound_empty (by omega)
  have sound := fresh.run decided
  obtain ⟨count, kept⟩ := asked_run (empty bound) requests
  have same : ((empty bound).run requests).cacheLimit = bound := kept
  have size := sound.size_le
  have sieved := sound.sievedTo_le
  rw [same] at size sieved
  constructor
  case primes =>
    intro n member
    obtain ⟨prime, small⟩ := sound.primes n member
    rw [same] at small
    exact ⟨prime, prime.two_le, by exact_mod_cast small⟩
  case composites =>
    intro n member
    obtain ⟨composite, small⟩ := sound.composites n member
    rw [same] at small
    exact ⟨composite, composite.1, by exact_mod_cast small⟩
  case disjoint => exact fun n => sound.disjoint
  case size => omega
  case sieved => exact sound.sieved
  case sievedTo => exact ⟨sound.sievedTo_pos, by exact_mod_cast sieved⟩
  case isPrime => exact fun n decided => (sound.isPrime decided.exact).1
  case primesUpTo => exact fun k => (sound.primesUpTo k).1
  case compositesUpTo => exact fun k => (sound.compositesUpTo k).1
  case counted => exact count
  case quiet =>
    intro request quiet kept
    have counters := sameCounters_after (o := (empty bound).run requests) quiet kept
    exact ⟨counters.hits, counters.misses⟩

/-- A question beyond trial division and beyond the memory, counted and then forgotten. -/
theorem run_refines_primality_of_million :
    Decided 1000003 ∧ ∃ new, Oracle.new 10 = .ok new ∧
      (new.run [.isPrime 9, .clear, .preCache 7, .isPrime 1000003]).hits +
        (new.run [.isPrime 9, .clear, .preCache 7, .isPrime 1000003]).misses = 1 := by
  have exact : Exact 1000003 := by
    have passed : PrimeSearch.isPrime 1000003 = true := by decide +kernel
    have prime : Nat.Prime 1000003 := by norm_num
    exact iff_of_true passed prime
  have decided : Decided 1000003 := fun _ => exact
  obtain ⟨new, created, all⟩ := @run_refines_primality 10 (by decide)
  refine ⟨decided, new, created, (all _ fun n member => ?_).counted⟩
  obtain rfl | rfl : n = 9 ∨ n = 1000003 := by simpa using member
  · exact fun large => absurd large (by decide)
  · exact decided

end Oracle

end PrimeSearch
