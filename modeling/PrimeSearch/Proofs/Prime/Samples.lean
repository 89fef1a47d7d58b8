/-
Module: PrimeSearch.Proofs.Prime.Samples
Purpose: A sample holds the smallest primes and the smallest composite numbers, as many as were
  asked for, whatever is in memory.
Main exports: Smallest, Smallest.unique, Oracle.Widening, Oracle.widen_ends,
  Oracle.sampleData_smallest
-/
import Mathlib.NumberTheory.Bertrand
import PrimeSearch.Proofs.Loop
import PrimeSearch.Proofs.Prime.Oracle

namespace PrimeSearch

/-! ### The smallest numbers of a class -/

/-- A list holds so many numbers of a class, in increasing order, and any other number of the
class is greater than all of them. -/
structure Smallest (found : List Nat) (count : Nat) (belongs : Nat → Prop) : Prop where
  increasing : found.Pairwise (· < ·)
  length : found.length = count
  belong : ∀ n ∈ found, belongs n
  least : ∀ n, belongs n → n ∉ found → ∀ m ∈ found, m < n

variable {found found' : List Nat} {count limit : Nat} {belongs : Nat → Prop}

theorem Smallest.nodup (smallest : Smallest found count belongs) : found.Nodup :=
  smallest.increasing.imp Nat.ne_of_lt

/-- Of two lists of the smallest numbers of a class, neither misses a number of the other: for it
the other list would have a greater number, and that would be missing in the first. -/
theorem Smallest.subset (smallest : Smallest found count belongs)
    (smallest' : Smallest found' count belongs) : found ⊆ found' := by
  intro n member
  by_contra missing
  have longer : ¬found' ⊆ found.erase n := by
    intro within
    have short := (List.subperm_of_subset smallest'.nodup within).length_le
    have := List.length_pos_of_mem member
    rw [List.length_erase_of_mem member, smallest.length, smallest'.length] at short
    rw [smallest.length] at this
    omega
  obtain ⟨m, member', outside⟩ : ∃ m ∈ found', m ∉ found.erase n := by
    simpa [List.subset_def] using longer
  have distinct : m ≠ n := fun same => missing (same ▸ member')
  have missing' : m ∉ found := fun inside => outside ((List.mem_erase_of_ne distinct).mpr inside)
  have less := smallest.least m (smallest'.belong m member') missing' n member
  exact absurd (smallest'.least n (smallest.belong n member) missing m member') less.asymm

/-- The smallest numbers of a class are determined by their number. -/
theorem Smallest.unique (smallest : Smallest found count belongs)
    (smallest' : Smallest found' count belongs) : found = found' := by
  have lists : Lists found fun n => n ∈ found := ⟨smallest.increasing, fun _ => Iff.rfl⟩
  have lists' : Lists found' fun n => n ∈ found := by
    refine ⟨smallest'.increasing, fun n => ⟨fun member => ?_, fun member => ?_⟩⟩
    · exact smallest'.subset smallest member
    · exact smallest.subset smallest' member
  exact lists.unique lists'

/-- All numbers of a class up to a limit begin with the smallest ones. -/
theorem Lists.smallest_take (lists : Lists found fun n => n ≤ limit ∧ belongs n)
    (enough : count ≤ found.length) : Smallest (found.take count) count belongs where
  increasing := lists.increasing.sublist (List.take_sublist count found)
  length := List.length_take_of_le enough
  belong n member := ((lists.mem_iff n).mp (List.mem_of_mem_take member)).2
  least := by
    intro n belongs missing m member
    have inside := ((lists.mem_iff m).mp (List.mem_of_mem_take member)).1
    by_cases small : n ≤ limit
    · -- The number comes after those that were taken.
      have later : n ∈ found.drop count := by
        have listed := (lists.mem_iff n).mpr ⟨small, belongs⟩
        rw [← List.take_append_drop count found, List.mem_append] at listed
        exact listed.resolve_left missing
      have increasing := lists.increasing
      rw [← List.take_append_drop count found, List.pairwise_append] at increasing
      exact increasing.2.2 m member n later
    · omega

/-! ### Enough of them -/

/-- Twice as far there is another prime. -/
theorem Lists.length_double (pos : 0 < limit) (lists : Lists found fun n => n ≤ limit ∧ n.Prime)
    (lists' : Lists found' fun n => n ≤ 2 * limit ∧ n.Prime) : found.length < found'.length := by
  obtain ⟨p, prime, beyond, within⟩ := Nat.exists_prime_lt_and_le_two_mul limit (by omega)
  have fresh : p ∉ found := fun member => by
    have := ((lists.mem_iff p).mp member).1
    omega
  have nodup : (p :: found).Nodup :=
    List.nodup_cons.mpr ⟨fresh, lists.increasing.imp Nat.ne_of_lt⟩
  refine (List.subperm_of_subset nodup fun n member => ?_).length_le
  rcases List.mem_cons.mp member with rfl | old
  · exact (lists'.mem_iff n).mpr ⟨within, prime⟩
  · obtain ⟨small, prime⟩ := (lists.mem_iff n).mp old
    exact (lists'.mem_iff n).mpr ⟨by omega, prime⟩

/-- The even numbers from four on are composite, so there are enough of them up to little more
than twice their number. -/
theorem Lists.length_composites (lists : Lists found fun n => n ≤ limit ∧ Composite n)
    (room : 2 * count + 2 ≤ limit) : count ≤ found.length := by
  have nodup : ((List.range count).map fun i => 2 * i + 4).Nodup :=
    List.nodup_range.map fun i j same => by omega
  have within : ((List.range count).map fun i => 2 * i + 4) ⊆ found := by
    intro n member
    obtain ⟨i, small, rfl⟩ := List.mem_map.mp member
    have := List.mem_range.mp small
    refine (lists.mem_iff _).mpr ⟨by omega, by omega, ?_⟩
    rw [show 2 * i + 4 = 2 * (i + 2) by omega]
    exact Nat.not_prime_mul (by omega) (by omega)
  simpa using (List.subperm_of_subset nodup within).length_le

namespace Oracle

/-!
The primes are asked for up to a limit, and once more up to twice the limit as long as they are too
few.  No bound is set to the doublings: there is a prime more each time.  The composite numbers
are only asked for in the end, up to the limit that the primes were enough for, and that has never
been less than five times the size of the sample.
-/

/-- The primes up to a limit, with the oracle that has found them. -/
structure Widening where
  primes : List Nat
  limit : Nat
  oracle : Oracle

namespace Widening

/-- Ask an oracle for the primes up to a limit. -/
def upTo (limit : Nat) (o : Oracle) : Widening :=
  ⟨(o.primesUpTo limit).1, limit, (o.primesUpTo limit).2⟩

/-- Ask once more, up to twice the limit. -/
def double (w : Widening) : Widening := upTo (2 * w.limit) w.oracle

/-- The composite numbers up to the limit that has been reached, and the oracle after them. -/
def composites (w : Widening) : List Nat × Oracle := w.oracle.compositesUpTo w.limit

/-- The primes were asked of an oracle that remembers right answers. -/
structure Right (least : Nat) (w : Widening) : Prop where
  limit : least ≤ w.limit
  lists : Lists w.primes fun n => n ≤ w.limit ∧ n.Prime
  sound : Sound w.oracle

variable {o : Oracle} {w : Widening} {least : Nat}

theorem upTo_right (sound : Sound o) (reaches : least ≤ limit) : Right least (upTo limit o) where
  limit := reaches
  lists := by
    have listed := (sound.primesUpTo limit).1
    simp only [Nat.cast_le] at listed
    exact listed
  sound := (sound.primesUpTo limit).2

theorem Right.double (right : Right least w) : Right least w.double :=
  upTo_right right.sound (by have := right.limit; omega)

end Widening

/-- Widening goes on until there are primes enough, and it ends by itself: each doubling finds a
prime more than the one before. -/
theorem widen_ends {o : Oracle} (sound : Sound o) (pos : 0 < limit) {fuel : Nat}
    (enough : count ≤ (Widening.upTo limit o).primes.length + fuel) :
    ∃ rounds ≤ fuel, ∃ last,
      LoopEnds (fun w => w.primes.length < count) (fun w w' => w' = w.double)
        (Widening.upTo limit o) rounds last ∧
      widen count fuel limit o = (last.primes, last.limit, last.oracle) := by
  induction fuel generalizing limit o with
  | zero => exact ⟨0, le_refl 0, _, .ended (Nat.not_lt.mpr enough), rfl⟩
  | succ fuel ih =>
      by_cases more : (Widening.upTo limit o).primes.length < count
      · have right := Widening.upTo_right sound (le_refl limit)
        have another := right.lists.length_double pos right.double.lists
        have remaining : count ≤ (Widening.upTo limit o).double.primes.length + fuel := by omega
        have further : 0 < 2 * limit := by omega
        obtain ⟨rounds, few, last, ends, found⟩ := ih right.sound further remaining
        refine ⟨rounds + 1, by omega, last, .next more rfl ends, ?_⟩
        rw [← found]
        exact if_pos more
      · exact ⟨0, by omega, _, .ended more, if_neg more⟩

/-- A sample of an oracle that remembers right answers. -/
theorem Sound.sampleData_eq {o : Oracle} (sound : Sound o) {size : Int} (pos : 1 ≤ size) :
    ∃ rounds ≤ size.toNat, ∃ last,
      LoopEnds (fun w => w.primes.length < size.toNat) (fun w w' => w' = w.double)
        (Widening.upTo (max 1000 (5 * size.toNat)) o) rounds last ∧
      o.sampleData size = (.ok (last.primes.take size.toNat, last.composites.1.take size.toNat),
        last.composites.2) ∧
      Smallest (last.primes.take size.toNat) size.toNat Nat.Prime ∧
      Smallest (last.composites.1.take size.toNat) size.toNat Composite := by
  have enough : size.toNat ≤
      (Widening.upTo (max 1000 (5 * size.toNat)) o).primes.length + size.toNat := by omega
  obtain ⟨rounds, few, last, ends, found⟩ := widen_ends sound (by omega) enough
  have right : Widening.Right (max 1000 (5 * size.toNat)) last := by
    refine ends.holds (fun w w' _ doubled right => ?_)
      (Widening.upTo_right sound (le_refl (max 1000 (5 * size.toNat))))
    exact doubled ▸ right.double
  have composites : Lists last.composites.1 fun n => n ≤ last.limit ∧ Composite n := by
    have listed := (right.sound.compositesUpTo last.limit).1
    simp only [Nat.cast_le] at listed
    exact listed
  have reaches := right.limit
  refine ⟨rounds, few, last, ends, ?_, right.lists.smallest_take (Nat.not_lt.mp ends.stopped),
    composites.smallest_take (composites.length_composites (by omega))⟩
  rw [Oracle.sampleData, if_neg (by omega), sample, found]
  rfl

/-- A sample of less than one number is refused, and the oracle stays as it is.  Any other sample
holds the smallest primes and the smallest composite numbers, as many as were asked for, and it is
the same whatever limit the memory has and whatever has been asked before, as long as the memory
has no room for numbers whose test is wrong.  To find it, the limit is doubled until there are
primes enough, and that comes to an end. -/
theorem sampleData_smallest (count : Int) :
    (count < 1 → ∀ o : Oracle, o.sampleData count = (.error (.sampleSize (.whole count)), o)) ∧
      (1 ≤ count → ∃ primes composites, Smallest primes count.toNat Nat.Prime ∧
        Smallest composites count.toNat Composite ∧
        ∀ limit new requests, Oracle.new limit = .ok new →
          (limit < trialLimit ∨ ∀ n ≤ limit, Exact n) →
          ∃ rounds ≤ count.toNat, ∃ last : Widening,
            LoopEnds (fun w => w.primes.length < count.toNat) (fun w w' => w' = w.double)
              (Widening.upTo (max 1000 (5 * count.toNat)) (new.run requests)) rounds last ∧
            primes = last.primes.take count.toNat ∧
            composites = last.composites.1.take count.toNat ∧
            (new.run requests).sampleData count = (.ok (primes, composites), last.composites.2)) := by
  refine ⟨fun low o => if_pos low, fun pos => ?_⟩
  obtain ⟨-, -, first, -, -, primes, composites⟩ :=
    (sound_empty (le_refl 2)).sampleData_eq pos
  refine ⟨_, _, primes, composites, fun limit new requests created exact => ?_⟩
  have room : ¬limit < 2 := fun low => by simp [Oracle.new, low] at created
  obtain rfl : empty limit.toNat = new := by simpa [Oracle.new, room] using created
  have trusted : Trusted (empty limit.toNat) := by
    refine ⟨sound_empty (by omega), fun n inside => ?_⟩
    have inside : n ≤ limit := inside.trans (Int.toNat_of_nonneg (by omega)).le
    rcases exact with small | exact
    · exact isPrime_iff_of_lt (by omega)
    · exact exact n inside
  obtain ⟨rounds, few, last, ends, sampled, primes', composites'⟩ :=
    (trusted.run requests).toSound.sampleData_eq pos
  have samePrimes := primes.unique primes'
  have sameComposites := composites.unique composites'
  rw [← samePrimes, ← sameComposites] at sampled
  exact ⟨rounds, few, last, ends, samePrimes, sameComposites, sampled⟩

/-- There are fewer than two hundred primes up to a thousand, so the limit is doubled.  A small memory
that has been asked and cleared and a large one without any requests give the same sample. -/
theorem sampleData_twoHundred :
    ∃ primes composites, Smallest primes 200 Nat.Prime ∧ Smallest composites 200 Composite ∧
      (((empty 10).run [.isPrime 1000003, .preCache 5, .clear, .primesUpTo 30]).sampleData 200).1 =
        .ok (primes, composites) ∧
      (((empty 1000).run []).sampleData 200).1 = .ok (primes, composites) ∧
      ∀ o : Oracle, o.sampleData 0 = (.error (.sampleSize (.whole 0)), o) := by
  obtain ⟨primes, composites, smallestPrimes, smallestComposites, same⟩ :=
    (sampleData_smallest 200).2 (by decide)
  obtain ⟨-, -, last, -, -, -, asked⟩ :=
    same 10 (empty 10) [.isPrime 1000003, .preCache 5, .clear, .primesUpTo 30] rfl
      (.inl (by decide))
  obtain ⟨-, -, last', -, -, -, fresh⟩ := same 1000 (empty 1000) [] rfl (.inl (by decide))
  exact ⟨primes, composites, smallestPrimes, smallestComposites, congrArg Prod.fst asked,
    congrArg Prod.fst fresh, (sampleData_smallest 0).1 (by decide)⟩

end Oracle

end PrimeSearch
