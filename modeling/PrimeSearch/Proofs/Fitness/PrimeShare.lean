/-
Module: PrimeSearch.Proofs.Fitness.PrimeShare
Purpose: The score of one function counts the different primes among its rounded values.
Main exports: countToFloat_eq, ofInt_div_ofInt_spec, Oracle.isPrime_of_ne,
  PrimeShare.countPrimes_eq, PrimeShare.IsHit, PrimeShare.hits, PrimeShare.values_eq,
  PrimeShare.score_counts
-/
import Mathlib.Data.Finset.Card
import Mathlib.Data.Int.Interval
import PrimeSearch.Fitness.PrimeShare
import PrimeSearch.Proofs.Number.Floor
import PrimeSearch.Proofs.Prime.Oracle

namespace PrimeSearch

/-!
Values are made different twice, first as numbers and then as magnitudes, and what remains is asked
of the oracle one by one.  Both counts are the sizes of finite sets, each an image of a part of the
one before, so they go down from the number of values.  A count is a double as it stands, and the
quotient of two of them reaches one only if they are the same.
-/

/-! ### Counts and their quotients -/

open Binary64
open Float.Model (UnpackedFloat Format)

/-- A count is the double nearest to it. -/
theorem countToFloat_eq {n : Nat} (small : n < 2 ^ 64) : countToFloat n = ofInt n := by
  have count : countToFloat n = Float.ofModel (Float.Model.pack (UnpackedFloat.normalize
      Format.binary64 ((UInt64.ofNat n).toNat : Int) 0 .positive)) := rfl
  rw [count, UInt64.toNat_ofNat_of_lt' small, ofInt_eq_nearest]
  exact pack_normalize (by simp)

/-- The double nearest to a natural number is finite, or positive infinity. -/
theorem decode_ofInt_natCast (n : Nat) :
    (∃ m e, decode (ofInt n) = .finite false m e) ∨ decode (ofInt n) = .infinite false := by
  obtain ⟨number, -, sign⟩ := nearest_spec ((n : Int) : ℚ)
  rw [← ofInt_eq_nearest] at number sign
  rw [decide_eq_false (by simp)] at sign
  cases value : decode (ofInt n) with
  | nan => exact absurd value number
  | infinite negative =>
      rw [value] at sign
      exact .inr (congrArg _ sign)
  | finite negative mantissa exponent =>
      rw [value] at sign
      exact .inl ⟨mantissa, exponent, congrArg (Value.finite · _ _) sign⟩

/-- A number of at most `2 ^ 53` stays below what it was below. -/
theorem le_exact_ofInt {k n : Nat} (atMost : k ≤ n) (small : k ≤ 2 ^ 53)
    (finite : (ofInt n).isFinite = true) : (k : ℚ) ≤ exact (ofInt n) := by
  obtain ⟨finite', exactly, -⟩ := ofInt_spec (n := k) small
  have rounded : ofInt k ≤ ofInt n := by
    rw [ofInt_eq_nearest, ofInt_eq_nearest]
    exact nearest_le_nearest (by exact_mod_cast atMost)
  rw [le_iff_exact finite' finite, exactly] at rounded
  exact_mod_cast rounded

section
variable {x y : Float} {m n : Nat} {e f : Int}

theorem zero_div_finite (value : decode x = .finite false 0 e) (value' : decode y = .finite false n f)
    (positive : 0 < n) : x / y = nearest 0 := by
  rw [div_eq_pack, value, value', Value.unpacked_zero, Value.unpacked_of_pos _ _ positive]
  change Float.ofModel (Float.Model.pack (.zero .positive)) = nearest 0
  decide

theorem finite_div_infinite (value : decode x = .finite false m e)
    (value' : decode y = .infinite false) : x / y = nearest 0 := by
  have quotient : x / y = Float.ofModel (Float.Model.pack (.zero .positive)) := by
    rw [div_eq_pack, value, value']
    rcases Nat.eq_zero_or_pos m with rfl | positive
    · rfl
    · rw [Value.unpacked_of_pos _ _ positive]
      rfl
  rw [quotient]
  decide

end

/-- The quotient of two counts is rounded once the counts are; there is nothing left of it if the
divisor is beyond the range. -/
theorem ofInt_div_ofInt {k n : Nat} (small : k ≤ 2 ^ 53) (some : 1 ≤ n) :
    ofInt k / ofInt n = nearest (k / exact (ofInt n)) := by
  obtain ⟨finite, exactly, -⟩ := ofInt_spec (n := k) small
  rcases decode_ofInt_natCast n with ⟨m, e, value⟩ | value
  · have least := le_exact_ofInt some (by decide) ((isFinite_iff _).mpr ⟨_, _, _, value⟩)
    have some' : exact (ofInt n) ≠ 0 := by
      intro none
      rw [none] at least
      norm_num at least
    rcases Nat.eq_zero_or_pos k with rfl | positive
    · obtain ⟨_, _, _, value', above⟩ := exists_decode_of_exact_ne_zero some'
      obtain ⟨rfl, rfl, rfl⟩ := Value.finite.inj (value.symm.trans value')
      have zero : decode (ofInt (0 : Nat)) = .finite false 0 minExponent := by decide
      rw [zero_div_finite zero value above, Nat.cast_zero (R := ℚ), zero_div]
    · have some : exact (ofInt k) ≠ 0 := by
        rw [exactly]
        exact_mod_cast positive.ne'
      rw [div_eq_nearest some some', exactly]
      rfl
  · have none : exact (ofInt n) = 0 := by rw [exact, value]; rfl
    rcases decode_ofInt_natCast k with ⟨m, e, value'⟩ | value'
    · rw [finite_div_infinite value' value, none, div_zero]
    · obtain ⟨_, _, _, value⟩ := (isFinite_iff _).mp finite
      cases value.symm.trans value'

/-- A quotient of at most this much is not rounded to one. -/
theorem nearest_lt_one {q : ℚ} (below : q ≤ (2 ^ 53 - 1) / 2 ^ 53) : nearest q < 1.0 := by
  have ratio : ofRatio false (2 ^ 53 - 1) (2 ^ 53) = nearest ((2 ^ 53 - 1) / 2 ^ 53) :=
    ofRatio_eq_nearest (by decide) (by norm_num) (by norm_num)
  have top : nearest ((2 ^ 53 - 1) / 2 ^ 53) < 1.0 := by
    rw [← ratio]
    decide
  obtain ⟨number, -, order⟩ := (le_iff _ _).mp (nearest_le_nearest below)
  obtain ⟨-, number', order'⟩ := (lt_iff _ _).mp top
  exact (lt_iff _ _).mpr ⟨number, number', order.trans_lt order'⟩

/-- A smaller count has a quotient below one, and the same count has the quotient one. -/
theorem ofInt_div_ofInt_spec {k n : Nat} (small : k < 2 ^ 53) (some : 1 ≤ n) :
    (k < n → ofInt k / ofInt n < 1.0) ∧ (k = n → ofInt k / ofInt n = 1.0) ∧
      (n ≤ 2 ^ 53 → ofInt k / ofInt n = nearest (k / n)) := by
  rw [ofInt_div_ofInt small.le some]
  have exactly {n : Nat} (small : n ≤ 2 ^ 53) : exact (ofInt n) = n := (ofInt_spec (n := n) small).2.1
  refine ⟨fun less => nearest_lt_one ?_, ?_, fun small => by rw [exactly small]⟩
  · rcases decode_ofInt_natCast n with ⟨m, e, value⟩ | value
    · have least := le_exact_ofInt less small ((isFinite_iff _).mpr ⟨_, _, _, value⟩)
      push_cast at least
      have above : (0 : ℚ) < exact (ofInt n) := lt_of_lt_of_le (by positivity) least
      have room : (k : ℚ) + 1 ≤ 2 ^ 53 := by exact_mod_cast small
      have scaled := mul_le_mul_of_nonneg_left least (by norm_num : (0 : ℚ) ≤ 2 ^ 53 - 1)
      rw [div_le_div_iff₀ above (by norm_num)]
      linarith
    · have none : exact (ofInt n) = 0 := by rw [exact, value]; rfl
      rw [none, div_zero]
      norm_num
  · rintro rfl
    rw [exactly small.le, div_self (by positivity)]
    decide

section
variable {k n : Nat} (small : k < 2 ^ 53) (some : 1 ≤ n) (atMost : k ≤ n)
include small some atMost

/-- The quotient of a part by the whole is never cut down. -/
theorem atMostOne_ofInt_div : atMostOne (ofInt k / ofInt n) = ofInt k / ofInt n := by
  obtain ⟨below, whole, -⟩ := ofInt_div_ofInt_spec small some
  unfold atMostOne
  split
  · rfl
  next most =>
    rcases Nat.lt_or_eq_of_le atMost with less | same
    · exact absurd (below less) most
    · exact (whole same).symm

theorem ofInt_div_eq_one_iff : ofInt k / ofInt n = 1.0 ↔ k = n := by
  obtain ⟨below, whole, -⟩ := ofInt_div_ofInt_spec small some
  refine ⟨fun one => ?_, whole⟩
  by_contra different
  have less := below (Nat.lt_of_le_of_ne atMost different)
  rw [one] at less
  exact absurd less (by decide)

end

/-! ### Sets of values -/

section
variable {α : Type} [Ord α] [Std.TransOrd α] [Std.LawfulEqOrd α] [DecidableEq α]

/-- A tree holds what it was built of, everything once. -/
theorem toList_ofList (xs : List α) :
    (Std.TreeSet.ofList xs).toList.Nodup ∧ (Std.TreeSet.ofList xs).toList.toFinset = xs.toFinset := by
  refine ⟨Std.TreeSet.distinct_toList.imp fun different same => ?_, ?_⟩
  · exact different (Std.LawfulEqOrd.compare_eq_iff_eq.mpr same)
  · ext a
    rw [List.mem_toFinset, List.mem_toFinset, Std.TreeSet.mem_toList, Std.TreeSet.mem_ofList,
      List.contains_iff_mem]

theorem size_ofList (xs : List α) : (Std.TreeSet.ofList xs).size = xs.toFinset.card := by
  obtain ⟨distinct, same⟩ := toList_ofList xs
  rw [← Std.TreeSet.length_toList, ← same, List.toFinset_card_of_nodup distinct]

end

/-! ### Questions to the oracle -/

namespace Oracle

/-- The answer to a question is read off the memory of its number and off the bound of the sieve. -/
theorem isPrime_congr {o o' : Oracle} {n : Nat}
    (primes : o.primes.contains n = o'.primes.contains n)
    (composites : o.composites.contains n = o'.composites.contains n)
    (sieved : o.sievedTo = o'.sievedTo) : (o.isPrime n).1 = (o'.isPrime n).1 := by
  unfold isPrime
  dsimp only
  rw [Int.toNat_natCast, primes, composites, sieved]
  split
  · rfl
  · split <;> rfl

/-- A question does not change the answer about another number. -/
theorem isPrime_of_ne (o : Oracle) {m n : Nat} (different : m ≠ n) :
    ((o.isPrime m).2.isPrime n).1 = (o.isPrime n).1 := by
  have insert (s : Std.TreeSet Nat) : (s.insert m).contains n = s.contains n := by
    have other : (compare m n == .eq) = false :=
      beq_false_of_ne fun same => different (Nat.compare_eq_eq.mp same)
    rw [Std.TreeSet.contains_insert, other, Bool.false_or]
  suffices same : (o.isPrime m).2.primes.contains n = o.primes.contains n ∧
      (o.isPrime m).2.composites.contains n = o.composites.contains n ∧
      (o.isPrime m).2.sievedTo = o.sievedTo from
    isPrime_congr same.1 same.2.1 same.2.2
  unfold isPrime
  dsimp only
  rw [Int.toNat_natCast]
  split
  · exact ⟨rfl, rfl, rfl⟩
  split
  · exact ⟨rfl, rfl, rfl⟩
  dsimp only [learn]
  split
  · exact ⟨rfl, rfl, rfl⟩
  split
  · exact ⟨insert _, rfl, rfl⟩
  · exact ⟨rfl, insert _, rfl⟩

end Oracle

namespace PrimeShare

/-- Of different numbers, the oracle is right from the start about how many it will call prime. -/
theorem countPrimes_eq {numbers : List Nat} (distinct : numbers.Nodup) (o : Oracle) :
    (countPrimes numbers o).1 = numbers.countP fun n : Nat => (o.isPrime n).1 := by
  induction numbers generalizing o with
  | nil => rfl
  | cons n numbers ih =>
      obtain ⟨new, distinct⟩ := List.nodup_cons.mp distinct
      have rest : (countPrimes numbers (o.isPrime n).2).1 =
          numbers.countP fun n : Nat => (o.isPrime n).1 := by
        rw [ih distinct]
        refine List.countP_congr fun m member => ?_
        rw [o.isPrime_of_ne (ne_of_mem_of_not_mem member new).symm]
      rw [List.countP_cons, ← rest, countPrimes]
      dsimp only
      split <;> simp_all

/-! ### Hits -/

section
variable {o : Oracle} {values : List Int}

/-- A number that may be asked about, and that the oracle calls prime. -/
def IsHit (o : Oracle) (n : Nat) : Prop := 2 ≤ n ∧ n ≤ maxExactInteger ∧ (o.isPrime n).1 = true

instance (o : Oracle) : DecidablePred (IsHit o) :=
  fun n => inferInstanceAs (Decidable (2 ≤ n ∧ n ≤ maxExactInteger ∧ (o.isPrime n).1 = true))

/-- The different magnitudes that are hits. -/
def hits (o : Oracle) (values : List Int) : Finset Nat :=
  {n ∈ (values.map Int.natAbs).toFinset | IsHit o n}

/-- What an oracle with right answers makes a hit is a prime that is not too large. -/
theorem isHit_iff
    (right : ∀ n : Nat, 2 ≤ n → n ≤ maxExactInteger → ((o.isPrime n).1 = true ↔ n.Prime)) (n : Nat) :
    IsHit o n ↔ n.Prime ∧ n ≤ maxExactInteger := by
  constructor
  · rintro ⟨two, small, called⟩
    exact ⟨(right n two small).mp called, small⟩
  · rintro ⟨prime, small⟩
    exact ⟨prime.two_le, small, (right n prime.two_le small).mpr prime⟩

theorem countPrimes_magnitudes (o : Oracle) (values : List Int) :
    (countPrimes (magnitudes values) o).1 = (hits o values).card := by
  obtain ⟨distinct, same⟩ := toList_ofList ((values.map Int.natAbs).filter isAsked)
  rw [magnitudes, countPrimes_eq distinct, List.countP_eq_length_filter,
    ← List.toFinset_card_of_nodup (distinct.filter _), List.toFinset_filter, same,
    List.toFinset_filter, Finset.filter_filter]
  congr 1
  refine Finset.filter_congr fun n _ => ?_
  rw [IsHit, isAsked, Bool.and_eq_true, decide_eq_true_eq, decide_eq_true_eq, and_assoc]

/-- Each hit is the magnitude of a value of its own. -/
theorem card_hits_le (o : Oracle) (values : List Int) :
    (hits o values).card ≤ values.toFinset.card := by
  have image : hits o values ⊆ values.toFinset.image Int.natAbs := by
    intro n member
    obtain ⟨v, known, rfl⟩ := List.mem_map.mp (List.mem_toFinset.mp (Finset.mem_filter.mp member).1)
    exact Finset.mem_image_of_mem _ (List.mem_toFinset.mpr known)
  exact (Finset.card_le_card image).trans Finset.card_image_le

theorem card_hits_lt (o : Oracle) (values : List Int) : (hits o values).card < 2 ^ 53 := by
  have within : hits o values ⊆ Finset.Icc 2 (2 ^ 53) := by
    intro n member
    obtain ⟨-, two, atMost, -⟩ := Finset.mem_filter.mp member
    exact Finset.mem_Icc.mpr ⟨two, atMost⟩
  have size := Finset.card_le_card within
  rw [Nat.card_Icc] at size
  omega

/-- There are as many hits as values if all magnitudes are different and hits. -/
theorem card_hits_eq_iff : (hits o values).card = values.length ↔
    (values.map Int.natAbs).Nodup ∧ ∀ n ∈ values.map Int.natAbs, IsHit o n := by
  have part : hits o values ⊆ (values.map Int.natAbs).toFinset := Finset.filter_subset _ _
  have less := Finset.card_le_card part
  have most := List.toFinset_card_le (values.map Int.natAbs)
  rw [List.length_map] at most
  constructor
  · intro full
    have whole := Finset.eq_of_subset_of_card_le part (by omega)
    refine ⟨?_, fun n member => ?_⟩
    · rw [← Multiset.coe_nodup, ← Multiset.toFinset_card_eq_card_iff_nodup, Multiset.coe_card,
        List.length_map]
      change (values.map Int.natAbs).toFinset.card = _
      omega
    · rw [← List.mem_toFinset, ← whole] at member
      exact (Finset.mem_filter.mp member).2
  · rintro ⟨distinct, all⟩
    rw [hits, Finset.filter_true_of_mem fun n member => all n (List.mem_toFinset.mp member),
      List.toFinset_card_of_nodup distinct, List.length_map]

end

/-! ### Values -/

theorem isFinite_output (v : Float) : (if v.isFinite then v else 0.0).isFinite = true := by
  split
  · assumption
  · decide

/-- The values are the floors of the outputs with a half added, where what is not finite counts as
zero. -/
theorem values_eq (share : PrimeShare) (t : Expr) :
    share.values t = (List.range share.sampleSize).map fun k =>
      let v := t.eval (countToFloat (k + 1))
      ⌊exact ((if v.isFinite then v else 0.0) + 0.5)⌋ := by
  rw [values, sequence, List.map_map]
  refine List.map_congr_left fun k _ => ?_
  obtain ⟨finite, whole⟩ := floor_spec (add_half (isFinite_output (t.eval (countToFloat (k + 1))))).2
  dsimp only [Function.comp_apply]
  rw [roundHalfUp, truncate?_of_exact finite whole, Option.getD_some]

/-- Every value is a number that a finite double stands for. -/
theorem exists_exact_of_mem {share : PrimeShare} {t : Expr} {z : Int} (member : z ∈ share.values t) :
    ∃ x : Float, x.isFinite = true ∧ exact x = z := by
  rw [values_eq] at member
  obtain ⟨k, -, rfl⟩ := List.mem_map.mp member
  exact ⟨_, floor_spec (add_half (isFinite_output _)).2⟩

/-- Different values are different doubles, so there are fewer of them than bit patterns. -/
theorem card_values_lt (share : PrimeShare) (t : Expr) :
    (share.values t).toFinset.card < 2 ^ 64 := by
  have keys : (share.values t).toFinset.card ≤ (Finset.Ioo (-2 ^ 63 : Int) (2 ^ 63)).card := by
    refine Finset.card_le_card_of_injOn (fun z => key (ofInt z)) (fun z _ => ?_) ?_
    · have size := magnitudeOfRatio_le (z : ℚ).num.natAbs (z : ℚ).den
      have top : infinityBits < 2 ^ 63 := by decide
      dsimp only
      rw [ofInt_eq_nearest, key_nearest, Finset.mem_coe, Finset.mem_Ioo, magnitudeOf]
      split <;> omega
    · intro z member z' member' same
      obtain ⟨x, finite, exactly⟩ := exists_exact_of_mem (List.mem_toFinset.mp member)
      obtain ⟨x', finite', exactly'⟩ := exists_exact_of_mem (List.mem_toFinset.mp member')
      dsimp only at same
      rw [ofInt_eq_nearest, ofInt_eq_nearest, ← exactly, ← exactly', key_nearest_exact finite,
        key_nearest_exact finite'] at same
      have equal : exact x = exact x' :=
        le_antisymm ((key_le_iff finite finite').mp same.le) ((key_le_iff finite' finite).mp same.ge)
      rw [exactly, exactly'] at equal
      exact_mod_cast equal
  rw [Int.card_Ioo] at keys
  omega

/-! ### Scores -/

/-- The counts of a score are the sizes of two finite sets. -/
theorem run_score (share : PrimeShare) (t : Expr) (o : Oracle) :
    ((share.score t).run o).1 =
      let primes := countToFloat (hits o (share.values t)).card
      let ratio := atMostOne (primes / share.full)
      ⟨ratio, [("unique_numbers", countToFloat (share.values t).toFinset.card),
        ("unique_primes", primes), ("hit_ratio", ratio), ("complexity", complexity t.text)],
        true⟩ := by
  rw [← countPrimes_magnitudes, ← size_ofList]
  rfl

/-- The score of a function counts the hits among its values: the different magnitudes from two to
`2 ^ 53` that the oracle calls prime.  However many values are looked at, there are no more hits than
different values and no more of these than values.  So the share of hits is never cut down to one, and
it is one only if all magnitudes are different and hits. -/
theorem score_counts (t : Expr) {count : Nat} (positive : 1 ≤ count) (o : Oracle) :
    let share := ofNat count
    let values := share.values t
    let ratio := ofInt (hits o values).card / ofInt count
    values = (List.range count).map (fun k =>
        let v := t.eval (countToFloat (k + 1))
        ⌊exact ((if v.isFinite then v else 0.0) + 0.5)⌋) ∧
      ((share.score t).run o).1 =
        ⟨ratio, [("unique_numbers", ofInt values.toFinset.card),
          ("unique_primes", ofInt (hits o values).card), ("hit_ratio", ratio),
          ("complexity", complexity t.text)], true⟩ ∧
      (hits o values).card ≤ values.toFinset.card ∧ values.toFinset.card ≤ count ∧
      (count ≤ 2 ^ 53 → exact (ofInt values.toFinset.card) = values.toFinset.card ∧
        exact (ofInt (hits o values).card) = (hits o values).card ∧
        ratio = nearest ((hits o values).card / count)) ∧
      (ratio = 1.0 ↔ (values.map Int.natAbs).Nodup ∧ ∀ n ∈ values.map Int.natAbs, IsHit o n) ∧
      ((∀ n : Nat, 2 ≤ n → n ≤ maxExactInteger → ((o.isPrime n).1 = true ↔ n.Prime)) →
        ∀ n, IsHit o n ↔ n.Prime ∧ n ≤ maxExactInteger) ∧
      (count ≤ largestSample → ofQuantity? (.whole count) = some share) := by
  intro share values ratio
  have positions : values = _ := values_eq share t
  have length : values.length = count := by
    rw [positions, List.length_map, List.length_range]
    rfl
  have hitsAtMost := card_hits_le o values
  have valuesAtMost := List.toFinset_card_le values
  rw [length] at valuesAtMost
  have few := card_hits_lt o values
  have atMost := hitsAtMost.trans valuesAtMost
  obtain ⟨-, -, rounded⟩ := ofInt_div_ofInt_spec few positive
  have exactly {n : Nat} (small : n ≤ 2 ^ 53) : exact (ofInt n) = n := (ofInt_spec (n := n) small).2.1
  refine ⟨positions, ?_, hitsAtMost, valuesAtMost, fun small => ?_, ?_, isHit_iff,
    fun small => if_pos small⟩
  · have primes : countToFloat (hits o values).card = ofInt (hits o values).card :=
      countToFloat_eq (few.trans (by decide))
    have distinct : countToFloat values.toFinset.card = ofInt values.toFinset.card :=
      countToFloat_eq (card_values_lt share t)
    rw [run_score]
    dsimp only
    rw [primes, distinct]
    change Score.mk (atMostOne ratio) [_, _, ("hit_ratio", atMostOne ratio), _] true = _
    rw [atMostOne_ofInt_div few positive atMost]
  · exact ⟨exactly (valuesAtMost.trans small), exactly few.le, rounded small⟩
  · rw [← card_hits_eq_iff, length]
    exact ofInt_div_eq_one_iff few positive atMost

/-- From one to five, `n - 3` takes five values, and two of them have the magnitude of the prime
two. -/
theorem score_counts_shifted :
    let t : Expr := .binary .sub .var (.const 3.0)
    let o := Oracle.empty 100
    1 ≤ 5 ∧ (ofNat 5).values t = [-2, -1, 0, 1, 2] ∧
      (((ofNat 5).score t).run o).1.total = nearest (1 / 5) ∧
      (((ofNat 5).score t).run o).1.components.take 2 =
        [("unique_numbers", 5.0), ("unique_primes", 1.0)] := by
  intro t o
  have positive : 1 ≤ 5 := by decide
  obtain ⟨-, score, -, -, rounded, -⟩ := score_counts t positive o
  have values : (ofNat 5).values t = [-2, -1, 0, 1, 2] := by decide +kernel
  have hit : (hits o [-2, -1, 0, 1, 2]).card = 1 := by decide
  obtain ⟨-, -, rounded⟩ := rounded (by decide)
  rw [values, hit] at score rounded
  rw [score]
  refine ⟨positive, values, ?_, ?_⟩
  · rw [rounded]
    norm_num
  · have five : ofInt ([-2, -1, 0, 1, 2] : List Int).toFinset.card = 5.0 := by decide
    have one : ofInt (1 : Nat) = 1.0 := by decide
    rw [five, one]
    rfl

end PrimeShare

end PrimeSearch
