/-
Module: PrimeSearch.Proofs.Number.Literal
Purpose: Written numbers in parts, the number that the parts stand for, and the proof that a
  number is written in a form that is read back.
Main exports: Literal, Literal.chars, Literal.value, spanNumber_chars, exists_literal_of_layout
-/
import PrimeSearch.Number.Numeral
import PrimeSearch.Proofs.Number.Shortest
import Mathlib.Data.List.TakeWhile

namespace PrimeSearch

open Decimal

/-! ### Runs of characters -/

/-- The text goes on with a character outside the class, or it ends. -/
def Stops (inside : Char → Bool) (rest : List Char) : Prop :=
  ∀ c ∈ rest.head?, inside c = false

theorem span_append {inside : Char → Bool} {front rest : List Char}
    (all : ∀ c ∈ front, inside c = true) (stops : Stops inside rest) :
    (front ++ rest).span inside = (front, rest) := by
  rw [List.span_eq_takeWhile_dropWhile, List.takeWhile_append_of_pos all,
    List.dropWhile_append_of_pos all]
  cases rest with
  | nil => simp
  | cons c tail =>
      have outside : inside c = false := stops c rfl
      simp [outside]

theorem span_of_stops {inside : Char → Bool} {rest : List Char} (stops : Stops inside rest) :
    rest.span inside = ([], rest) :=
  @span_append inside [] rest (by simp) stops

/-- Every character is one of the ten digits `0` to `9`. -/
def Digits (cs : List Char) : Prop := ∀ c ∈ cs, c.isDigit = true

namespace Digits

theorem append {cs ds : List Char} (front : Digits cs) (back : Digits ds) : Digits (cs ++ ds) := by
  intro c member
  rcases List.mem_append.mp member with inFront | inBack
  · exact front c inFront
  · exact back c inBack

theorem sublist {cs ds : List Char} (all : Digits cs) (part : ds.Sublist cs) : Digits ds :=
  fun c member => all c (part.subset member)

theorem zeros (n : Nat) : Digits (List.replicate n '0') := by
  intro c member
  rw [List.eq_of_mem_replicate member]
  rfl

theorem ofNat (n : Nat) : Digits (digits n) := fun _ member =>
  Nat.isDigit_of_mem_toDigits (by decide) (by decide) member

theorem digitValue?_eq {c : Char} (digit : c.isDigit = true) :
    digitValue? c = some (c.toNat - '0'.toNat) := by
  obtain ⟨low, high⟩ := Char.isDigit_iff_toNat.mp digit
  have ascii : c.toNat < 0x80 := Nat.lt_of_le_of_lt high (by decide)
  unfold digitValue?
  rw [if_pos ascii, if_pos ⟨low, high⟩]
  rfl

theorem isDigit {cs : List Char} (all : Digits cs) : ∀ c ∈ cs, PrimeSearch.isDigit c = true := by
  intro c member
  rw [PrimeSearch.isDigit, digitValue?_eq (all c member)]
  rfl

/-- The value of digits is the number that they are the decimal digits of. -/
theorem value_eq {cs : List Char} (all : Digits cs) :
    Numeral.digitsValue cs = Nat.ofDigitChars 10 cs 0 := by
  unfold Numeral.digitsValue Nat.ofDigitChars
  apply List.foldl_ext
  intro n c member
  rw [digitValue?_eq (all c member), Option.getD_some]

end Digits

/-! ### Parts of a written number -/

/-- A written number: digits, perhaps a point and more digits, perhaps a power of ten with its
sign. -/
structure Literal where
  whole : List Char
  whole_ne_nil : whole ≠ []
  whole_digits : Digits whole
  fraction : Option (List Char)
  fraction_digits : ∀ ds ∈ fraction, Digits ds
  power : Option (Bool × List Char)
  power_digits : ∀ p ∈ power, p.2 ≠ [] ∧ Digits p.2

namespace Literal

/-- The point and what follows it. -/
def fractionChars : Option (List Char) → List Char
  | none => []
  | some ds => '.' :: ds

/-- The power of ten with its marker and its sign. -/
def powerChars : Option (Bool × List Char) → List Char
  | none => []
  | some (negative, ds) => 'e' :: (if negative then '-' else '+') :: ds

/-- The written form. -/
def chars (l : Literal) : List Char := l.whole ++ (fractionChars l.fraction ++ powerChars l.power)

/-- The digits before and after the point. -/
def coefficient (l : Literal) : Nat := Numeral.digitsValue (l.whole ++ l.fraction.getD [])

/-- The written power of ten. -/
def powerValue : Option (Bool × List Char) → Int
  | none => 0
  | some (negative, ds) =>
      if negative then -(Numeral.digitsValue ds : Int) else Numeral.digitsValue ds

/-- The power of ten of the last digit. -/
def exponent (l : Literal) : Int := powerValue l.power - (l.fraction.getD []).length

/-- The number that is written. -/
def value (l : Literal) : ℚ := (⟨l.coefficient, l.exponent⟩ : Decimal).value

/-- What follows a number does not go on with it. -/
def Ends (rest : List Char) : Prop :=
  ∀ c ∈ rest.head?, PrimeSearch.isDigit c = false ∧ c ≠ '.' ∧ c ≠ 'e' ∧ c ≠ 'E'

theorem ends_nil : Ends [] := by
  intro c member
  cases member

theorem stops_of_ends {rest : List Char} (ends : Ends rest) : Stops PrimeSearch.isDigit rest :=
  fun c member => (ends c member).1

/-- After the digits before the point no digit follows. -/
theorem stops_tail (l : Literal) {rest : List Char} (ends : Ends rest) :
    Stops PrimeSearch.isDigit (fractionChars l.fraction ++ powerChars l.power ++ rest) := by
  rcases l.fraction with _ | ds
  · rcases l.power with _ | ⟨negative, ds⟩
    · exact stops_of_ends ends
    · intro c member
      cases member
      rfl
  · intro c member
    cases member
    rfl

/-- After the digits behind the point no digit follows. -/
theorem stops_power (l : Literal) {rest : List Char} (ends : Ends rest) :
    Stops PrimeSearch.isDigit (powerChars l.power ++ rest) := by
  rcases l.power with _ | ⟨negative, ds⟩
  · exact stops_of_ends ends
  · intro c member
    cases member
    rfl

/-- After the digits behind the point no other point follows. -/
theorem noPoint_power (l : Literal) {rest : List Char} (ends : Ends rest) :
    ∀ c ∈ (powerChars l.power ++ rest).head?, c ≠ '.' := by
  rcases l.power with _ | ⟨negative, ds⟩
  · exact fun c member => (ends c member).2.1
  · intro c member
    cases member
    decide

theorem spanSign_sign (negative : Bool) (rest : List Char) :
    Numeral.spanSign ((if negative then '-' else '+') :: rest) = (negative, rest) := by
  cases negative <;> rfl

theorem spanExponent_chars (l : Literal) {rest : List Char} (ends : Ends rest) :
    Numeral.spanExponent (powerChars l.power ++ rest) =
      l.power.map fun p => (powerValue (some p), rest) := by
  rcases h : l.power with _ | ⟨negative, ds⟩
  · cases rest with
    | nil => rfl
    | cons c tail =>
        obtain ⟨-, -, notLower, notUpper⟩ := ends c rfl
        simp [powerChars, Numeral.spanExponent, notLower, notUpper]
  · obtain ⟨nonempty, digits⟩ := l.power_digits _ (by rw [h]; rfl)
    have run : Numeral.spanDigits (ds ++ rest) = (ds, rest) :=
      span_append digits.isDigit (stops_of_ends ends)
    obtain ⟨d, tail, rfl⟩ := List.exists_cons_of_ne_nil nonempty
    rw [powerChars, List.cons_append, List.cons_append, Numeral.spanExponent, if_pos (Or.inl rfl),
      spanSign_sign]
    dsimp only
    rw [run]
    rfl

theorem spanFraction_of_ne {cs : List Char} (noPoint : ∀ c ∈ cs.head?, c ≠ '.') :
    Numeral.spanFraction cs = ([], cs, false) := by
  unfold Numeral.spanFraction
  split
  next tail => exact absurd rfl (noPoint '.' rfl)
  next => rfl

theorem spanFraction_chars (l : Literal) {rest : List Char} (ends : Ends rest) :
    Numeral.spanFraction (fractionChars l.fraction ++ powerChars l.power ++ rest) =
      (l.fraction.getD [], powerChars l.power ++ rest, l.fraction.isSome) := by
  rcases h : l.fraction with _ | ds
  · exact spanFraction_of_ne (l.noPoint_power ends)
  · have run : Numeral.spanDigits (ds ++ (powerChars l.power ++ rest)) =
        (ds, powerChars l.power ++ rest) :=
      span_append (l.fraction_digits ds h).isDigit (l.stops_power ends)
    simp only [fractionChars, List.cons_append, List.append_assoc, Numeral.spanFraction, run,
      Option.getD_some, Option.isSome_some]

/-- A written number is read as the number that it stands for. -/
theorem spanNumber_chars (l : Literal) {rest : List Char} (ends : Ends rest) :
    Numeral.spanNumber (l.chars ++ rest) = some (l.coefficient, l.exponent, rest) := by
  have whole : Numeral.spanDigits (l.chars ++ rest) =
      (l.whole, fractionChars l.fraction ++ powerChars l.power ++ rest) := by
    rw [chars, List.append_assoc]
    exact span_append l.whole_digits.isDigit (l.stops_tail ends)
  have nonempty : l.whole.isEmpty = false := by simpa using l.whole_ne_nil
  have power := l.spanExponent_chars ends
  unfold Numeral.spanNumber
  rw [whole]
  simp only [l.spanFraction_chars ends, l.spanExponent_chars ends, nonempty, Bool.false_and,
    Bool.false_eq_true, if_false]
  rcases h : l.power with _ | ⟨negative, ds⟩
  · simp [coefficient, exponent, h, powerValue, powerChars]
  · simp [coefficient, exponent, h]

end Literal

/-! ### Layout of a decimal -/

theorem Literal.coefficient_eq (l : Literal) :
    l.coefficient = Nat.ofDigitChars 10 (l.whole ++ l.fraction.getD []) 0 := by
  have fraction : Digits (l.fraction.getD []) := by
    rcases h : l.fraction with _ | ds
    · exact fun c member => absurd member List.not_mem_nil
    · exact l.fraction_digits ds h
  exact (l.whole_digits.append fraction).value_eq

/-- A whole number as it is written. -/
def Literal.ofNat (n : Nat) : Literal where
  whole := digits n
  whole_ne_nil := Nat.toDigits_ne_nil
  whole_digits := .ofNat n
  fraction := none
  fraction_digits := by simp
  power := none
  power_digits := by simp

theorem Literal.chars_ofNat (n : Nat) : (Literal.ofNat n).chars = digits n := by
  simp [Literal.ofNat, Literal.chars, fractionChars, powerChars]

theorem Literal.coefficient_ofNat (n : Nat) : (Literal.ofNat n).coefficient = n := by
  simp only [coefficient, Literal.ofNat, Option.getD_none, List.append_nil]
  rw [(Digits.ofNat n).value_eq]
  exact Nat.ofDigitChars_ten_toDigits

theorem Literal.exponent_ofNat (n : Nat) : (Literal.ofNat n).exponent = 0 := rfl

/-- The sign and the digits of a written power of ten. -/
theorem exists_power_of_exponentText (e : Int) :
    ∃ power : Bool × List Char, (power.2 ≠ [] ∧ Digits power.2) ∧
      (Numeral.exponentText Numeral.exact e).toList = Literal.powerChars (some power) ∧
      Literal.powerValue (some power) = e := by
  let zeros := List.replicate (2 - characterCount (digits e.natAbs)) '0'
  have all : Digits (zeros ++ digits e.natAbs) := (Digits.zeros _).append (.ofNat _)
  have value : Numeral.digitsValue (zeros ++ digits e.natAbs) = e.natAbs := by
    rw [all.value_eq, Nat.ofDigitChars_append, Nat.ofDigitChars_replicate_zero, Nat.mul_zero]
    exact Nat.ofDigitChars_ten_toDigits
  refine ⟨(decide (e < 0), zeros ++ digits e.natAbs), ⟨by simp [digits], all⟩, ?_, ?_⟩
  · by_cases negative : e < 0 <;>
      simp [Numeral.exponentText, Numeral.padLeft, Numeral.ofNat, Numeral.exact, zeros, negative,
        Literal.powerChars]
  · by_cases negative : e < 0
    · simp only [Literal.powerValue, negative, decide_true, if_true, value]
      omega
    · simp only [Literal.powerValue, negative, decide_false, Bool.false_eq_true, if_false, value]
      omega

/-! ### The layouts of a decimal

The digits of a decimal are written in one of four ways, by where the point stands.
-/

section
variable {ds : List Char}

/-- Digits, zeros, and a point behind them. -/
theorem exists_literal_whole (all : Digits ds) (nonempty : ds ≠ []) (k : Nat) :
    ∃ l : Literal, l.chars = ds ++ List.replicate k '0' ++ ['.', '0'] ∧
      l.value = (Nat.ofDigitChars 10 ds 0 : ℚ) * 10 ^ (k : Int) := by
  have whole : Digits (ds ++ List.replicate k '0') := all.append (.zeros k)
  refine ⟨⟨ds ++ List.replicate k '0', by simp [nonempty], whole, some ['0'], by simp [Digits],
    none, by simp⟩, ?_, ?_⟩
  · simp [Literal.chars, Literal.fractionChars, Literal.powerChars]
  · rw [Literal.value, Literal.coefficient_eq]
    simp only [Literal.exponent, Literal.powerValue, Option.getD_some, Decimal.value,
      Nat.ofDigitChars_append, Nat.ofDigitChars_replicate_zero, Nat.ofDigitChars_cons,
      Nat.ofDigitChars_nil]
    simp
    ring

/-- Digits with a point among them. -/
theorem exists_literal_inside (all : Digits ds) {w : Nat} (some : 0 < w) (inside : w ≤ ds.length) :
    ∃ l : Literal, l.chars = ds.take w ++ '.' :: ds.drop w ∧
      l.value = (Nat.ofDigitChars 10 ds 0 : ℚ) * 10 ^ ((w : Int) - ds.length) := by
  have kept : (ds.take w).length = w := List.length_take_of_le inside
  refine ⟨⟨ds.take w, by rw [← List.length_pos_iff]; omega,
    all.sublist (List.take_sublist w ds), Option.some (ds.drop w),
    by simpa using all.sublist (List.drop_sublist w ds), none, by simp⟩, ?_, ?_⟩
  · simp [Literal.chars, Literal.fractionChars, Literal.powerChars]
  · rw [Literal.value, Literal.coefficient_eq]
    simp only [Literal.exponent, Literal.powerValue, Option.getD_some, Decimal.value,
      List.take_append_drop, List.length_drop]
    congr 2
    omega

/-- A point, zeros, and the digits behind them. -/
theorem exists_literal_below (all : Digits ds) (k : Nat) :
    ∃ l : Literal, l.chars = '0' :: '.' :: (List.replicate k '0' ++ ds) ∧
      l.value = (Nat.ofDigitChars 10 ds 0 : ℚ) * 10 ^ (-(k : Int) - ds.length) := by
  refine ⟨⟨['0'], by simp, by simp [Digits], some (List.replicate k '0' ++ ds),
    by simpa using (Digits.zeros k).append all, none, by simp⟩, ?_, ?_⟩
  · simp [Literal.chars, Literal.fractionChars, Literal.powerChars]
  · rw [Literal.value, Literal.coefficient_eq]
    simp only [Literal.exponent, Literal.powerValue, Option.getD_some, Decimal.value,
      Nat.ofDigitChars_append, Nat.ofDigitChars_replicate_zero, Nat.ofDigitChars_cons,
      Nat.ofDigitChars_nil, List.length_append, List.length_replicate]
    simp only [Nat.sub_self, Nat.mul_zero, Nat.add_zero]
    congr 2
    push_cast
    ring

/-- One digit, a point if more digits follow, and a power of ten. -/
theorem exists_literal_scientific {first : Char} {rest : List Char}
    (all : Digits (first :: rest)) (e : Int) :
    ∃ l : Literal,
      l.chars = first :: (if rest.isEmpty then [] else '.' :: rest) ++
        (Numeral.exponentText Numeral.exact e).toList ∧
      l.value = (Nat.ofDigitChars 10 (first :: rest) 0 : ℚ) * 10 ^ (e - rest.length) := by
  obtain ⟨power, powerProper, written, powerValue⟩ := exists_power_of_exponentText e
  have back : Digits rest := all.sublist (List.sublist_cons_self first rest)
  let fraction := if rest.isEmpty then none else some rest
  have fractionDigits : ∀ ds ∈ fraction, Digits ds := by
    simp only [fraction]
    split <;> simp [back]
  have fractionValue : fraction.getD [] = rest := by
    simp only [fraction]
    cases rest <;> rfl
  refine ⟨⟨[first], by simp, all.sublist (by simp), fraction, fractionDigits, some power,
    by simpa using powerProper⟩, ?_, ?_⟩
  · simp only [Literal.chars, written, fraction]
    cases rest <;> simp [Literal.fractionChars]
  · rw [Literal.value, Literal.coefficient_eq]
    simp only [Literal.exponent, Decimal.value, fractionValue, powerValue,
      List.singleton_append]

end

/-- A decimal that is not zero is written as a number that stands for it. -/
theorem exists_literal_of_layout {d : Decimal} (positive : 0 < d.coefficient) :
    ∃ l : Literal, l.chars = (Numeral.layout Numeral.exact d).toList ∧ l.value = d.value := by
  obtain ⟨c, e⟩ := d
  have nonzero : c ≠ 0 := positive.ne'
  have all : Digits (digits c) := .ofNat c
  have value : Nat.ofDigitChars 10 (digits c) 0 = c := Nat.ofDigitChars_ten_toDigits
  have nonempty : digits c ≠ [] := Nat.toDigits_ne_nil
  have long : 0 < (digits c).length := List.length_pos_iff.mpr nonempty
  unfold Numeral.layout Decimal.value
  simp only [if_neg nonzero]
  generalize digits c = ds at *
  split
  next positional =>
    split
    next up =>
      obtain ⟨k, rfl⟩ := Int.eq_ofNat_of_zero_le up
      obtain ⟨l, chars, same⟩ := exists_literal_whole all nonempty k
      exact ⟨l, by simp [chars, Numeral.exact], by rw [same, value]⟩
    next down =>
      split
      next inside =>
        obtain ⟨w, hw⟩ := Int.eq_ofNat_of_zero_le (a := e + ds.length) (by omega)
        obtain ⟨l, chars, same⟩ :=
          exists_literal_inside all (w := w) (by omega) (by omega)
        refine ⟨l, ?_, ?_⟩
        · have cut : (e + ds.length).toNat = w := by omega
          simp [chars, cut]
        · rw [same, value, ← hw, add_sub_cancel_right]
      next =>
        obtain ⟨k, hk⟩ := Int.eq_ofNat_of_zero_le (a := -(e + ds.length)) (by omega)
        obtain ⟨l, chars, same⟩ := exists_literal_below all k
        refine ⟨l, ?_, ?_⟩
        · have gap : (-(e + ds.length - 1) - 1).toNat = k := by omega
          rw [gap]
          simp [chars]
        · rw [same, value, show -(k : Int) - ds.length = e by omega]
  next scientific =>
    obtain ⟨first, rest, rfl⟩ := List.exists_cons_of_ne_nil nonempty
    obtain ⟨l, chars, same⟩ := exists_literal_scientific all (e + (first :: rest).length - 1)
    refine ⟨l, ?_, ?_⟩
    · rw [chars]
      cases rest <;> simp
    · rw [same, value, show e + (first :: rest).length - 1 - rest.length = e by
        rw [List.length_cons]
        push_cast
        ring]

end PrimeSearch
