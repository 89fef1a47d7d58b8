/-
Module: PrimeSearch.Proofs.Archive.Stamps
Purpose: The names of run directories of different seconds are ordered as the seconds are.
Main exports: DateTime.Fits, DateTime.Before, DateTime.length_stamp, DateTime.stamp_lt,
  Archive.variant_runName_lt
-/
import PrimeSearch.Proofs.Archive.Naming

namespace PrimeSearch

/-!
All parts of a stamp have a fixed number of digits.  Digits of one length are ordered as the numbers are
that they stand for, so stamps are ordered part by part, and what follows a stamp in a name does not
matter as long as the stamps differ.
-/

/-! ### Digits of one length -/

section
variable {xs ys as bs : List Char}

/-- Texts of one length decide about the order of what begins with them. -/
theorem append_lt_append_of_lt (length : xs.length = ys.length) (below : xs < ys) :
    xs ++ as < ys ++ bs := by
  induction xs generalizing ys with
  | nil =>
      rw [List.length_eq_zero_iff.mp length.symm] at below
      exact absurd below (List.lt_irrefl [])
  | cons x xs ih =>
      cases ys with
      | nil => cases length
      | cons y ys =>
          rw [List.cons_append, List.cons_append, List.cons_lt_cons_iff]
          rcases List.cons_lt_cons_iff.mp below with first | ⟨same, later⟩
          · exact .inl first
          · exact .inr ⟨same, ih (Nat.succ.inj length) later⟩

/-- The first digit counts for more than all others together. -/
theorem ofDigitChars_cons (c : Char) (cs : List Char) :
    Nat.ofDigitChars 10 (c :: cs) 0 =
      10 ^ cs.length * (c.toNat - '0'.toNat) + Nat.ofDigitChars 10 cs 0 := by
  rw [Nat.ofDigitChars_cons, Nat.ofDigitChars_eq_ofDigitChars_zero, Nat.mul_zero, Nat.zero_add]

theorem Digits.value_lt (all : Digits xs) : Nat.ofDigitChars 10 xs 0 < 10 ^ xs.length := by
  induction xs with
  | nil => exact Nat.one_pos
  | cons x xs ih =>
      have later := ih fun c member => all c (List.mem_cons_of_mem x member)
      have digit := (Char.isDigit_iff_toNat.mp (all x List.mem_cons_self)).2
      have nine : x.toNat - '0'.toNat ≤ 9 := by
        have : '0'.toNat = 48 := rfl
        have : '9'.toNat = 57 := rfl
        omega
      rw [ofDigitChars_cons, List.length_cons, Nat.pow_succ]
      have := Nat.mul_le_mul_left (10 ^ xs.length) nine
      omega

/-- Digits of one length come first where they stand for a smaller number. -/
theorem Digits.lt_of_value_lt (first : Digits xs) (second : Digits ys)
    (length : xs.length = ys.length)
    (below : Nat.ofDigitChars 10 xs 0 < Nat.ofDigitChars 10 ys 0) : xs < ys := by
  induction xs generalizing ys with
  | nil =>
      rw [List.length_eq_zero_iff.mp length.symm] at below
      exact absurd below (Nat.lt_irrefl _)
  | cons x xs ih =>
      cases ys with
      | nil => cases length
      | cons y ys =>
          obtain ⟨digit, firsts⟩ := List.forall_mem_cons.mp first
          obtain ⟨digit', seconds⟩ := List.forall_mem_cons.mp second
          have equal : xs.length = ys.length := Nat.succ.inj length
          rw [ofDigitChars_cons, ofDigitChars_cons, ← equal] at below
          have low := (Char.isDigit_iff_toNat.mp digit).1
          have low' := (Char.isDigit_iff_toNat.mp digit').1
          have bound := Digits.value_lt seconds
          rw [← equal] at bound
          rw [List.cons_lt_cons_iff]
          rcases Nat.lt_trichotomy x.toNat y.toNat with smaller | same | greater
          · exact .inl smaller
          · refine .inr ⟨Char.toNat_inj.mp same, ih firsts seconds equal ?_⟩
            rw [same] at below
            exact Nat.lt_of_add_lt_add_left below
          · -- A greater first digit makes the greater number.
            have more : y.toNat - '0'.toNat + 1 ≤ x.toNat - '0'.toNat := by omega
            have := Nat.mul_le_mul_left (10 ^ xs.length) more
            rw [Nat.mul_add, Nat.mul_one] at this
            omega

end

/-! ### Stamps -/

namespace DateTime

variable {width m n : Nat} {t u : DateTime} {as bs : List Char}

theorem length_padded (fits : n < 10 ^ width) (some : 0 < width) :
    (padded width n).toList.length = width := by
  have ascii : ∀ c ∈ (Numeral.ofNat n).toList, Ascii c := fun c member => by
    rw [Numeral.ofNat, String.toList_ofList] at member
    exact ((Digits.ofNat n).tame c member).1
  have few : (Nat.toDigits 10 n).length ≤ width :=
    (Nat.length_toDigits_le_iff (by decide) some).mpr fits
  rw [padded, Numeral.padLeft, characterCount, characters_ascii ascii, String.toList_append,
    String.toList_ofList, Numeral.ofNat, String.toList_ofList, List.length_append,
    List.length_replicate, List.length_map]
  exact Nat.sub_add_cancel few

theorem value_padded (width n : Nat) : Nat.ofDigitChars 10 (padded width n).toList 0 = n := by
  rw [padded, Numeral.padLeft, String.toList_append, String.toList_ofList, Nat.ofDigitChars_append,
    Nat.ofDigitChars_replicate_zero, Nat.mul_zero, Numeral.ofNat, String.toList_ofList]
  exact Nat.ofDigitChars_ten_toDigits

/-- A part of a stamp comes first if it is smaller, or if it is the same and what follows comes
first. -/
theorem padded_append_lt (fits : m < 10 ^ width) (fits' : n < 10 ^ width) (some : 0 < width)
    (order : m < n ∨ m = n ∧ as < bs) :
    (padded width m).toList ++ as < (padded width n).toList ++ bs := by
  rcases order with smaller | ⟨rfl, later⟩
  · refine append_lt_append_of_lt (by rw [length_padded fits some, length_padded fits' some]) ?_
    refine Digits.lt_of_value_lt (digits_padded width m) (digits_padded width n) ?_ ?_
    · rw [length_padded fits some, length_padded fits' some]
    · rwa [value_padded, value_padded]
  · exact List.append_left_lt later

/-- A time with as many digits in each part as a stamp has room for. -/
structure Fits (t : DateTime) : Prop where
  year : t.year < 10 ^ 4
  month : t.month < 10 ^ 2
  day : t.day < 10 ^ 2
  hour : t.hour < 10 ^ 2
  minute : t.minute < 10 ^ 2
  second : t.second < 10 ^ 2

instance : DecidablePred Fits := fun t =>
  decidable_of_iff (t.year < 10 ^ 4 ∧ t.month < 10 ^ 2 ∧ t.day < 10 ^ 2 ∧ t.hour < 10 ^ 2 ∧
      t.minute < 10 ^ 2 ∧ t.second < 10 ^ 2)
    ⟨fun ⟨year, month, day, hour, minute, second⟩ => ⟨year, month, day, hour, minute, second⟩,
      fun ⟨year, month, day, hour, minute, second⟩ => ⟨year, month, day, hour, minute, second⟩⟩

/-- Whether a time comes before another one. -/
def Before (t u : DateTime) : Prop :=
  [t.year, t.month, t.day, t.hour, t.minute, t.second] <
    [u.year, u.month, u.day, u.hour, u.minute, u.second]

instance : DecidableRel Before := fun _ _ => inferInstanceAs (Decidable (_ < _))

theorem toList_stamp (t : DateTime) : t.stamp.toList =
    (padded 4 t.year).toList ++ ((padded 2 t.month).toList ++ ((padded 2 t.day).toList ++
      '_' :: ((padded 2 t.hour).toList ++ ((padded 2 t.minute).toList ++
        ((padded 2 t.second).toList ++ []))))) := by
  simp [stamp]

theorem length_stamp (fits : t.Fits) : t.stamp.toList.length = 15 := by
  simp [toList_stamp, length_padded fits.year, length_padded fits.month, length_padded fits.day,
    length_padded fits.hour, length_padded fits.minute, length_padded fits.second]

/-- Stamps are ordered as times are. -/
theorem stamp_lt (fits : t.Fits) (fits' : u.Fits) (before : t.Before u) :
    t.stamp.toList < u.stamp.toList := by
  have line {cs ds : List Char} (below : cs < ds) : '_' :: cs < '_' :: ds :=
    List.cons_lt_cons_iff.mpr (.inr ⟨rfl, below⟩)
  have two : 0 < 2 := by decide
  rw [toList_stamp, toList_stamp]
  refine padded_append_lt fits.year fits'.year (by decide) ?_
  refine (List.cons_lt_cons_iff.mp before).imp_right (And.imp_right fun before => ?_)
  refine padded_append_lt fits.month fits'.month two ?_
  refine (List.cons_lt_cons_iff.mp before).imp_right (And.imp_right fun before => ?_)
  refine padded_append_lt fits.day fits'.day two ?_
  refine (List.cons_lt_cons_iff.mp before).imp_right (And.imp_right fun before => line ?_)
  refine padded_append_lt fits.hour fits'.hour two ?_
  refine (List.cons_lt_cons_iff.mp before).imp_right (And.imp_right fun before => ?_)
  refine padded_append_lt fits.minute fits'.minute two ?_
  refine (List.cons_lt_cons_iff.mp before).imp_right (And.imp_right fun before => ?_)
  refine padded_append_lt fits.second fits'.second two ?_
  exact (List.cons_lt_cons_iff.mp before).imp_right (And.imp_right fun before =>
    absurd before (List.lt_irrefl []))

end DateTime

namespace Archive

theorem exists_variant_append (wanted : String) (k : Nat) :
    ∃ rest, (variant wanted k).toList = wanted.toList ++ rest := by
  unfold variant
  split
  · exact ⟨[], (List.append_nil _).symm⟩
  · exact ⟨_, by rw [String.append_assoc, String.toList_append]⟩

/-- The name of a run directory comes before all names that are made later, unless it is in the same
second. -/
theorem variant_runName_lt {t u : DateTime} (fits : t.Fits) (fits' : u.Fits) (before : t.Before u)
    (runType runType' description description' : String) (j k : Nat) :
    variant (runName t runType description) j < variant (runName u runType' description') k := by
  obtain ⟨rest, text⟩ := exists_variant_append (runName t runType description) j
  obtain ⟨rest', text'⟩ := exists_variant_append (runName u runType' description') k
  show (variant _ j).toList < (variant _ k).toList
  rw [text, text']
  simp only [runName, String.toList_append, List.append_assoc]
  exact append_lt_append_of_lt (by rw [DateTime.length_stamp fits, DateTime.length_stamp fits'])
    (DateTime.stamp_lt fits fits' before)

end Archive

end PrimeSearch
