/-
Module: PrimeSearch.Proofs.Expr.Coefficients
Purpose: What a random change of a coefficient does to a polynomial.
Main exports: Expr.exchange, Expr.replaceMatching_const, perturbCoefficient_whole,
  Expr.perturb_yields, Expr.perturb_one_coefficient
-/
import PrimeSearch.Expr.Mutation
import PrimeSearch.Proofs.Expr.Skeleton
import PrimeSearch.Proofs.Number.Arithmetic

namespace PrimeSearch

open Binary64

/-!
Replacing one constant by another wherever it occurs is a change of constants: what is put in is not
searched again, so a constant that becomes equal to others does not take them along.  A whole
coefficient stays whole, because the sum of a whole number of at most 52 bits and a small one is a
double as it stands.
-/

/-! ### One whole coefficient -/

/-- How far a whole coefficient goes: by two at most and not to zero, or from two past zero to the
unit on the other side. -/
def Nudged (z z' : Int) : Prop :=
  z' ≠ 0 ∧ ((z' - z).natAbs ≤ 2 ∨ z = 2 ∧ z' = -1 ∨ z = -2 ∧ z' = 1)

/-- A whole coefficient stays whole. -/
theorem perturbCoefficient_whole {c : Float} {z : Int} (whole : exact c = z) (big : 1 < z.natAbs)
    (short : z.natAbs < 2 ^ 52) :
    (perturbCoefficient c).Yields fun c' => ∃ z' : Int, exact c' = z' ∧ Nudged z z' := by
  obtain rfl := eq_ofInt whole (by omega)
  obtain ⟨finite, -, integral⟩ := ofInt_spec (n := z) (by omega)
  have above : 1.0 < (ofInt z).abs := by
    have one : (1.0 : Float) = ofInt 1 := by decide
    obtain ⟨finite', exactly, -⟩ := ofInt_spec (n := 1) (by omega)
    rw [one, lt_iff_exact finite' (isFinite_abs finite), exactly, exact_abs, whole, ← Int.cast_abs,
      Int.abs_eq_natAbs]
    exact_mod_cast big
  unfold perturbCoefficient
  rw [if_pos integral]
  refine .bind (.integer _ _ _) fun step range => ?_
  have moved := ofInt_add_ofInt (a := z) (b := step) (by omega) (by omega) (.inl (by omega))
  obtain ⟨finiteSum, exactSum, -⟩ := ofInt_spec (n := z + step) (by omega)
  have collapses : (ofInt z + ofInt step == 0.0 && 1.0 < (ofInt z).abs) = true ↔ z + step = 0 := by
    rw [Bool.and_eq_true, decide_eq_true_iff, and_iff_left above, moved,
      beq_iff_exact finiteSum ((isFinite_iff _).mpr ⟨_, _, _, decode_zero⟩), exactSum, exact_zero]
    exact_mod_cast Iff.rfl
  refine .ite (fun collapse => ?_) fun stays => .pure ?_
  · -- Only two and minus two are taken down to zero.
    rw [collapses] at collapse
    have start : z = 2 ∨ z = -2 := by omega
    refine .bind (.any _) fun up _ => .pure ?_
    have unit : exact 1.0 = (1 : Int) ∧ exact (-1.0) = (-1 : Int) := by
      obtain ⟨-, exactly, -⟩ := ofInt_spec (n := 1) (by omega)
      obtain ⟨-, exactly', -⟩ := ofInt_spec (n := -1) (by omega)
      rw [← exactly, ← exactly']
      exact ⟨congrArg exact (by decide), congrArg exact (by decide)⟩
    cases up with
    | true => exact ⟨1, unit.1, by decide, by omega⟩
    | false => exact ⟨-1, unit.2, by decide, by omega⟩
  · rw [collapses] at stays
    exact ⟨z + step, by rw [moved, exactSum], stays, .inl (by omega)⟩

namespace Expr

/-! ### One coefficient of a polynomial -/

/-- What is equal to one constant as numbers go becomes another; all else stays. -/
def exchange (c c' v : Float) : Float := if v == c then c' else v

/-- Replacing a constant is a change of constants. -/
theorem replaceMatching_const (t : Expr) (c c' : Float) :
    t.replaceMatching (.const c) (.const c') = t.mapConst (exchange c c') := by
  induction t with
  | const v =>
      rw [replaceMatching, mapConst, exchange, agrees]
      split <;> rfl
  | var => rfl
  | mod child m ih =>
      rw [replaceMatching, mapConst, ← ih]
      exact if_neg Bool.false_ne_true
  | unary op child ih =>
      rw [replaceMatching, mapConst, ← ih]
      exact if_neg Bool.false_ne_true
  | binary op left right ihLeft ihRight =>
      rw [replaceMatching, mapConst, ← ihLeft, ← ihRight]
      exact if_neg Bool.false_ne_true

@[simp] theorem isPolynomial_mapConst (change : Float → Float) (t : Expr) :
    (t.mapConst change).isPolynomial = t.isPolynomial := by
  induction t with
  | const | var => rfl
  | mod child m ih => rw [mapConst, isPolynomial, isPolynomial, ih]
  | unary op child ih => rw [mapConst, isPolynomial, isPolynomial, ih]
  | binary op left right ihLeft ihRight =>
      rw [mapConst, isPolynomial, isPolynomial, ihLeft, ihRight]

/-- The constant occurs in the expression. -/
def HasConst (t : Expr) (c : Float) : Prop := ∃ path, (path, Expr.const c) ∈ t.positions

/-- The constants are those that occur. -/
theorem mem_constants_iff {t : Expr} {c : Float} : c ∈ t.constants ↔ t.HasConst c := by
  have under_iff {i : Int} {places : List (Path × Expr)} :
      (∃ path, (path, Expr.const c) ∈ under i places) ↔
        ∃ path, (path, Expr.const c) ∈ places := by
    constructor
    · rintro ⟨path, listed⟩
      cases path with
      | nil => exact absurd listed mem_under_nil
      | cons j rest => exact ⟨rest, (mem_under_cons.mp listed).2⟩
    · rintro ⟨path, listed⟩
      exact ⟨i :: path, mem_under_cons.mpr ⟨rfl, listed⟩⟩
  unfold HasConst
  induction t with
  | const v => simp [constants]
  | var => simp [constants]
  | mod child m ih => simp [constants, ih, under_iff]
  | unary op child ih => simp [constants, ih, under_iff]
  | binary op left right ihLeft ihRight =>
      simp [constants, ihLeft, ihRight, exists_or, under_iff]

/-- Perturbing changes one of the constants, wherever it occurs. -/
theorem perturb_yields (t : Expr) : t.perturb.Yields fun r =>
    ((∀ c, ¬t.HasConst c) → r = t) ∧
    ((∃ c, t.HasConst c) → ∃ c c', t.HasConst c ∧ r = t.mapConst (exchange c c') ∧
      ∀ z : Int, exact c = z → 1 < z.natAbs → z.natAbs < 2 ^ 52 →
        ∃ z' : Int, exact c' = z' ∧ Nudged z z') := by
  unfold perturb
  split
  next none =>
    refine .pure ⟨fun _ => rfl, ?_⟩
    rintro ⟨c, occurs⟩
    rw [← mem_constants_iff, none] at occurs
    cases occurs
  next first rest constants =>
    have occurs {c : Float} (member : c ∈ first :: rest) : t.HasConst c := by
      rwa [← mem_constants_iff, constants]
    refine .bind (.choose _ _) fun c member => ?_
    have moved : (perturbCoefficient c).Yields fun c' =>
        ∀ z : Int, exact c = z → 1 < z.natAbs → z.natAbs < 2 ^ 52 →
          ∃ z' : Int, exact c' = z' ∧ Nudged z z' :=
      fun source z whole big short => perturbCoefficient_whole whole big short source
    refine .bind moved fun c' whole => .pure ⟨?_, ?_⟩
    · intro none
      exact absurd (occurs List.mem_cons_self) (none first)
    · intro _
      exact ⟨c, c', occurs member, t.replaceMatching_const c c', whole⟩

/-- Perturbing a polynomial changes one coefficient everywhere and nothing else.  It is what a random
change of a polynomial does when the first number drawn is low enough.  The result is a polynomial.
Without constants it is the polynomial as it was.  Otherwise there is a constant that occurs and
another one in its place: on all paths stands what stood there, and no path is lost or new, except
that each constant equal to the one, as numbers go, has become the other.  If the one is a whole number
of at most 52 bits and beyond one, the other is a whole number, not zero, and at most two away; only
two and minus two may also go past zero to the unit on the other side. -/
theorem perturb_one_coefficient {t : Expr} (polynomial : t.isPolynomial = true) :
    (∀ depth source, source.next.1 < 0.15 →
      (t.mutate depth).run source = t.perturb.run source.next.2) ∧
    t.perturb.Yields fun r =>
      r.isPolynomial = true ∧
      ((∀ c, ¬t.HasConst c) → r = t) ∧
      ((∃ c, t.HasConst c) → ∃ c c', t.HasConst c ∧
        r.layout = t.layout.map (fun place => (place.1, place.2.mapConst (exchange c c'))) ∧
        ∀ z : Int, exact c = z → 1 < z.natAbs → z.natAbs < 2 ^ 52 →
          ∃ z' : Int, exact c' = z' ∧ z' ≠ 0 ∧
            ((z' - z).natAbs ≤ 2 ∨ z = 2 ∧ z' = -1 ∨ z = -2 ∧ z' = 1)) := by
  constructor
  · intro depth source low
    have chosen : (decide (source.next.1 < 0.15) && t.isPolynomial) = true := by
      rw [decide_eq_true low, polynomial]
      rfl
    change ((if decide (source.next.1 < 0.15) && t.isPolynomial then t.perturb else _ :
      Draw Expr)).run source.next.2 = _
    rw [if_pos chosen]
  · refine t.perturb_yields.mono fun r ⟨unchanged, changed⟩ => ⟨?_, unchanged, ?_⟩
    · by_cases occurs : ∃ c, t.HasConst c
      · obtain ⟨c, c', -, rfl, -⟩ := changed occurs
        rw [isPolynomial_mapConst, polynomial]
      · rw [unchanged (not_exists.mp occurs), polynomial]
    · intro occurs
      obtain ⟨c, c', occurs, rfl, whole⟩ := changed occurs
      exact ⟨c, c', occurs, t.layout_mapConst _, whole⟩

/-- In `2 * n + 2` both constants are changed alike. -/
theorem perturb_one_coefficient_sum :
    let t : Expr := .binary .add (.binary .mul (.const 2.0) .var) (.const 2.0)
    t.isPolynomial = true ∧ t.perturb.Yields fun r => ∃ c c', t.HasConst c ∧
      r.layout = t.layout.map fun place => (place.1, place.2.mapConst (exchange c c')) := by
  intro t
  obtain ⟨-, yields⟩ := perturb_one_coefficient (t := t) rfl
  refine ⟨rfl, yields.mono fun r ⟨_, _, changed⟩ => ?_⟩
  obtain ⟨c, c', occurs, layout, -⟩ := changed ⟨2.0, [1], by simp [t]⟩
  exact ⟨c, c', occurs, layout⟩

/-- The coefficient `2` may become `-1`, three away: nothing else has become of it that would be at
most two away. -/
theorem perturb_two_past_zero :
    let t : Expr := .const 2.0
    let source : Source := ⟨[0.0, 0.0, 0.9], 0, 0⟩
    let r := (t.perturb.run source).1
    t.isPolynomial = true ∧ r = .const (-1.0) ∧
      ¬∃ c c', t.HasConst c ∧
        r.layout = t.layout.map (fun place => (place.1, place.2.mapConst (exchange c c'))) ∧
        ∀ z : Int, exact c = z → 1 < z.natAbs → z.natAbs < 2 ^ 52 →
          ∃ z' : Int, exact c' = z' ∧ z' ≠ 0 ∧ (z' - z).natAbs ≤ 2 := by
  intro t source r
  have result : r = .const (-1.0) := by decide
  refine ⟨rfl, result, ?_⟩
  rintro ⟨c, c', ⟨path, listed⟩, layout, near⟩
  have two : exact 2.0 = (2 : Int) := by
    rw [show (2.0 : Float) = Binary64.ofInt 2 by decide]
    exact (ofInt_spec (by omega)).2.1
  have minusOne : exact (-1.0) = (-1 : Int) := by
    rw [show (-1.0 : Float) = Binary64.ofInt (-1) by decide]
    exact (ofInt_spec (by omega)).2.1
  obtain rfl : c = 2.0 := by
    simp only [t, positions_const, List.mem_singleton, Prod.mk.injEq, Expr.const.injEq] at listed
    exact listed.2
  have same : exchange 2.0 c' 2.0 = c' := if_pos (by decide)
  rw [result] at layout
  simp only [t, Expr.layout, positions_const, List.map_cons, List.map_nil, symbol, Symbol.mapConst,
    same, List.cons.injEq, Prod.mk.injEq, Symbol.const.injEq, true_and, and_true] at layout
  obtain ⟨z', whole, -, close⟩ := near 2 two (by decide) (by decide)
  rw [← layout, minusOne] at whole
  obtain rfl : -1 = z' := by exact_mod_cast whole
  exact absurd close (by decide)

end Expr

end PrimeSearch
