/-
Module: PrimeSearch.Proofs.Expr.Canonical
Purpose: When the canonical text of an expression is still its text after it has been read back.
Main exports: Expr.exposed, Expr.length_text_lower, Expr.text_lower, Expr.parse_text_canonical
-/
import PrimeSearch.Expr.Random
import PrimeSearch.Proofs.Expr.RoundTrip
import PrimeSearch.Search.Candidate

namespace PrimeSearch

open Binary64

/-!
A reduction node is written in parentheses wherever it stands, and is read back as an operation, which
is written in parentheses as an operand only.  So the text that is read back loses a pair of
parentheses for every reduction node that is no operand: one that is the whole expression or the
argument of a function.  What is read back has no reduction nodes, and its text stays as it is.
-/

/-! ### Moduli -/

namespace Modulus

/-- No modulus is a named constant, and all are below the limit of whole numbers. -/
theorem toFloat_plain (m : Modulus) : NamedConstant.ofValue? m.toFloat = none ∧
    m.toFloat < Constant.integerLimit := by
  have table : ∀ n ∈ List.range (maxModulus + 1),
      NamedConstant.ofValue? (UInt64.ofNat n).toFloat = none ∧
        (UInt64.ofNat n).toFloat < Constant.integerLimit := by
    decide +kernel
  exact table m.val (List.mem_range.mpr (Nat.lt_succ_of_le m.le_max))

/-- A modulus is written as the number that it is. -/
theorem text_toFloat (m : Modulus) : Constant.text m.toFloat = Numeral.ofNat m.val := by
  obtain ⟨finite, positive, integral, truncated⟩ := m.toFloat_exact
  obtain ⟨unnamed, small⟩ := m.toFloat_plain
  have digits : Constant.magnitudeText m.toFloat = Numeral.ofNat m.val := by
    rw [Constant.magnitudeText, truncated]
    simp only [integral, small, decide_true, Bool.and_self, if_true]
    rfl
  rw [Constant.text, unnamed]
  simp only [positive, Bool.false_eq_true, if_false]
  rw [Constant.abs_eq finite positive, digits]

end Modulus

namespace Expr

/-! ### Reduction nodes that are no operands -/

/-- Whether an expression is a reduction node. -/
def isReduction : Expr → Bool
  | .mod .. => true
  | _ => false

/-- How many reduction nodes of an operand are the argument of a function. -/
def exposedInside : Expr → Nat
  | .const _ | .var => 0
  | .mod child _ => child.exposedInside
  | .unary _ child => child.exposedInside + child.isReduction.toNat
  | .binary _ left right => left.exposedInside + right.exposedInside

/-- How many reduction nodes are the whole expression or the argument of a function. -/
def exposed (t : Expr) : Nat := t.exposedInside + t.isReduction.toNat

theorem isBinary_lower (t : Expr) : t.lower.isBinary = (t.isBinary || t.isReduction) := by
  cases t <;> rfl

/-- The written remainder operation of a reduction node is that of the node, without parentheses. -/
theorem text_lower_mod (child : Expr) (m : Modulus) : (lower (.mod child m)).text =
    operand child.lower.isBinary child.lower.text ++ " % " ++ Numeral.ofNat m.val := by
  have sign : " " ++ BinaryOp.sign .mod ++ " " = " % " := by decide
  have modulus : operand (isBinary (.const m.toFloat)) (text (.const m.toFloat)) =
      Numeral.ofNat m.val := m.text_toFloat
  rw [lower, text, modulus, ← sign]
  simp only [String.append_assoc]

theorem length_parenthesized (s : String) : (parenthesized s).length = s.length + 2 := by
  simp only [parenthesized, String.length_append]
  change 1 + s.length + 1 = s.length + 2
  omega

theorem length_operand (isOperation : Bool) (s : String) :
    (operand isOperation s).length = s.length + 2 * isOperation.toNat := by
  cases isOperation with
  | false => rfl
  | true => exact length_parenthesized s

/-- As an operand, a reduction node has as many parentheses as its remainder operation. -/
theorem length_operand_lower {t : Expr}
    (whole : t.lower.text.length + 2 * t.exposed = t.text.length) :
    (operand t.lower.isBinary t.lower.text).length + 2 * t.exposedInside =
      (operand t.isBinary t.text).length := by
  rw [length_operand, length_operand, isBinary_lower]
  cases t <;> simp_all [exposed, isReduction, isBinary] <;> omega

/-- A pair of parentheses is lost for every reduction node that is no operand. -/
theorem length_text_lower (t : Expr) : t.lower.text.length + 2 * t.exposed = t.text.length := by
  induction t with
  | const v => rfl
  | var => rfl
  | mod child m ih =>
      have operand := length_operand_lower ih
      rw [text_lower_mod, text, length_parenthesized]
      simp only [String.length_append, exposed, exposedInside, isReduction, Bool.toNat_true]
      omega
  | unary op child ih =>
      simp only [lower, text, String.length_append, length_parenthesized, exposed, exposedInside,
        isReduction, Bool.toNat_false] at ih ⊢
      omega
  | binary op left right ihLeft ihRight =>
      have operandLeft := length_operand_lower ihLeft
      have operandRight := length_operand_lower ihRight
      simp only [lower, text, String.length_append, exposed, exposedInside, isReduction,
        Bool.toNat_false]
      omega

/-- If every reduction node is an operand, no parentheses are lost. -/
theorem text_lower (t : Expr) : (t.exposed = 0 → t.lower.text = t.text) ∧
    (t.exposedInside = 0 →
      operand t.lower.isBinary t.lower.text = operand t.isBinary t.text) := by
  induction t with
  | const v => exact ⟨fun _ => rfl, fun _ => rfl⟩
  | var => exact ⟨fun _ => rfl, fun _ => rfl⟩
  | mod child m ih =>
      refine ⟨fun none => by simp [exposed, isReduction] at none, fun none => ?_⟩
      rw [text_lower_mod, ih.2 none]
      rfl
  | unary op child ih =>
      have same (none : (unary op child).exposedInside = 0) :
          (lower (.unary op child)).text = text (.unary op child) := by
        rw [lower, text, text, ih.1 none]
      exact ⟨same, same⟩
  | binary op left right ihLeft ihRight =>
      have same (none : (binary op left right).exposedInside = 0) :
          (lower (.binary op left right)).text = text (.binary op left right) := by
        obtain ⟨noneLeft, noneRight⟩ := Nat.add_eq_zero_iff.mp none
        rw [lower, text, text, ihLeft.2 noneLeft, ihRight.2 noneRight]
      exact ⟨same, fun none => congrArg parenthesized (same none)⟩

/-! ### What is read back -/

theorem modFree_lower (t : Expr) : t.lower.ModFree := by
  induction t with
  | const v => exact trivial
  | var => exact trivial
  | mod child m ih => exact ⟨ih, trivial⟩
  | unary op child ih => exact ih
  | binary op left right ihLeft ihRight => exact ⟨ihLeft, ihRight⟩

theorem finiteConstants_lower {t : Expr} (finite : t.FiniteConstants) :
    t.lower.FiniteConstants := by
  induction t with
  | const v => exact finite
  | var => exact trivial
  | mod child m ih => exact ⟨ih finite, m.toFloat_exact.1⟩
  | unary op child ih => exact ih finite
  | binary op left right ihLeft ihRight => exact ⟨ihLeft finite.1, ihRight finite.2⟩

theorem key_eq_iff (t u : Expr) :
    (Candidate.single u).key = (Candidate.single t).key ↔ u.text = t.text := by
  constructor
  · intro same
    exact (String.append_right_inj _).mp same
  · intro same
    exact congrArg ("f" ++ "(n) = " ++ ·) same

/-- The text of an expression is read back as an expression that has the same text, and as a candidate
the same key, exactly if every reduction node is an operand; otherwise its text is shorter by a pair of
parentheses for each that is not.  The text that is read back is always read back as it is. -/
theorem parse_text_canonical (t : Expr) (finite : t.FiniteConstants) :
    ∃ u, parse t.text = .ok u ∧ (u.text = t.text ↔ t.exposed = 0) ∧
      ((Candidate.single u).key = (Candidate.single t).key ↔ t.exposed = 0) ∧
      u.text.length + 2 * t.exposed = t.text.length ∧ parse u.text = .ok u := by
  have lengths := length_text_lower t
  have same : t.lower.text = t.text ↔ t.exposed = 0 := by
    refine ⟨fun same => ?_, (text_lower t).1⟩
    rw [same] at lengths
    omega
  have again := parse_text_eq_lower (finiteConstants_lower finite)
  rw [lower_eq_self (modFree_lower t)] at again
  exact ⟨t.lower, parse_text_eq_lower finite, same, (key_eq_iff t t.lower).trans same, lengths, again⟩

/-- A reduction node as an operand and one as the argument of a function. -/
theorem parse_text_canonical_nested :
    ∃ u, parse "(n % 7) + sin((n % 5))" = .ok u ∧ u.text ≠ "(n % 7) + sin((n % 5))" ∧
      u.text.length = 20 ∧ parse u.text = .ok u := by
  obtain ⟨u, read, same, -, shorter, again⟩ := parse_text_canonical
    (.binary .add (.mod .var ⟨7, by decide, by decide⟩)
      (.unary .sin (.mod .var ⟨5, by decide, by decide⟩))) ⟨trivial, trivial⟩
  refine ⟨u, read, fun equal => absurd (same.mp equal) (by decide), ?_, again⟩
  exact Nat.add_right_cancel (m := 2) shorter

/-- The generator makes a reduction node of the variable, whose text is read back as an operation with
another text and another key. -/
theorem random_text_not_canonical :
    ∃ t u, (random 1 ⟨[0.0, 0.0, 0.0], 0, 0⟩).1 = t ∧ t.FiniteConstants ∧ t.text = "(n % 2)" ∧
      parse t.text = .ok u ∧ u.text = "n % 2" ∧
      (Candidate.single u).key ≠ (Candidate.single t).key := by
  refine ⟨.mod .var ⟨2, by decide, by decide⟩, .binary .mod .var (.const 2.0), ?_, trivial, ?_, ?_,
    ?_, ?_⟩
  · decide +kernel
  · decide +kernel
  · decide +kernel
  · decide +kernel
  · decide +kernel

end Expr

end PrimeSearch
