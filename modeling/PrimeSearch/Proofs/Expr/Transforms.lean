/-
Module: PrimeSearch.Proofs.Expr.Transforms
Purpose: A transform of a whole expression means what it says, wherever its function stands.
Main exports: Expr.evalWith, Transform.eval_convertAll, Transform.size_convertAll,
  Transform.apply_means
-/
import Mathlib.Logic.Function.Basic
import PrimeSearch.Expr.Eval
import PrimeSearch.Proofs.Expr.Checks

namespace PrimeSearch

/-!
Converting an expression is the same as reading its source function differently.  The nodes are
converted innermost first, and what a conversion puts in is not converted again, so each node of the
source function is converted once, also where such nodes stand inside each other, and also where the
conversion puts in the source function itself.
-/

/-- Value of an expression at `n` when its functions mean what is given. -/
def Expr.evalWith (meaning : UnaryOp → Float → Float) : Expr → Float → Float
  | .const v, _ => v
  | .var, n => n
  | .mod child m, n => truncatedMod (child.evalWith meaning n) m.toFloat
  | .unary op child, n => meaning op (child.evalWith meaning n)
  | .binary op left right, n => op.apply (left.evalWith meaning n) (right.evalWith meaning n)

/-- Functions that mean what they do give the value of the expression. -/
theorem Expr.evalWith_apply (e : Expr) (n : Float) : e.evalWith UnaryOp.apply n = e.eval n := by
  induction e with
  | const v => rfl
  | var => rfl
  | mod child m ih => rw [evalWith, eval, ih]
  | unary op child ih => rw [evalWith, eval, ih]
  | binary op left right ihLeft ihRight => rw [evalWith, eval, ihLeft, ihRight]

namespace Transform

/-! ### Nodes of the source function -/

section
variable (t : Transform)

theorem length_filter_under (i : Int) (places : List (Path × Expr)) :
    ((Expr.under i places).filter fun (_, node) => t.matchesNode node).length =
      (places.filter fun (_, node) => t.matchesNode node).length := by
  rw [Expr.under, List.filter_map, List.length_map]
  rfl

@[simp] theorem matching_const (v : Float) : t.matching (.const v) = [] := rfl

@[simp] theorem matching_var : t.matching .var = [] := rfl

@[simp] theorem length_matching_mod (child : Expr) (m : Modulus) :
    (t.matching (.mod child m)).length = (t.matching child).length := by
  rw [matching, Expr.positions_mod]
  exact t.length_filter_under 0 child.positions

@[simp] theorem length_matching_unary (op : UnaryOp) (child : Expr) :
    (t.matching (.unary op child)).length =
      (t.matching child).length + if op = t.source.toUnaryOp then 1 else 0 := by
  have inside := t.length_filter_under 0 child.positions
  rw [matching, Expr.positions_unary]
  by_cases isSource : op = t.source.toUnaryOp
  · rw [List.filter_cons_of_pos (by simpa [matchesNode] using isSource), if_pos isSource,
      List.length_cons, inside, matching]
  · rw [List.filter_cons_of_neg (by simpa [matchesNode] using isSource), if_neg isSource, inside,
      matching, Nat.add_zero]

@[simp] theorem length_matching_binary (op : BinaryOp) (left right : Expr) :
    (t.matching (.binary op left right)).length =
      (t.matching left).length + (t.matching right).length := by
  have first := t.length_filter_under 0 left.positions
  have second := t.length_filter_under 1 right.positions
  rw [matching, Expr.positions_binary, List.filter_cons_of_neg (by simp [matchesNode]),
    List.filter_append, List.length_append, first, second]
  rfl

end

/-! ### Converting every node -/

section
variable {t : Transform}

/-- Where a converted node has a meaning of its own, a converted expression has the value that it has
with that meaning of the source function. -/
theorem eval_convertAll {meaning : Float → Float}
    (means : ∀ argument n, (t.convert argument).eval n = meaning (argument.eval n)) (e : Expr)
    (n : Float) :
    (t.convertAll e).eval n =
      e.evalWith (Function.update UnaryOp.apply t.source.toUnaryOp meaning) n := by
  induction e with
  | const v => rfl
  | var => rfl
  | mod child m ih => rw [convertAll, Expr.eval, Expr.evalWith, ih]
  | unary op child ih =>
      rw [convertAll, Expr.evalWith, ← ih]
      by_cases isSource : op = t.source.toUnaryOp
      · rw [if_pos isSource, means, isSource, Function.update_self]
      · rw [if_neg isSource, Expr.eval, Function.update_of_ne isSource]
  | binary op left right ihLeft ihRight =>
      rw [convertAll, Expr.eval, Expr.evalWith, ihLeft, ihRight]

/-- Every node of the source function grows by as much as one conversion adds. -/
theorem size_convertAll {added : Nat}
    (grows : ∀ argument, (t.convert argument).size = 1 + argument.size + added) (e : Expr) :
    (t.convertAll e).size = e.size + added * (t.matching e).length := by
  induction e with
  | const v => rfl
  | var => rfl
  | mod child m ih =>
      rw [convertAll, Expr.size, Expr.size, ih, length_matching_mod, Nat.add_assoc]
  | unary op child ih =>
      rw [convertAll, Expr.size, length_matching_unary]
      by_cases isSource : op = t.source.toUnaryOp
      · rw [if_pos isSource, if_pos isSource, grows, ih, Nat.mul_add]
        omega
      · rw [if_neg isSource, if_neg isSource, Expr.size, ih, Nat.add_assoc, Nat.add_zero]
  | binary op left right ihLeft ihRight =>
      rw [convertAll, Expr.size, Expr.size, ihLeft, ihRight, length_matching_binary, Nat.mul_add]
      omega

/-- Without the source function there is nothing to convert. -/
theorem convertAll_eq_self {e : Expr} (none : (t.matching e).length = 0) : t.convertAll e = e := by
  induction e with
  | const v => rfl
  | var => rfl
  | mod child m ih =>
      rw [length_matching_mod] at none
      rw [convertAll, ih none]
  | unary op child ih =>
      rw [length_matching_unary] at none
      have notSource : op ≠ t.source.toUnaryOp := by
        intro isSource
        rw [if_pos isSource] at none
        omega
      rw [convertAll, if_neg notSource, ih (by omega)]
  | binary op left right ihLeft ihRight =>
      rw [length_matching_binary] at none
      rw [convertAll, ihLeft (by omega), ihRight (by omega)]

theorem toUnaryOp_partner_ne (source : Trig) : source.partner.toUnaryOp ≠ source.toUnaryOp := by
  cases source <;> decide

/-- After an exchange the source function is gone. -/
theorem matching_convertAll (exchanges : t.kind = .exchange) (e : Expr) :
    (t.matching (t.convertAll e)).length = 0 := by
  induction e with
  | const v => rfl
  | var => rfl
  | mod child m ih => rw [convertAll, length_matching_mod, ih]
  | unary op child ih =>
      have converted : t.convert (t.convertAll child) =
          .unary t.source.partner.toUnaryOp (t.convertAll child) := by
        rw [convert, target, exchanges]
      rw [convertAll]
      by_cases isSource : op = t.source.toUnaryOp
      · rw [if_pos isSource, converted, length_matching_unary, ih,
          if_neg (toUnaryOp_partner_ne t.source)]
      · rw [if_neg isSource, length_matching_unary, ih, if_neg isSource]
  | binary op left right ihLeft ihRight =>
      rw [convertAll, length_matching_binary, ihLeft, ihRight]

end

/-- A transform of a whole expression means what it says.  After an exchange the expression has, at
every number, the value that it had with the partner of the source function in the place of that
function, at whatever depth it stands; it is as large as before, and the source function is gone.
After a shift it has the value that it had with the source function taken a quarter period on, and
every node of that function has grown by two nodes.  Neither changes an expression without the source
function.  A negation and a reciprocal change nothing inside: they are put in front of the
expression.  All this is so whether or not each node is taken apart, checked and rebuilt on the way. -/
theorem apply_means (t : Transform) (e : Expr) :
    (∀ n, e.evalWith UnaryOp.apply n = e.eval n) ∧
    t.applyChecked e = pure (t.apply e) ∧
    match t.kind with
    | .exchange =>
        (∀ n, (t.apply e).eval n =
          e.evalWith
            (Function.update UnaryOp.apply t.source.toUnaryOp t.target.toUnaryOp.apply) n) ∧
        (t.matching e = [] → t.apply e = e) ∧
        (t.apply e).size = e.size ∧
        t.matching (t.apply e) = []
    | .shift =>
        (∀ n, (t.apply e).eval n =
          e.evalWith (Function.update UnaryOp.apply t.source.toUnaryOp
            fun v => t.source.toUnaryOp.apply (v + t.phase)) n) ∧
        (t.matching e = [] → t.apply e = e) ∧
        (t.apply e).size = e.size + 2 * (t.matching e).length
    | .negation => t.apply e = .binary .mul (.const (-1.0)) e
    | .reciprocal => t.apply e = .binary .div (.const 1.0) e := by
  refine ⟨e.evalWith_apply, t.applyChecked_eq e, ?_⟩
  obtain ⟨kind, source⟩ := t
  cases kind with
  | exchange =>
      refine ⟨fun n => eval_convertAll (fun _ _ => rfl) e n, ?_, ?_, ?_⟩
      · intro none
        exact convertAll_eq_self (by rw [none, List.length_nil])
      · have sizes : (convertAll ⟨.exchange, source⟩ e).size = e.size + 0 * _ :=
          size_convertAll (fun _ => rfl) e
        rwa [Nat.zero_mul] at sizes
      · exact List.length_eq_zero_iff.mp (matching_convertAll rfl e)
  | shift =>
      refine ⟨fun n => eval_convertAll (fun _ _ => rfl) e n, ?_, ?_⟩
      · intro none
        exact convertAll_eq_self (by rw [none, List.length_nil])
      · apply size_convertAll
        intro argument
        simp only [convert, Expr.size]
        omega
  | negation => rfl
  | reciprocal => rfl

/-- A sine inside a sine: both are shifted, each once, and grow by two nodes; a cosine is left
alone. -/
theorem apply_means_nested :
    let t : Transform := ⟨.shift, .sin⟩
    let e : Expr := .unary .sin (.unary .sin .var)
    let shifted (v : Float) : Float := (v + t.phase).sin
    (∀ n, (t.apply e).eval n = shifted (shifted n)) ∧ (t.apply e).size = 7 ∧
      t.matching (.unary .cos .var) = [] ∧ t.apply (.unary .cos .var) = .unary .cos .var := by
  intro t e shifted
  obtain ⟨-, -, values, -, sizes⟩ := t.apply_means e
  obtain ⟨-, -, -, unchanged, -⟩ := t.apply_means (.unary .cos .var)
  exact ⟨values, sizes, rfl, unchanged rfl⟩

end Transform

end PrimeSearch
