/-
Module: PrimeSearch.Proofs.Expr.Grammar
Purpose: The grammar of expressions, and what the reader does with pending operators.
Main exports: Rule, Derives, Derives.loosen, Derives.binary, release_append
-/
import PrimeSearch.Expr.Parser

namespace PrimeSearch

/-!
The grammar is given by rules, the loosest first:

* a sum is a product, or a sum, `+` or `-`, and a product;
* a product is a signed operand, or a product, `*`, `/` or `mod`, and a signed operand;
* a signed operand is a power, or `-` or `+` and a signed operand;
* a power is an atom, or an atom, `^` and a signed operand;
* an atom is a number, the variable, a constant, a function with an argument in parentheses,
  or a sum in parentheses.

The reader knows nothing of these rules: it keeps a stack of pending operators and one flag.
Both directions go through what it does with a derived piece of the input.  A piece that is
read leaves behind pending operators that bind at least as tightly as its rule (`ReadAs`),
and a stack is always the trace of an unfinished derivation (`Opened`).
-/

/-- The rules of the grammar, from the loosest to the tightest. -/
inductive Rule where
  | sum | product | signed | power | atom
deriving Repr, DecidableEq

namespace Rule

/-- How tightly a rule binds. -/
def rank : Rule → Nat
  | .sum => 0
  | .product => 1
  | .signed => 2
  | .power => 3
  | .atom => 4

/-- The next looser rule. -/
def looser : Rule → Rule
  | .sum | .product => .sum
  | .signed => .product
  | .power => .signed
  | .atom => .power

/-- Every looser rule is reached step by step. -/
theorem repeat_looser {tight loose : Rule} (h : loose.rank ≤ tight.rank) :
    Nat.repeat looser (tight.rank - loose.rank) tight = loose := by
  revert h
  cases tight <;> cases loose <;> decide

/-- The rule that an operation forms. -/
def ofOp : BinaryOp → Rule
  | .add | .sub => .sum
  | .mul | .div | .mod => .product
  | .pow => .power

/-- The rule of the left operand of an operation. -/
def leftOf : BinaryOp → Rule
  | .add | .sub => .sum
  | .mul | .div | .mod => .product
  | .pow => .atom

/-- The rule of the right operand of an operation. -/
def rightOf : BinaryOp → Rule
  | .add | .sub => .product
  | .mul | .div | .mod | .pow => .signed

end Rule

/-- Which token lists a rule derives, and the tree that each derivation denotes. -/
inductive Derives : Rule → List Token → Expr → Prop where
  | oneProduct {ts : List Token} {t : Expr} (only : Derives .product ts t) : Derives .sum ts t
  | addition {ls rs : List Token} {l r : Expr} {op : BinaryOp} (additive : op = .add ∨ op = .sub)
      (left : Derives .sum ls l) (right : Derives .product rs r) :
      Derives .sum (ls ++ .operator op :: rs) (.binary op l r)
  | oneOperand {ts : List Token} {t : Expr} (only : Derives .signed ts t) :
      Derives .product ts t
  | multiplication {ls rs : List Token} {l r : Expr} {op : BinaryOp}
      (multiplicative : op = .mul ∨ op = .div ∨ op = .mod)
      (left : Derives .product ls l) (right : Derives .signed rs r) :
      Derives .product (ls ++ .operator op :: rs) (.binary op l r)
  | unsigned {ts : List Token} {t : Expr} (only : Derives .power ts t) : Derives .signed ts t
  | plus {ts : List Token} {t : Expr} (operand : Derives .signed ts t) :
      Derives .signed (.operator .add :: ts) t
  | minusConstant {ts : List Token} {v : Float} (operand : Derives .signed ts (.const v)) :
      Derives .signed (.operator .sub :: ts) (.const (-v))
  | minusOther {ts : List Token} {t : Expr} (operand : Derives .signed ts t)
      (other : ∀ v, t ≠ .const v) :
      Derives .signed (.operator .sub :: ts) (.binary .mul (.const (-1.0)) t)
  | bare {ts : List Token} {t : Expr} (only : Derives .atom ts t) : Derives .power ts t
  | raised {bs es : List Token} {b e : Expr} (base : Derives .atom bs b)
      (exponent : Derives .signed es e) :
      Derives .power (bs ++ .operator .pow :: es) (.binary .pow b e)
  | number (text : String) : Derives .atom [.number text] (.const (Numeral.ofLiteral text))
  | variable : Derives .atom [.variable] .var
  | constant (name : NamedConstant) : Derives .atom [.constant name] (.const name.value)
  | call {ts : List Token} {t : Expr} (op : UnaryOp) (argument : Derives .sum ts t) :
      Derives .atom (.function op :: .openParen :: ts ++ [.closeParen]) (.unary op t)
  | group {ts : List Token} {t : Expr} (inner : Derives .sum ts t) :
      Derives .atom (.openParen :: ts ++ [.closeParen]) t

namespace Derives

/-- What a rule derives, the next looser one does. -/
theorem once {rule : Rule} {ts : List Token} {t : Expr} (derived : Derives rule ts t) :
    Derives rule.looser ts t := by
  cases rule with
  | sum => exact derived
  | product => exact .oneProduct derived
  | signed => exact .oneOperand derived
  | power => exact .unsigned derived
  | atom => exact .bare derived

/-- What a tight rule derives, every looser one does. -/
theorem loosen {tight loose : Rule} {ts : List Token} {t : Expr}
    (looser : loose.rank ≤ tight.rank) (derived : Derives tight ts t) : Derives loose ts t := by
  have steps : ∀ n, Derives (Nat.repeat Rule.looser n tight) ts t := by
    intro n
    induction n with
    | zero => exact derived
    | succ n ih => exact ih.once
  exact Rule.repeat_looser looser ▸ steps (tight.rank - loose.rank)

/-- An operation between derived operands is derived, whatever the operation. -/
theorem binary (op : BinaryOp) {ls rs : List Token} {l r : Expr}
    (left : Derives (Rule.leftOf op) ls l) (right : Derives (Rule.rightOf op) rs r) :
    Derives (Rule.ofOp op) (ls ++ .operator op :: rs) (.binary op l r) := by
  cases op with
  | add => exact .addition (.inl rfl) left right
  | sub => exact .addition (.inr rfl) left right
  | mul => exact .multiplication (.inl rfl) left right
  | div => exact .multiplication (.inr (.inl rfl)) left right
  | mod => exact .multiplication (.inr (.inr rfl)) left right
  | pow => exact .raised left right

/-- A minus sign in front of a derived operand denotes its negative. -/
theorem minus {ts : List Token} {t : Expr} (operand : Derives .signed ts t) :
    Derives .signed (.operator .sub :: ts) (Postfix.negate t) := by
  cases t with
  | const v => exact .minusConstant operand
  | var => exact .minusOther operand (by simp)
  | mod child m => exact .minusOther operand (by simp)
  | unary op child => exact .minusOther operand (by simp)
  | binary op l r => exact .minusOther operand (by simp)

/-- Nothing is derived from no tokens. -/
theorem ne_nil {rule : Rule} {ts : List Token} {t : Expr} (derived : Derives rule ts t) :
    ts ≠ [] := by
  induction derived <;> simp_all

end Derives

/-! ### Building trees

A stretch of postfix items turns one stack of finished trees into another, unless a number in
it is no finite double.
-/

/-- The text of a number that is no finite double. -/
def Token.huge? : Token → Option String
  | .number text => if (Numeral.ofLiteral text).isFinite then none else some text
  | _ => none

namespace Postfix

/-- The text of a number that is no finite double. -/
def huge? : Postfix → Option String
  | .number text => (Token.number text).huge?
  | _ => none

/-- What becomes of a reading once the first number out of range is known. -/
def unlessHuge {α : Type} (huge : Option String) (result : Except ParseError α) :
    Except ParseError α :=
  match huge with
  | some text => .error (.literalOutOfRange text)
  | none => result

/-- Items turn one stack of finished trees into another. -/
def Builds (items : List Postfix) (before after : List Expr) : Prop :=
  ∀ rest, assemble before (items ++ rest) =
    unlessHuge (items.findSome? huge?) (assemble after rest)

namespace Builds

theorem nil (trees : List Expr) : Builds [] trees trees := fun _ => rfl

/-- Stretches of items build one after the other. -/
theorem append {first second : List Postfix} {a b c : List Expr}
    (one : Builds first a b) (two : Builds second b c) : Builds (first ++ second) a c := by
  intro rest
  rw [List.append_assoc, one, two, List.findSome?_append]
  cases first.findSome? huge? <;> rfl

theorem number (text : String) (trees : List Expr) :
    Builds [.number text] trees (.const (Numeral.ofLiteral text) :: trees) := by
  intro rest
  by_cases finite : (Numeral.ofLiteral text).isFinite <;>
    simp [assemble, huge?, Token.huge?, unlessHuge, finite]

theorem var (trees : List Expr) : Builds [.variable] trees (.var :: trees) := by
  intro rest
  simp [assemble, huge?, unlessHuge]

theorem const (name : NamedConstant) (trees : List Expr) :
    Builds [.constant name] trees (.const name.value :: trees) := by
  intro rest
  simp [assemble, huge?, unlessHuge]

theorem function (op : UnaryOp) (t : Expr) (trees : List Expr) :
    Builds [.function op] (t :: trees) (.unary op t :: trees) := by
  intro rest
  simp [assemble, huge?, unlessHuge]

theorem negation (t : Expr) (trees : List Expr) :
    Builds [.negation] (t :: trees) (negate t :: trees) := by
  intro rest
  simp [assemble, huge?, unlessHuge]

theorem operator (op : BinaryOp) (l r : Expr) (trees : List Expr) :
    Builds [.operator op] (r :: l :: trees) (.binary op l r :: trees) := by
  intro rest
  simp [assemble, huge?, unlessHuge]

end Builds

end Postfix

/-! ### What the stack of operators does -/

namespace Pending

/-- Binding strength of a pending operator; parentheses and functions have none. -/
def strength? : Pending → Option Nat
  | .operator op => some (Postfix.strength op)
  | .negation => some Postfix.negationStrength
  | .paren | .function _ => none

/-- The item that a pending operator becomes; parentheses vanish. -/
def item? : Pending → Option Postfix
  | .paren => none
  | .function op => some (.function op)
  | .negation => some .negation
  | .operator op => some (.operator op)

/-- The items that pending operators become, the top of the stack first. -/
def items (pending : List Pending) : List Postfix := pending.filterMap item?

@[simp] theorem items_nil : items [] = [] := rfl

theorem items_append (one two : List Pending) : items (one ++ two) = items one ++ items two :=
  List.filterMap_append

end Pending

namespace Postfix

open Pending

theorem yields_iff (onStack : Nat) (op : BinaryOp) :
    yields onStack op = true ↔ strength op < onStack ∨ onStack = strength op ∧ op ≠ .pow := by
  simp [yields]

/-- Operators that an operation finishes are released in order, down to the first that it
does not finish. -/
theorem release_append {op : BinaryOp} (finished : List Pending) {stack : List Pending}
    (yielding : ∀ p ∈ finished, ∃ s, p.strength? = some s ∧ yields s op = true)
    (stopping : ∀ p ∈ stack.head?, ∀ s, p.strength? = some s → yields s op = false)
    (output : List Postfix) :
    release op (finished ++ stack) output = (stack, (items finished).reverse ++ output) := by
  induction finished generalizing output with
  | nil =>
      cases stack with
      | nil => rfl
      | cons top below =>
          cases top with
          | operator top =>
              have stops := stopping (.operator top) rfl _ rfl
              simp [release, stops]
          | negation =>
              have stops := stopping .negation rfl _ rfl
              simp [release, stops]
          | paren => simp [release]
          | function _ => simp [release]
  | cons top finished ih =>
      obtain ⟨s, isStrength, yieldsTop⟩ := yielding top (by simp)
      have rest := ih fun p member => yielding p (by simp [member])
      cases top with
      | operator top =>
          cases isStrength
          simp [release, yieldsTop, rest, items, item?]
      | negation =>
          cases isStrength
          simp [release, yieldsTop, rest, items, item?]
      | paren => cases isStrength
      | function _ => cases isStrength

/-- Everything above the innermost open parenthesis is released when it is closed. -/
theorem close_append {finished : List Pending} (closed : .paren ∉ finished)
    (stack : List Pending) (output : List Postfix) :
    close (finished ++ .paren :: stack) output =
      close (.paren :: stack) ((items finished).reverse ++ output) := by
  induction finished generalizing output with
  | nil => rfl
  | cons top finished ih =>
      rw [List.mem_cons, not_or] at closed
      cases top with
      | paren => exact absurd rfl closed.1
      | function _ => simp [close, ih closed.2, items, item?]
      | negation => simp [close, ih closed.2, items, item?]
      | operator _ => simp [close, ih closed.2, items, item?]

/-- A stack without open parentheses is released at the end. -/
theorem flush_eq {finished : List Pending} (closed : .paren ∉ finished)
    (output : List Postfix) :
    flush finished output = some ((items finished).reverse ++ output) := by
  induction finished generalizing output with
  | nil => rfl
  | cons top finished ih =>
      rw [List.mem_cons, not_or] at closed
      cases top with
      | paren => exact absurd rfl closed.1
      | function _ => simp [flush, ih closed.2, items, item?]
      | negation => simp [flush, ih closed.2, items, item?]
      | operator _ => simp [flush, ih closed.2, items, item?]

end Postfix

end PrimeSearch
