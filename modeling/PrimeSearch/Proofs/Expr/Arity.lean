/-
Module: PrimeSearch.Proofs.Expr.Arity
Purpose: Items that tokens are brought into postfix order as never run short of subtrees, and one tree
  is left of them.
Main exports: Postfix.operands, Postfix.place?, Postfix.stackAfter, Postfix.Leaves, leaves_of_arrange,
  Postfix.WellFormed, ofTokens_wellFormed
-/
import Mathlib.Logic.Basic
import PrimeSearch.Proofs.Expr.Parsing

namespace PrimeSearch

namespace Postfix

/-!
An item takes as many subtrees off the stack as it has operands and puts one back.  The reader counts
none of this.  What keeps the count is that every pending operation still has its left operand on the
stack of subtrees: wherever an operand is wanted there are as many subtrees as pending operations, and
after an operand there is one more.
-/

/-! ### Building step by step -/

/-- How many subtrees an item takes off the stack. -/
def operands : Postfix → Nat
  | .number _ | .variable | .constant _ => 0
  | .function _ | .negation => 1
  | .operator _ => 2

/-- One step of building, whatever the size of a number; nothing if there are too few subtrees. -/
def place? : Postfix → List Expr → Option (List Expr)
  | .number text, stack => some (.const (Numeral.ofLiteral text) :: stack)
  | .variable, stack => some (.var :: stack)
  | .constant name, stack => some (.const name.value :: stack)
  | .function op, t :: stack => some (.unary op t :: stack)
  | .negation, t :: stack => some (negate t :: stack)
  | .operator op, right :: left :: stack => some (.binary op left right :: stack)
  | _, _ => none

/-- The subtrees after some items; nothing if they run short. -/
def stackAfter (items : List Postfix) : Option (List Expr) :=
  items.foldlM (fun stack item => item.place? stack) []

theorem stackAfter_concat (items : List Postfix) (item : Postfix) :
    stackAfter (items ++ [item]) = (stackAfter items).bind item.place? := by
  rw [stackAfter, List.foldlM_append]
  apply bind_congr
  intro stack
  exact bind_pure _

/-- A step succeeds exactly if there are enough subtrees. -/
theorem place?_eq_none_iff (item : Postfix) (stack : List Expr) :
    item.place? stack = none ↔ stack.length < item.operands := by
  cases item with
  | number _ | «variable» | constant _ => simp [place?, operands]
  | function _ | negation => cases stack <;> simp [place?, operands]
  | operator _ =>
      rcases stack with _ | ⟨_, _ | ⟨_, _⟩⟩ <;> simp [place?, operands]

/-- An item is put in the place of its operands. -/
theorem length_place? {item : Postfix} {stack stack' : List Expr}
    (placed : item.place? stack = some stack') :
    stack'.length = stack.length - item.operands + 1 := by
  unfold place? at placed
  split at placed
  all_goals
    cases placed
    try simp [operands]

/-- A step that succeeds is a step of building, if its number is in range. -/
theorem Builds.item {item : Postfix} {stack stack' : List Expr}
    (placed : item.place? stack = some stack') : Builds [item] stack stack' := by
  unfold place? at placed
  split at placed
  next text =>
    cases placed
    exact .number text stack
  next =>
    cases placed
    exact .var stack
  next name =>
    cases placed
    exact .const name stack
  next op t below =>
    cases placed
    exact .function op t below
  next t below =>
    cases placed
    exact .negation t below
  next op right left below =>
    cases placed
    exact .operator op left right below
  next => cases placed

/-! ### Counting subtrees -/

/-- So many subtrees are left of items, the last one first, that never run short. -/
inductive Leaves : List Postfix → Nat → Prop where
  | nothing : Leaves [] 0
  | item (item : Postfix) {output : List Postfix} {count : Nat} (before : Leaves output count)
      (enough : item.operands ≤ count) : Leaves (item :: output) (count - item.operands + 1)

namespace Leaves

variable {output : List Postfix} {count : Nat}

/-- What is counted is what building does. -/
theorem builds (leaves : Leaves output count) :
    ∃ stack, stackAfter output.reverse = some stack ∧ stack.length = count ∧
      Builds output.reverse [] stack := by
  induction leaves with
  | nothing => exact ⟨[], rfl, rfl, .nil []⟩
  | @item item output count _ enough ih =>
      obtain ⟨stack, after, length, builds⟩ := ih
      cases placed : item.place? stack with
      | none =>
          have short := (place?_eq_none_iff item stack).mp placed
          omega
      | some stack' =>
          refine ⟨stack', ?_, ?_, ?_⟩
          · rw [List.reverse_cons, stackAfter_concat, after, Option.bind_some, placed]
          · rw [length_place? placed, length]
          · rw [List.reverse_cons]
            exact builds.append (.item placed)

/-- What comes before some items does not run short either. -/
theorem before {later : List Postfix} (leaves : Leaves (later ++ output) count) :
    ∃ fewer, Leaves output fewer := by
  induction later generalizing count with
  | nil => exact ⟨count, leaves⟩
  | cons item later ih =>
      cases leaves with
      | item _ before _ => exact ih before

/-- An operand adds a subtree. -/
theorem operand {item : Postfix} (leaves : Leaves output count) (isOperand : item.operands = 0) :
    Leaves (item :: output) (count + 1) := by
  have added := leaves.item item (by omega)
  rwa [isOperand, Nat.sub_zero] at added

end Leaves

/-! ### Pending operations -/

/-- How many pending operators wait for their right operand while the left one is on the stack of
subtrees. -/
def awaiting : List Pending → Nat
  | [] => 0
  | .operator _ :: stack => awaiting stack + 1
  | .paren :: stack | .function _ :: stack | .negation :: stack => awaiting stack

namespace Leaves

variable {stack stack' : List Pending} {output output' : List Postfix}

/-- A pending operator that is moved to the output finds its operands. -/
theorem emit {pending : Pending} {item : Postfix} (isItem : pending.item? = some item)
    (leaves : Leaves output (awaiting (pending :: stack) + 1)) :
    Leaves (item :: output) (awaiting stack + 1) := by
  cases pending with
  | paren => cases isItem
  | function op =>
      cases isItem
      exact leaves.item (.function op) (Nat.le_add_left _ _)
  | negation =>
      cases isItem
      exact leaves.item .negation (Nat.le_add_left _ _)
  | operator op =>
      cases isItem
      exact leaves.item (.operator op) (Nat.le_add_left _ _)

/-- An operation releases what it finishes. -/
theorem release (op : BinaryOp) (leaves : Leaves output (awaiting stack + 1)) :
    Leaves (release op stack output).2 (awaiting (release op stack output).1 + 1) := by
  fun_induction Postfix.release op stack output with
  | case1 top stack output _ ih => exact ih (leaves.emit rfl)
  | case2 => exact leaves
  | case3 stack output _ ih => exact ih (leaves.emit rfl)
  | case4 => exact leaves
  | case5 => exact leaves

/-- A closed parenthesis releases everything down to where it was opened. -/
theorem close (closes : close stack output = some (stack', output'))
    (leaves : Leaves output (awaiting stack + 1)) : Leaves output' (awaiting stack' + 1) := by
  fun_induction Postfix.close stack output with
  | case1 => cases closes
  | case2 op stack output =>
      cases closes
      have leaves : Leaves output (awaiting (.function op :: stack') + 1) := leaves
      exact leaves.emit rfl
  | case3 stack output _ =>
      cases closes
      exact leaves
  | case4 op stack output ih => exact ih closes (leaves.emit rfl)
  | case5 stack output ih => exact ih closes (leaves.emit rfl)
  | case6 op stack output ih => exact ih closes (leaves.emit rfl)

/-- At the end everything is released, and one tree is left. -/
theorem flush (flushes : flush stack output = some output')
    (leaves : Leaves output (awaiting stack + 1)) : Leaves output' 1 := by
  fun_induction Postfix.flush stack output with
  | case1 output =>
      cases flushes
      exact leaves
  | case2 => cases flushes
  | case3 op stack output ih => exact ih flushes (leaves.emit rfl)
  | case4 stack output ih => exact ih flushes (leaves.emit rfl)
  | case5 op stack output ih => exact ih flushes (leaves.emit rfl)

end Leaves

/-- The count of subtrees goes on to the end of the tokens. -/
theorem leaves_of_arrange {wanted : Bool} {stack : List Pending} {output items : List Postfix}
    {tokens : List Token} (arranged : arrange wanted stack output tokens = .ok items)
    (leaves : Leaves output (awaiting stack + if wanted then 0 else 1)) :
    Leaves items.reverse 1 := by
  induction tokens generalizing wanted stack output with
  | nil =>
      cases wanted with
      | true => cases arranged
      | false =>
          cases flushed : flush stack output with
          | none => simp [arrange, flushed] at arranged
          | some output' =>
              obtain rfl : output'.reverse = items := by simpa [arrange, flushed] using arranged
              rw [List.reverse_reverse]
              exact leaves.flush flushed
  | cons token rest ih =>
      cases wanted with
      | true =>
          cases token with
          | number text =>
              have after : arrange false stack (.number text :: output) rest = .ok items := arranged
              exact ih after (leaves.operand rfl)
          | «variable» =>
              have after : arrange false stack (.variable :: output) rest = .ok items := arranged
              exact ih after (leaves.operand rfl)
          | constant name =>
              have after : arrange false stack (.constant name :: output) rest = .ok items := arranged
              exact ih after (leaves.operand rfl)
          | function op =>
              by_cases opens : opensParen rest = true
              · have inside : arrange true (.function op :: stack) output rest = .ok items := by
                  simpa [arrange, opens] using arranged
                exact ih inside leaves
              · simp [arrange, opens] at arranged
          | openParen =>
              have inside : arrange true (.paren :: stack) output rest = .ok items := arranged
              exact ih inside leaves
          | closeParen => cases arranged
          | operator op =>
              cases op with
              | sub =>
                  have signed : arrange true (.negation :: stack) output rest = .ok items := arranged
                  exact ih signed leaves
              | add =>
                  have signed : arrange true stack output rest = .ok items := arranged
                  exact ih signed leaves
              | mul | div | mod | pow => cases arranged
      | false =>
          cases token with
          | number _ | «variable» | constant _ | function _ | openParen => cases arranged
          | closeParen =>
              cases closed : close stack output with
              | none => simp [arrange, closed] at arranged
              | some released =>
                  simp only [arrange, closed] at arranged
                  exact ih arranged (leaves.close closed)
          | operator op =>
              rw [arrange_operator] at arranged
              exact ih arranged (leaves.release op)

/-! ### Well-formed items -/

/-- What building relies on. -/
structure WellFormed (items : List Postfix) : Prop where
  /-- Every item finds its operands on the stack. -/
  supplied : ∀ before item after, items = before ++ item :: after →
    ∃ stack, stackAfter before = some stack ∧ item.operands ≤ stack.length
  /-- The stack is the one that building has reached, if no number was out of range so far. -/
  reached : ∀ before after, items = before ++ after → ∃ stack, stackAfter before = some stack ∧
    build items = unlessHuge (before.findSome? huge?) (assemble stack after)
  /-- One tree is left. -/
  single : ∃ t, stackAfter items = some [t] ∧
    build items = unlessHuge (items.findSome? huge?) (.ok t)

theorem Leaves.wellFormed {items : List Postfix} (leaves : Leaves items.reverse 1) :
    WellFormed items where
  supplied := by
    rintro before item after rfl
    rw [List.reverse_append, List.reverse_cons, List.append_assoc] at leaves
    obtain ⟨_, leaves⟩ := leaves.before
    cases leaves with
    | item _ leaves enough =>
        obtain ⟨stack, placed, length, -⟩ := leaves.builds
        have placed : stackAfter before.reverse.reverse = some stack := placed
        rw [List.reverse_reverse] at placed
        exact ⟨stack, placed, length ▸ enough⟩
  reached := by
    rintro before after rfl
    rw [List.reverse_append] at leaves
    obtain ⟨_, leaves⟩ := leaves.before
    obtain ⟨stack, placed, -, builds⟩ := leaves.builds
    rw [List.reverse_reverse] at placed builds
    exact ⟨stack, placed, builds after⟩
  single := by
    obtain ⟨stack, placed, length, builds⟩ := leaves.builds
    rw [List.reverse_reverse] at placed builds
    obtain ⟨t, rfl⟩ := List.length_eq_one_iff.mp length
    have built := builds []
    rw [List.append_nil] at built
    exact ⟨t, placed, built⟩

/-- Whatever is wrong with the tokens is noticed before the tree is built. -/
theorem tree_ne_malformed (tokens : List Token) : Expr.ofTokens tokens ≠ .error .malformed := by
  intro refused
  cases arranged : Postfix.ofTokens tokens with
  | error e =>
      rw [Expr.ofTokens, arranged] at refused
      cases refused
      exact arrange_ne_malformed true [] [] tokens arranged
  | ok items =>
      obtain ⟨t, -, built⟩ := (leaves_of_arrange arranged .nothing).wellFormed.single
      rw [Expr.ofTokens, arranged] at refused
      have refused := built.symm.trans refused
      unfold unlessHuge at refused
      split at refused <;> cases refused

theorem parse_ne_malformed (text : String) : Expr.parse text ≠ .error .malformed := by
  unfold Expr.parse
  split
  next => simp
  next tokens _ _ => exact tree_ne_malformed tokens
  next => simp

/-- Whatever tokens are brought into postfix order, building the tree never runs short of subtrees and
ends with one tree, or with the first number out of range.  So a text is either read as a tree or
refused for what is wrong with it. -/
theorem ofTokens_wellFormed :
    (∀ tokens items, Postfix.ofTokens tokens = .ok items → WellFormed items) ∧
    ∀ text, Xor (∃ t, Expr.parse text = .ok t)
      (∃ e, Expr.parse text = .error e ∧ e ≠ .malformed) := by
  constructor
  · intro tokens items arranged
    exact (leaves_of_arrange arranged .nothing).wellFormed
  intro text
  cases read : Expr.parse text with
  | ok t => exact .inl ⟨⟨t, rfl⟩, fun ⟨e, refused, _⟩ => by cases refused⟩
  | error e =>
      refine .inr ⟨⟨e, rfl, ?_⟩, fun ⟨t, accepted⟩ => by cases accepted⟩
      rintro rfl
      exact parse_ne_malformed text read

/-- A sign, a function, a group and two operations of different strength. -/
theorem ofTokens_wellFormed_nested :
    WellFormed [.number "2", .variable, .function .sin, .negation, .variable, .number "3",
      .operator .add, .operator .mul, .operator .sub] :=
  ofTokens_wellFormed.1 [.number "2", .operator .sub, .operator .sub, .function .sin, .openParen,
    .variable, .closeParen, .operator .mul, .openParen, .variable, .operator .add, .number "3",
    .closeParen] _ rfl

end Postfix

end PrimeSearch
