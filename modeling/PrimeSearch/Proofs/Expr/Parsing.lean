/-
Module: PrimeSearch.Proofs.Expr.Parsing
Purpose: The reader of expressions accepts exactly the token lists that the grammar derives,
  and gives the tree that the derivation denotes.
Main exports: ReadAs, exists_reading, Opened, derives_of_arrange,
  ofTokens_of_derives, ofTokens_accepts_grammar
-/
import PrimeSearch.Proofs.Expr.Grammar

namespace PrimeSearch

open Postfix Pending

/-! ### A derived piece of the input is read

Reading a piece that a rule derives puts some items out and leaves some operators pending.
Those bind at least as tightly as the rule (`least`), so an operation of that rule, or of a
looser one, finishes all of them.  In turn a piece is read as one only on a stack whose top
binds less tightly than the rule's own operations (`bound`).
-/

namespace Rule

/-- The least strength of the operators that a piece leaves pending. -/
def least : Rule → Nat
  | .sum => 1
  | .product => 2
  | .signed | .power => 3
  | .atom => 5

/-- A strength that the operator below a piece must not reach. -/
def bound : Rule → Nat
  | .sum => 1
  | .product => 2
  | .signed | .power | .atom => 5

theorem yields_of_least_le {op : BinaryOp} {s : Nat} (h : (leftOf op).least ≤ s) :
    yields s op = true := by
  rw [yields_iff]
  cases op <;> simp [leftOf, least, strength] at h ⊢ <;> omega

theorem yields_of_lt_bound {op : BinaryOp} {s : Nat} (h : s < (ofOp op).bound) :
    yields s op = false := by
  rw [Bool.eq_false_iff, ne_eq, yields_iff]
  cases op <;> simp [ofOp, bound, strength] at h ⊢ <;> omega

end Rule

/-- A piece of a rule is read as one on this stack. -/
def OpensOn (rule : Rule) (stack : List Pending) : Prop :=
  ∀ p ∈ stack.head?, (∀ op, p ≠ .function op) ∧ ∀ s, p.strength? = some s → s < rule.bound

theorem OpensOn.nil (rule : Rule) : OpensOn rule [] := by
  intro p member
  cases member

theorem OpensOn.paren (rule : Rule) (stack : List Pending) : OpensOn rule (.paren :: stack) := by
  rintro p ⟨⟩
  exact ⟨by simp, by simp [strength?]⟩

theorem OpensOn.mono {tight loose : Rule} {stack : List Pending}
    (looser : loose.bound ≤ tight.bound) (opens : OpensOn loose stack) : OpensOn tight stack :=
  fun p member =>
    ⟨(opens p member).1, fun s h => Nat.lt_of_lt_of_le ((opens p member).2 s h) looser⟩

/-- How a piece is read: which operators it leaves pending, and which items it puts out, the
latest first. -/
structure ReadAs (rule : Rule) (ts : List Token) (t : Expr) (pending : List Pending)
    (out : List Postfix) : Prop where
  reads : ∀ stack output rest, OpensOn rule stack →
    arrange true stack output (ts ++ rest) = arrange false (pending ++ stack) (out ++ output) rest
  settled : ∀ p ∈ pending, ∃ s, p.strength? = some s ∧ rule.least ≤ s
  builds : ∀ trees, Builds (out.reverse ++ items pending) trees (t :: trees)
  huge : (out.reverse ++ items pending).findSome? huge? = ts.findSome? Token.huge?

namespace ReadAs

variable {rule tight loose : Rule} {ts ls rs : List Token} {t l r : Expr}
  {pending pendingL pendingR : List Pending} {out outL outR : List Postfix}

/-- No parenthesis is left pending. -/
theorem closed (reading : ReadAs rule ts t pending out) : .paren ∉ pending := by
  intro member
  obtain ⟨s, isStrength, _⟩ := reading.settled _ member
  cases isStrength

/-- A piece of a tight rule is a piece of a looser one. -/
theorem loosen (least : loose.least ≤ tight.least) (bound : loose.bound ≤ tight.bound)
    (reading : ReadAs tight ts t pending out) : ReadAs loose ts t pending out where
  reads stack output rest opens := reading.reads stack output rest (opens.mono bound)
  settled p member := by
    obtain ⟨s, isStrength, le⟩ := reading.settled p member
    exact ⟨s, isStrength, Nat.le_trans least le⟩
  builds := reading.builds
  huge := reading.huge

/-- A single token that is an operand is put out at once. -/
theorem token {token : Token} {item : Postfix}
    (step : ∀ stack output rest, arrange true stack output (token :: rest) =
      arrange false stack (item :: output) rest)
    (builds : ∀ trees, Builds [item] trees (t :: trees)) (huge : item.huge? = token.huge?) :
    ReadAs .atom [token] t [] [item] where
  reads stack output rest _ := step stack output rest
  settled _ member := by cases member
  builds := builds
  huge := by simp [huge]

/-- The left operand is finished when the operation comes; the operation stays pending. -/
theorem binary (op : BinaryOp) (left : ReadAs (Rule.leftOf op) ls l pendingL outL)
    (right : ReadAs (Rule.rightOf op) rs r pendingR outR) :
    ReadAs (Rule.ofOp op) (ls ++ .operator op :: rs) (.binary op l r)
      (pendingR ++ [.operator op]) (outR ++ ((items pendingL).reverse ++ outL)) where
  reads stack output rest opens := by
    have leftOpens : OpensOn (Rule.leftOf op) stack := opens.mono (by cases op <;> decide)
    have rightOpens : OpensOn (Rule.rightOf op) (.operator op :: stack) := by
      rintro p ⟨⟩
      refine ⟨by simp, ?_⟩
      rintro s ⟨⟩
      cases op <;> decide
    have released := release_append pendingL
      (fun p member => by
        obtain ⟨s, isStrength, le⟩ := left.settled p member
        exact ⟨s, isStrength, Rule.yields_of_least_le le⟩)
      (fun p member s isStrength =>
        Rule.yields_of_lt_bound ((opens p member).2 s isStrength))
      (outL ++ output)
    calc arrange true stack output ((ls ++ .operator op :: rs) ++ rest)
        = arrange false (pendingL ++ stack) (outL ++ output) (.operator op :: (rs ++ rest)) := by
          rw [List.append_assoc, left.reads _ _ _ leftOpens]
          rfl
      _ = arrange true (.operator op :: stack) ((items pendingL).reverse ++ (outL ++ output))
            (rs ++ rest) := by
          simp [arrange, released]
      _ = _ := by
          rw [right.reads _ _ _ rightOpens]
          simp
  settled p member := by
    rcases List.mem_append.mp member with pendingRight | last
    · obtain ⟨s, isStrength, le⟩ := right.settled p pendingRight
      exact ⟨s, isStrength, Nat.le_trans (by cases op <;> decide) le⟩
    · rw [List.mem_singleton.mp last]
      exact ⟨_, rfl, by cases op <;> decide⟩
  builds trees := by
    have both := ((left.builds trees).append (right.builds (l :: trees))).append
      (Builds.operator op l r trees)
    simpa [items_append, items, item?] using both
  huge := by
    have both : ((outL.reverse ++ items pendingL) ++ (outR.reverse ++ items pendingR)).findSome?
        huge? = (ls ++ rs).findSome? Token.huge? := by
      rw [List.findSome?_append, left.huge, right.huge, List.findSome?_append]
    simpa [items_append, items, item?, huge?, Token.huge?, List.findSome?_cons] using both

/-- A minus sign waits below its operand. -/
theorem minus (operand : ReadAs .signed ts t pending out) :
    ReadAs .signed (.operator .sub :: ts) (negate t) (pending ++ [.negation]) out where
  reads stack output rest _ := by
    have opens : OpensOn .signed (.negation :: stack) := by
      rintro p ⟨⟩
      refine ⟨by simp, ?_⟩
      rintro s ⟨⟩
      decide
    simpa [arrange] using operand.reads (.negation :: stack) output rest opens
  settled p member := by
    rcases List.mem_append.mp member with inner | last
    · exact operand.settled p inner
    · rw [List.mem_singleton.mp last]
      exact ⟨_, rfl, by decide⟩
  builds trees := by
    have both := (operand.builds trees).append (Builds.negation t trees)
    simpa [items_append, items, item?] using both
  huge := by
    simpa [items_append, items, item?, huge?, Token.huge?, List.findSome?_cons] using operand.huge

/-- A plus sign leaves no trace. -/
theorem plus (operand : ReadAs .signed ts t pending out) :
    ReadAs .signed (.operator .add :: ts) t pending out where
  reads stack output rest opens := by
    simpa [arrange] using operand.reads stack output rest opens
  settled := operand.settled
  builds := operand.builds
  huge := by simpa [Token.huge?, List.findSome?_cons] using operand.huge

/-- A piece in parentheses is finished when they are closed. -/
theorem group (inner : ReadAs .sum ts t pending out) :
    ReadAs .atom (.openParen :: ts ++ [.closeParen]) t [] ((items pending).reverse ++ out) where
  reads stack output rest opens := by
    have closes : close (pending ++ .paren :: stack) (out ++ output) =
        some (stack, (items pending).reverse ++ (out ++ output)) := by
      rw [close_append inner.closed]
      cases stack with
      | nil => rfl
      | cons top below =>
          cases top with
          | function op => exact absurd rfl ((opens _ rfl).1 op)
          | paren | negation | operator _ => rfl
    have opened := inner.reads (.paren :: stack) output (.closeParen :: rest) (.paren _ _)
    simp [arrange, opened, closes]
  settled _ member := by cases member
  builds trees := by
    have built := inner.builds trees
    simpa [items] using built
  huge := by simpa [items, Token.huge?, List.findSome?_cons] using inner.huge

/-- A function is finished together with the parentheses of its argument. -/
theorem call (op : UnaryOp) (argument : ReadAs .sum ts t pending out) :
    ReadAs .atom (.function op :: .openParen :: ts ++ [.closeParen]) (.unary op t) []
      (.function op :: ((items pending).reverse ++ out)) where
  reads stack output rest _ := by
    have closes : close (pending ++ .paren :: .function op :: stack) (out ++ output) =
        some (stack, .function op :: ((items pending).reverse ++ (out ++ output))) := by
      rw [close_append argument.closed]
      rfl
    have opened := argument.reads (.paren :: .function op :: stack) output
      (.closeParen :: rest) (.paren _ _)
    simp [arrange, opensParen, opened, closes]
  settled _ member := by cases member
  builds trees := by
    have both := (argument.builds trees).append (Builds.function op t trees)
    simpa [items] using both
  huge := by simpa [items, huge?, Token.huge?, List.findSome?_cons] using argument.huge

end ReadAs

/-- Whatever a rule derives is read. -/
theorem exists_reading {rule : Rule} {ts : List Token} {t : Expr}
    (derived : Derives rule ts t) : ∃ pending out, ReadAs rule ts t pending out := by
  induction derived with
  | oneProduct _ ih =>
      obtain ⟨pending, out, reading⟩ := ih
      exact ⟨pending, out, reading.loosen (by decide) (by decide)⟩
  | @addition _ _ _ _ op additive _ _ left right =>
      obtain ⟨_, _, left⟩ := left
      obtain ⟨_, _, right⟩ := right
      rcases additive with rfl | rfl
      · exact ⟨_, _, ReadAs.binary .add left right⟩
      · exact ⟨_, _, ReadAs.binary .sub left right⟩
  | oneOperand _ ih =>
      obtain ⟨pending, out, reading⟩ := ih
      exact ⟨pending, out, reading.loosen (by decide) (by decide)⟩
  | @multiplication _ _ _ _ op multiplicative _ _ left right =>
      obtain ⟨_, _, left⟩ := left
      obtain ⟨_, _, right⟩ := right
      rcases multiplicative with rfl | rfl | rfl
      · exact ⟨_, _, ReadAs.binary .mul left right⟩
      · exact ⟨_, _, ReadAs.binary .div left right⟩
      · exact ⟨_, _, ReadAs.binary .mod left right⟩
  | unsigned _ ih =>
      obtain ⟨pending, out, reading⟩ := ih
      exact ⟨pending, out, reading.loosen (by decide) (by decide)⟩
  | plus _ ih =>
      obtain ⟨pending, out, operand⟩ := ih
      exact ⟨_, _, operand.plus⟩
  | minusConstant _ ih =>
      obtain ⟨pending, out, operand⟩ := ih
      exact ⟨_, _, operand.minus⟩
  | @minusOther _ t _ other ih =>
      obtain ⟨pending, out, operand⟩ := ih
      have negated : negate t = .binary .mul (.const (-1.0)) t := by
        cases t with
        | const v => exact absurd rfl (other v)
        | var | mod | unary | binary => rfl
      exact ⟨_, _, negated ▸ operand.minus⟩
  | bare _ ih =>
      obtain ⟨pending, out, reading⟩ := ih
      exact ⟨pending, out, reading.loosen (by decide) (by decide)⟩
  | raised _ _ base exponent =>
      obtain ⟨_, _, base⟩ := base
      obtain ⟨_, _, exponent⟩ := exponent
      exact ⟨_, _, ReadAs.binary .pow base exponent⟩
  | number text => exact ⟨_, _, .token (by simp [arrange]) (Builds.number text) rfl⟩
  | «variable» => exact ⟨_, _, .token (by simp [arrange]) Builds.var rfl⟩
  | constant name => exact ⟨_, _, .token (by simp [arrange]) (Builds.const name) rfl⟩
  | call op _ ih =>
      obtain ⟨_, _, argument⟩ := ih
      exact ⟨_, _, argument.call op⟩
  | group _ ih =>
      obtain ⟨_, _, inner⟩ := ih
      exact ⟨_, _, inner.group⟩

/-! ### What was read is derived

A stack is the trace of an unfinished derivation.  A plus sign leaves no trace on the stack, so
this is a relation and no function of the stack.
-/

/-- The tokens read so far leave a stack of pending operators, and an operand of a rule is
wanted next. -/
inductive Opened : Rule → List Token → List Pending → Prop where
  | start : Opened .sum [] []
  | paren {rule : Rule} {ts : List Token} {stack : List Pending}
      (outer : Opened rule ts stack) : Opened .sum (ts ++ [.openParen]) (.paren :: stack)
  | call {rule : Rule} {ts : List Token} {stack : List Pending} (op : UnaryOp)
      (outer : Opened rule ts stack) :
      Opened .sum (ts ++ [.function op, .openParen]) (.paren :: .function op :: stack)
  | minus {rule : Rule} {ts : List Token} {stack : List Pending}
      (outer : Opened rule ts stack) :
      Opened .signed (ts ++ [.operator .sub]) (.negation :: stack)
  | plus {rule : Rule} {ts : List Token} {stack : List Pending}
      (outer : Opened rule ts stack) : Opened .signed (ts ++ [.operator .add]) stack
  | operand {rule : Rule} {ts ls : List Token} {stack : List Pending} {l : Expr} (op : BinaryOp)
      (outer : Opened rule ts stack) (fits : rule.rank ≤ (Rule.ofOp op).rank)
      (left : Derives (Rule.leftOf op) ls l) :
      Opened (Rule.rightOf op) (ts ++ ls ++ [.operator op]) (.operator op :: stack)

namespace Opened

variable {rule : Rule} {ts : List Token} {stack : List Pending}

/-- A signed operand may stand wherever an operand is wanted. -/
theorem rank_le (opened : Opened rule ts stack) : rule.rank ≤ Rule.signed.rank := by
  cases opened with
  | operand op => cases op <;> decide
  | start | paren | call | minus | plus => decide

/-- A function never lies on top of the stack: the parenthesis of its argument does. -/
theorem head_ne_function (opened : Opened rule ts stack) (op : UnaryOp) (below : List Pending) :
    stack ≠ .function op :: below := by
  induction opened with
  | plus _ ih => exact ih
  | start | paren | call | minus | operand => simp

end Opened

/-- An operand that fits the rule wanted has been read after that. -/
structure Operand (rule : Rule) (ts : List Token) (stack : List Pending) (tight : Rule)
    (us : List Token) (u : Expr) : Prop where
  opened : Opened rule ts stack
  derived : Derives tight us u
  fits : rule.rank ≤ tight.rank

namespace Operand

variable {rule outer tight : Rule} {ts us ls : List Token} {stack stack' : List Pending}
  {u l : Expr} {op : BinaryOp}

/-- An atom fits wherever an operand is wanted. -/
theorem ofAtom (opened : Opened rule ts stack) (atom : Derives .atom us u) :
    Operand rule ts stack .atom us u :=
  ⟨opened, atom, Nat.le_trans opened.rank_le (by decide)⟩

/-- A minus sign takes the operand. -/
theorem foldMinus (opened : Opened outer ts stack)
    (operand : Operand .signed (ts ++ [.operator .sub]) (.negation :: stack) tight us u) :
    Operand outer ts stack .signed (.operator .sub :: us) (negate u) where
  opened := opened
  derived := (operand.derived.loosen operand.fits).minus
  fits := opened.rank_le

/-- A plus sign takes the operand. -/
theorem foldPlus (opened : Opened outer ts stack)
    (operand : Operand .signed (ts ++ [.operator .add]) stack tight us u) :
    Operand outer ts stack .signed (.operator .add :: us) u where
  opened := opened
  derived := .plus (operand.derived.loosen operand.fits)
  fits := opened.rank_le

/-- An operation takes its right operand. -/
theorem foldOperand (opened : Opened outer ts stack)
    (fits : outer.rank ≤ (Rule.ofOp op).rank) (left : Derives (Rule.leftOf op) ls l)
    (operand : Operand (Rule.rightOf op) (ts ++ ls ++ [.operator op]) (.operator op :: stack)
      tight us u) :
    Operand outer ts stack (Rule.ofOp op) (ls ++ .operator op :: us) (.binary op l u) where
  opened := opened
  derived := .binary op left (operand.derived.loosen operand.fits)
  fits := fits

end Operand

/-- The power operation finishes nothing. -/
theorem release_pow (stack : List Pending) (output : List Postfix) :
    release .pow stack output = (stack, output) := by
  refine release_append [] (by simp) ?_ output
  intro p _ s isStrength
  rw [Bool.eq_false_iff, ne_eq, yields_iff]
  cases p with
  | operator op =>
      cases isStrength
      cases op <;> simp [strength]
  | negation =>
      cases isStrength
      simp [strength, negationStrength]
  | paren | function _ => cases isStrength

/-- Strengths order operations as the rules do: one that finishes a pending operator can have
its result as the left operand. -/
theorem Rule.leftOf_le_of_yields {pending op : BinaryOp}
    (finished : yields (strength pending) op = true) :
    (leftOf op).rank ≤ (ofOp pending).rank := by
  revert finished
  cases pending <;> cases op <;> decide

/-- One that does not finish a pending operator may stand to its right. -/
theorem Rule.rightOf_le_of_not_yields {pending op : BinaryOp}
    (unfinished : yields (strength pending) op = false) :
    (rightOf pending).rank ≤ (ofOp op).rank := by
  revert unfinished
  cases pending <;> cases op <;> decide

namespace Operand

variable {rule outer tight : Rule} {ts us ls : List Token} {stack stack' : List Pending}
  {u l : Expr} {op : BinaryOp} {output output' : List Postfix}

/-- An operation that finishes nothing takes the operand alone as its left operand. -/
theorem awaits (operand : Operand rule ts stack tight us u)
    (isLeft : (Rule.leftOf op).rank ≤ tight.rank) (fits : rule.rank ≤ (Rule.ofOp op).rank)
    (unchanged : Postfix.release op stack output = (stack, output)) :
    Opened (Rule.rightOf op) (ts ++ us ++ [.operator op])
      (.operator op :: (Postfix.release op stack output).1) := by
  rw [unchanged]
  exact .operand op operand.opened fits (operand.derived.loosen isLeft)

/-- An operation comes after an operand: it finishes what binds more tightly and takes the
result as its left operand. -/
theorem release (operand : Operand rule ts stack tight us u)
    (isLeft : (Rule.leftOf op).rank ≤ tight.rank) :
    Opened (Rule.rightOf op) (ts ++ us ++ [.operator op])
      (.operator op :: (Postfix.release op stack output).1) := by
  have opened := operand.opened
  by_cases isPow : op = .pow
  · subst isPow
    exact operand.awaits isLeft (Nat.le_trans opened.rank_le (by decide))
      (release_pow stack output)
  have negationYields : yields negationStrength op = true := by
    revert isPow
    cases op <;> decide
  have signedIsLeft : (Rule.leftOf op).rank ≤ Rule.signed.rank := by
    revert isPow
    cases op <;> decide
  -- What binds more tightly is folded into the operand, frame by frame.
  induction opened generalizing tight us u output with
  | start => exact operand.awaits isLeft (Nat.zero_le _) rfl
  | paren => exact operand.awaits isLeft (Nat.zero_le _) rfl
  | call => exact operand.awaits isLeft (Nat.zero_le _) rfl
  | minus outer ih =>
      simpa [Postfix.release, negationYields] using ih (operand.foldMinus outer) signedIsLeft
  | plus outer ih => simpa using ih (operand.foldPlus outer) signedIsLeft
  | @operand _ _ _ _ _ pending outer fits left ih =>
      by_cases finished : yields (strength pending) op = true
      · simpa [Postfix.release, finished] using
          ih (operand.foldOperand outer fits left) (Rule.leftOf_le_of_yields finished)
      · rw [Bool.not_eq_true] at finished
        exact operand.awaits isLeft (Rule.rightOf_le_of_not_yields finished)
          (by simp [Postfix.release, finished])

/-- A parenthesis is closed after an operand: everything down to its opening becomes one
atom. -/
theorem close (operand : Operand rule ts stack tight us u)
    (closes : Postfix.close stack output = some (stack', output')) :
    ∃ rule' ts' us' u', Operand rule' ts' stack' .atom us' u' ∧
      ts' ++ us' = ts ++ us ++ [.closeParen] := by
  have opened := operand.opened
  induction opened generalizing tight us u output with
  | start => simp [Postfix.close] at closes
  | @paren _ ts stack outer _ =>
      have isTop : Postfix.close (.paren :: stack) output = some (stack, output) := by
        cases stack with
        | nil => rfl
        | cons top below =>
            cases top with
            | function op => exact absurd rfl (outer.head_ne_function op below)
            | paren | negation | operator _ => rfl
      rw [isTop] at closes
      cases closes
      exact ⟨_, ts, .openParen :: us ++ [.closeParen], u,
        .ofAtom outer (.group (operand.derived.loosen operand.fits)), by simp⟩
  | @call _ ts stack op outer _ =>
      simp only [Postfix.close, Option.some.injEq, Prod.mk.injEq] at closes
      obtain ⟨rfl, rfl⟩ := closes
      exact ⟨_, ts, .function op :: .openParen :: us ++ [.closeParen], .unary op u,
        .ofAtom outer (.call op (operand.derived.loosen operand.fits)), by simp⟩
  | minus outer ih =>
      obtain ⟨rule', ts', us', u', closed, read⟩ :=
        ih (operand.foldMinus outer) (by simpa [Postfix.close] using closes)
      exact ⟨rule', ts', us', u', closed, by simpa using read⟩
  | plus outer ih =>
      obtain ⟨rule', ts', us', u', closed, read⟩ := ih (operand.foldPlus outer) closes
      exact ⟨rule', ts', us', u', closed, by simpa using read⟩
  | operand op outer fits left ih =>
      obtain ⟨rule', ts', us', u', closed, read⟩ :=
        ih (operand.foldOperand outer fits left) (by simpa [Postfix.close] using closes)
      exact ⟨rule', ts', us', u', closed, by simpa using read⟩

/-- The input ends after an operand: everything becomes one sum. -/
theorem flush (operand : Operand rule ts stack tight us u)
    (flushes : Postfix.flush stack output = some output') : ∃ t, Derives .sum (ts ++ us) t := by
  have opened := operand.opened
  induction opened generalizing tight us u output with
  | start => exact ⟨u, operand.derived.loosen operand.fits⟩
  | paren _ _ => simp [Postfix.flush] at flushes
  | call _ _ _ => simp [Postfix.flush] at flushes
  | minus outer ih =>
      simpa using ih (operand.foldMinus outer) (by simpa [Postfix.flush] using flushes)
  | plus outer ih => simpa using ih (operand.foldPlus outer) flushes
  | operand op outer fits left ih =>
      simpa using ih (operand.foldOperand outer fits left)
        (by simpa [Postfix.flush] using flushes)

end Operand

/-! ### Both directions -/

theorem exists_of_opensParen {tokens : List Token} (opens : opensParen tokens = true) :
    ∃ rest, tokens = .openParen :: rest := by
  cases tokens with
  | nil => cases opens
  | cons first rest =>
      cases first with
      | openParen => exact ⟨rest, rfl⟩
      | number _ | «variable» | constant _ | function _ | operator _ | closeParen => cases opens

/-- An operation after an operand is put on the stack, when it has released what it finishes. -/
theorem arrange_operator (stack : List Pending) (output : List Postfix) (op : BinaryOp)
    (rest : List Token) : arrange false stack output (.operator op :: rest) =
      arrange true (.operator op :: (release op stack output).1) (release op stack output).2
        rest := by
  simp [arrange]

mutual

/-- Where an operand is wanted, what is read to the end completes a derivation. -/
theorem derives_of_wanted : ∀ (tokens : List Token) {rule : Rule} {ts : List Token}
    {stack : List Pending} {output items : List Postfix}, Opened rule ts stack →
      arrange true stack output tokens = .ok items → ∃ t, Derives .sum (ts ++ tokens) t
  | [], _, _, _, _, _, _, arranged => by simp [arrange] at arranged
  | .number text :: rest, _, _, _, _, _, opened, arranged => by
      rw [arrange, if_pos rfl] at arranged
      simpa using derives_of_finished rest (.ofAtom opened (.number text)) arranged
  | .variable :: rest, _, _, _, _, _, opened, arranged => by
      rw [arrange, if_pos rfl] at arranged
      simpa using derives_of_finished rest (.ofAtom opened .variable) arranged
  | .constant name :: rest, _, _, _, _, _, opened, arranged => by
      rw [arrange, if_pos rfl] at arranged
      simpa using derives_of_finished rest (.ofAtom opened (.constant name)) arranged
  | .function op :: rest, _, _, stack, output, items, opened, arranged => by
      by_cases opens : opensParen rest = true
      · obtain ⟨inside, rfl⟩ := exists_of_opensParen opens
        have enters : arrange true (.paren :: .function op :: stack) output inside =
            .ok items := by
          simpa [arrange, opensParen] using arranged
        simpa using derives_of_wanted inside (opened.call op) enters
      · simp [arrange, opens] at arranged
  | .openParen :: rest, _, _, _, _, _, opened, arranged => by
      rw [arrange, if_pos rfl] at arranged
      simpa using derives_of_wanted rest opened.paren arranged
  | .closeParen :: rest, _, _, _, _, _, _, arranged => by simp [arrange] at arranged
  | .operator op :: rest, _, _, _, _, _, opened, arranged => by
      cases op with
      | sub =>
          rw [arrange, if_pos rfl] at arranged
          simpa using derives_of_wanted rest opened.minus arranged
      | add =>
          rw [arrange, if_pos rfl] at arranged
          simpa using derives_of_wanted rest opened.plus arranged
      | mul | div | mod | pow => simp [arrange] at arranged
termination_by tokens => tokens.length

/-- After an operand, what is read to the end completes a derivation. -/
theorem derives_of_finished : ∀ (tokens : List Token) {rule : Rule} {ts us : List Token}
    {stack : List Pending} {u : Expr} {output items : List Postfix},
    Operand rule ts stack .atom us u → arrange false stack output tokens = .ok items →
      ∃ t, Derives .sum (ts ++ us ++ tokens) t
  | [], _, _, _, stack, _, output, _, operand, arranged => by
      cases flushed : flush stack output with
      | none => simp [arrange, flushed] at arranged
      | some output' => simpa using operand.flush flushed
  | .number _ :: rest, _, _, _, _, _, _, _, _, arranged
  | .variable :: rest, _, _, _, _, _, _, _, _, arranged
  | .constant _ :: rest, _, _, _, _, _, _, _, _, arranged
  | .function _ :: rest, _, _, _, _, _, _, _, _, arranged
  | .openParen :: rest, _, _, _, _, _, _, _, _, arranged => by simp [arrange] at arranged
  | .closeParen :: rest, _, _, _, stack, _, output, _, operand, arranged => by
      cases closed : close stack output with
      | none => simp [arrange, closed] at arranged
      | some released =>
          simp only [arrange, closed] at arranged
          obtain ⟨_, _, _, _, atom, read⟩ := operand.close closed
          simpa [read] using derives_of_finished rest atom arranged
  | .operator op :: rest, _, _, _, _, _, _, _, operand, arranged => by
      rw [arrange_operator] at arranged
      simpa using derives_of_wanted rest (operand.release (by cases op <;> decide)) arranged
termination_by tokens => tokens.length

end

/-- Tokens that are brought into postfix order are derived. -/
theorem derives_of_arrange {tokens : List Token} {items : List Postfix}
    (arranged : Postfix.ofTokens tokens = .ok items) : ∃ t, Derives .sum tokens t := by
  simpa using derives_of_wanted tokens .start arranged

/-- Bringing tokens into postfix order never runs short of operands. -/
theorem arrange_ne_malformed (wanted : Bool) (stack : List Pending) (output : List Postfix)
    (tokens : List Token) : arrange wanted stack output tokens ≠ .error .malformed := by
  fun_induction arrange wanted stack output tokens <;> simp_all

/-- Derived tokens are read as what they denote, unless a number is out of range. -/
theorem ofTokens_of_derives {tokens : List Token} {t : Expr} (derived : Derives .sum tokens t) :
    Expr.ofTokens tokens = unlessHuge (tokens.findSome? Token.huge?) (.ok t) := by
  obtain ⟨pending, out, reading⟩ := exists_reading derived
  have arranged : Postfix.ofTokens tokens = .ok (out.reverse ++ items pending) := by
    have read := reading.reads [] [] [] (.nil .sum)
    simp only [List.append_nil] at read
    simp [Postfix.ofTokens, read, arrange, flush_eq reading.closed]
  have built := reading.builds [] []
  rw [List.append_nil, reading.huge] at built
  simp only [Expr.ofTokens, arranged, build]
  exact built

/-- No literal of derived tokens is out of range exactly if all are finite. -/
theorem findSome?_huge_eq_none_iff (tokens : List Token) :
    tokens.findSome? Token.huge? = none ↔
      ∀ text, .number text ∈ tokens → (Numeral.ofLiteral text).isFinite = true := by
  rw [List.findSome?_eq_none_iff]
  constructor
  · intro none text member
    simpa [Token.huge?] using none _ member
  · intro finite token member
    cases token with
    | number text => simpa [Token.huge?] using finite text member
    | «variable» | constant _ | function _ | operator _ | openParen | closeParen => rfl

/-- The reader accepts exactly the token lists that the grammar derives and whose literals are
finite, and gives the tree that the derivation denotes.  Every other list is refused with an
error that names what is wrong: the items never run short of operands. -/
theorem ofTokens_accepts_grammar (tokens : List Token) :
    (∀ t, Expr.ofTokens tokens = .ok t ↔ Derives .sum tokens t ∧
      ∀ text, .number text ∈ tokens → (Numeral.ofLiteral text).isFinite = true) ∧
    ((¬ ∃ t, Derives .sum tokens t ∧
        ∀ text, .number text ∈ tokens → (Numeral.ofLiteral text).isFinite = true) →
      ∃ e, Expr.ofTokens tokens = .error e ∧ e ≠ .malformed) := by
  simp only [← findSome?_huge_eq_none_iff]
  by_cases derivable : ∃ t, Derives .sum tokens t
  · obtain ⟨u, derived⟩ := derivable
    have read := ofTokens_of_derives derived
    cases huge : tokens.findSome? Token.huge? with
    | some text => simp [read, huge, unlessHuge]
    | none =>
        rw [huge] at read
        refine ⟨fun t => ⟨fun accepted => ?_, fun other => ?_⟩, fun refused => ?_⟩
        · cases read.symm.trans accepted
          exact ⟨derived, rfl⟩
        · have same := ofTokens_of_derives other.1
          rw [huge] at same
          exact same
        · exact absurd ⟨u, derived, rfl⟩ refused
  · cases arranged : Postfix.ofTokens tokens with
    | ok items => exact absurd (derives_of_arrange arranged) derivable
    | error e =>
        have stopped : Expr.ofTokens tokens = .error e := by
          simp only [Expr.ofTokens, arranged]
          rfl
        refine ⟨fun t => ⟨fun accepted => ?_, fun derived => ?_⟩, fun _ => ?_⟩
        · simp [stopped] at accepted
        · exact absurd ⟨t, derived.1⟩ derivable
        · exact ⟨e, stopped, fun malformed =>
            arrange_ne_malformed true [] [] tokens (malformed ▸ arranged)⟩

end PrimeSearch
