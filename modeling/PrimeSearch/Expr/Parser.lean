/-
Module: PrimeSearch.Expr.Parser
Purpose: Reading expressions from text.
Main exports: ParseError, Postfix.ofTokens, Postfix.build, Expr.parse
-/
import PrimeSearch.Expr.Token
import PrimeSearch.Number.Numeral
import PrimeSearch.Text.Quoted

namespace PrimeSearch

/-!
Tokens are brought into postfix order with a stack of pending operators, and the tree is
built from the postfix items with a stack of finished subtrees.  From loosest to
tightest the operators are `+ -`, `* / mod`, the minus sign, and `^`, which associates to
the right.  A function needs an argument in parentheses.
-/

/-- Why a text is no expression. -/
inductive ParseError where
  | unknownTokens (texts : List String)
  | empty
  | missingOperator (before : String)
  | missingOperand (before : String)
  | bareFunction (name : String)
  | unbalancedOpen
  | unbalancedClose
  | incomplete
  | literalOutOfRange (text : String)
  | malformed
deriving Repr, DecidableEq

namespace ParseError

/-- Wording of a parse error. -/
def message : ParseError → String
  | .unknownTokens texts => "Unknown tokens: " ++ joinWith ", " (texts.map quoted)
  | .empty => "Empty expression"
  | .missingOperator before => "Missing operator before " ++ quoted before
  | .missingOperand before => "Missing operand before " ++ quoted before
  | .bareFunction name =>
      "Function " ++ quoted name ++ " requires a parenthesized argument"
  | .unbalancedOpen => "Unbalanced '('"
  | .unbalancedClose => "Unbalanced ')'"
  | .incomplete => "Incomplete expression"
  | .literalOutOfRange text => "Numeric literal out of range: " ++ text
  | .malformed => "Malformed expression"

/-- The texts that are no tokens. -/
def unknown : ParseError → List String
  | .unknownTokens texts => texts
  | _ => []

end ParseError

/-- An operator waiting for its right operand. -/
inductive Pending where
  | paren
  | function (op : UnaryOp)
  | negation
  | operator (op : BinaryOp)
deriving Repr, DecidableEq

/-- An item of a postfix sequence. -/
inductive Postfix where
  | number (text : String)
  | variable
  | constant (name : NamedConstant)
  | function (op : UnaryOp)
  | negation
  | operator (op : BinaryOp)
deriving Repr, DecidableEq

namespace Postfix

/-- Binding strength of an operation. -/
def strength : BinaryOp → Nat
  | .add | .sub => 1
  | .mul | .div | .mod => 2
  | .pow => 4

/-- Binding strength of the minus sign. -/
def negationStrength : Nat := 3

/-- Whether an operator with a given strength on the stack is finished when an operation
follows. -/
def yields (onStack : Nat) (op : BinaryOp) : Bool :=
  strength op < onStack || (onStack == strength op && op != .pow)

/-- Move finished operators from the stack to the output, which is kept backwards. -/
def release (op : BinaryOp) : List Pending → List Postfix → List Pending × List Postfix
  | .operator top :: stack, output =>
      if yields (strength top) op then release op stack (.operator top :: output)
      else (.operator top :: stack, output)
  | .negation :: stack, output =>
      if yields negationStrength op then release op stack (.negation :: output)
      else (.negation :: stack, output)
  | stack, output => (stack, output)

/-- Move everything above the innermost open parenthesis to the output and drop the
parenthesis; a function before it is finished too. -/
def close : List Pending → List Postfix → Option (List Pending × List Postfix)
  | [], _ => none
  | .paren :: .function op :: stack, output => some (stack, .function op :: output)
  | .paren :: stack, output => some (stack, output)
  | .function op :: stack, output => close stack (.function op :: output)
  | .negation :: stack, output => close stack (.negation :: output)
  | .operator op :: stack, output => close stack (.operator op :: output)

/-- Move the whole stack to the output, unless a parenthesis is still open. -/
def flush : List Pending → List Postfix → Option (List Postfix)
  | [], output => some output
  | .paren :: _, _ => none
  | .function op :: stack, output => flush stack (.function op :: output)
  | .negation :: stack, output => flush stack (.negation :: output)
  | .operator op :: stack, output => flush stack (.operator op :: output)

/-- Whether the next token opens a parenthesis. -/
def opensParen : List Token → Bool
  | .openParen :: _ => true
  | _ => false

/-- Bring tokens into postfix order.  `wanted` says that an operand comes next. -/
def arrange (wanted : Bool) (stack : List Pending) (output : List Postfix) :
    List Token → Except ParseError (List Postfix)
  | [] =>
      if wanted then .error .incomplete
      else
        match flush stack output with
        | some output => .ok output.reverse
        | none => .error .unbalancedOpen
  | .number text :: rest =>
      if wanted then arrange false stack (.number text :: output) rest
      else .error (.missingOperator text)
  | .variable :: rest =>
      if wanted then arrange false stack (.variable :: output) rest
      else .error (.missingOperator "n")
  | .constant name :: rest =>
      if wanted then arrange false stack (.constant name :: output) rest
      else .error (.missingOperator name.name)
  | .function op :: rest =>
      if !wanted then .error (.missingOperator op.name)
      else if opensParen rest then arrange true (.function op :: stack) output rest
      else .error (.bareFunction op.name)
  | .openParen :: rest =>
      if wanted then arrange true (.paren :: stack) output rest
      else .error (.missingOperator "(")
  | .closeParen :: rest =>
      if wanted then .error (.missingOperand ")")
      else
        match close stack output with
        | some (stack, output) => arrange false stack output rest
        | none => .error .unbalancedClose
  | .operator op :: rest =>
      if wanted then
        match op with
        | .sub => arrange true (.negation :: stack) output rest
        | .add => arrange true stack output rest
        | op => .error (.missingOperand op.name)
      else
        let (stack, output) := release op stack output
        arrange true (.operator op :: stack) output rest

/-- Postfix order of a token list. -/
def ofTokens (tokens : List Token) : Except ParseError (List Postfix) :=
  arrange true [] [] tokens

/-- The negative of a subtree: a constant changes its sign, anything else is multiplied
by minus one. -/
def negate : Expr → Expr
  | .const v => .const (-v)
  | t => .binary .mul (.const (-1.0)) t

/-- Build a tree on a stack of finished subtrees. -/
def assemble : List Expr → List Postfix → Except ParseError Expr
  | [t], [] => .ok t
  | _, [] => .error .malformed
  | stack, .number text :: rest =>
      let value := Numeral.ofLiteral text
      if value.isFinite then assemble (.const value :: stack) rest
      else .error (.literalOutOfRange text)
  | stack, .variable :: rest => assemble (.var :: stack) rest
  | stack, .constant name :: rest => assemble (.const name.value :: stack) rest
  | t :: stack, .function op :: rest => assemble (.unary op t :: stack) rest
  | t :: stack, .negation :: rest => assemble (negate t :: stack) rest
  | right :: left :: stack, .operator op :: rest =>
      assemble (.binary op left right :: stack) rest
  | _, _ :: _ => .error .malformed

/-- The tree of a postfix sequence. -/
def build (items : List Postfix) : Except ParseError Expr := assemble [] items

end Postfix

/-- The expression that a token list denotes. -/
def Expr.ofTokens (tokens : List Token) : Except ParseError Expr := do
  let items ← Postfix.ofTokens tokens
  Postfix.build items

/-- Read an expression from text. -/
def Expr.parse (text : String) : Except ParseError Expr :=
  match Token.scan text with
  | ([], []) => .error .empty
  | (tokens, []) => Expr.ofTokens tokens
  | (_, unknown) => .error (.unknownTokens unknown)

end PrimeSearch
