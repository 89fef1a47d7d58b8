/-
Module: PrimeSearch.Expr.Token
Purpose: Splitting the text of an expression into tokens.
Main exports: Token, Token.text, Token.scan, Token.isName
-/
import PrimeSearch.Expr.Basic
import PrimeSearch.Text.Classes
import PrimeSearch.Text.Spelling

namespace PrimeSearch

/-- A token of the expression grammar. -/
inductive Token where
  /-- A number as it was written. -/
  | number (text : String)
  | variable
  | constant (name : NamedConstant)
  | function (op : UnaryOp)
  | operator (op : BinaryOp)
  | openParen
  | closeParen
deriving Repr, DecidableEq

namespace Token

/-- Text of a token in messages.  The remainder operation has one name, however it was
spelled. -/
def text : Token → String
  | .number text => text
  | .variable => "n"
  | .constant name => name.name
  | .function op => op.name
  | .operator op => op.name
  | .openParen => "("
  | .closeParen => ")"

/-- Whether a character can start a name. -/
def startsName (c : Char) : Bool := c.isAlpha || c == '_'

/-- Whether a character can stand inside a name. -/
def isName (c : Char) : Bool := c.isAlphanum || c == '_'

/-- Digits, an optional point with the digits after it, at the front of a text. -/
def spanMantissa (cs : List Char) : List Char × List Char :=
  match cs.span isDigit with
  | ([], '.' :: tail) =>
      match tail.span isDigit with
      | ([], _) => ([], cs)
      | (ds, rest) => ('.' :: ds, rest)
  | ([], _) => ([], cs)
  | (whole, '.' :: tail) =>
      let (ds, rest) := tail.span isDigit
      (whole ++ '.' :: ds, rest)
  | (whole, rest) => (whole, rest)

/-- A power of ten at the front of a text, if its marker is followed by digits. -/
def spanPower : List Char → List Char × List Char
  | marker :: rest =>
      if marker = 'e' ∨ marker = 'E' then
        let (sign, unsigned) :=
          match rest with
          | '-' :: tail => (['-'], tail)
          | '+' :: tail => (['+'], tail)
          | tail => ([], tail)
        match unsigned.span isDigit with
        | ([], _) => ([], marker :: rest)
        | (ds, tail) => (marker :: sign ++ ds, tail)
      else ([], marker :: rest)
  | [] => ([], [])

/-- The number at the front of a text, empty if there is none, and what follows it. -/
def spanNumber (cs : List Char) : List Char × List Char :=
  match spanMantissa cs with
  | ([], _) => ([], cs)
  | (mantissa, rest) =>
      let (power, rest) := spanPower rest
      (mantissa ++ power, rest)

/-- The token that a name stands for. -/
def ofName? (name : String) : Option Token :=
  if name = "n" then some .variable
  else
    match NamedConstant.ofName? name with
    | some c => some (.constant c)
    | none =>
        match UnaryOp.ofName? name with
        | some op => some (.function op)
        | none => if name = "mod" then some (.operator .mod) else none

/-- The token that a single character stands for. -/
def ofSymbol? : Char → Option Token
  | '+' => some (.operator .add)
  | '-' => some (.operator .sub)
  | '*' => some (.operator .mul)
  | '/' => some (.operator .div)
  | '%' => some (.operator .mod)
  | '^' => some (.operator .pow)
  | '(' => some .openParen
  | ')' => some .closeParen
  | _ => none

/-- A piece of text: a token of the grammar, or something that is none. -/
inductive Piece where
  | token (t : Token)
  | unknown (text : String)
deriving Repr, DecidableEq

/-- The first character of a non-empty text, and what follows it. -/
def firstCharacter (c : Char) : List Char → List Char × List Char
  | [] => ([c], [])
  | d :: rest => if spellOne c d then ([c, d], rest) else ([c], d :: rest)

/-- Cut one lexeme off a non-empty text: a number, a name, a run of blanks, or a single
character. -/
def lexeme (c : Char) (rest : List Char) : List Char × List Char :=
  match spanNumber (c :: rest) with
  | ([], _) =>
      if startsName c then
        let (name, tail) := rest.span isName
        (c :: name, tail)
      else if isBlank c then
        let (blanks, tail) := rest.span isBlank
        (c :: blanks, tail)
      else firstCharacter c rest
  | (digits, tail) => (digits, tail)

/-- The piece that a lexeme stands for; blanks stand for none. -/
def pieceOf? (lexeme : List Char) : Option Piece :=
  match lexeme with
  | [] => none
  | c :: _ =>
      let text := String.ofList lexeme
      if isDigit c || (c == '.' && lexeme.length != 1) then some (.token (.number text))
      else if startsName c then
        some (match ofName? text with
          | some t => .token t
          | none => .unknown text)
      else if isBlank c then none
      else
        some (match ofSymbol? c with
          | some t => .token t
          | none => .unknown text)

/-- The lexemes of a text, in order.  The fuel is the number of characters: every lexeme
takes at least one. -/
def lexemes : Nat → List Char → List (List Char)
  | _, [] => []
  | 0, _ :: _ => []
  | fuel + 1, c :: rest =>
      let (first, tail) := lexeme c rest
      first :: lexemes fuel tail

/-- Split a text into the tokens of the grammar and whatever is none of them. -/
def scan (text : String) : List Token × List String :=
  let cs := text.toList
  let pieces := (lexemes cs.length cs).filterMap pieceOf?
  (pieces.filterMap fun | .token t => some t | .unknown _ => none,
    pieces.filterMap fun | .token _ => none | .unknown u => some u)

end Token

end PrimeSearch
