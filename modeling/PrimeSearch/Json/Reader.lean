/-
Module: PrimeSearch.Json.Reader
Purpose: Reading structured values from text, with the place of the first mistake.
Main exports: Json.Problem, Json.ReadError, Json.read, Json.unifyBreaks, Json.readFile
-/
import PrimeSearch.Json.Basic
import PrimeSearch.Text.Spelling

namespace PrimeSearch.Json

/-!
The reader walks down a list of characters.  A mistake is reported by what was expected
and by how many characters were left, from which `ReadError.message` works out line and
column.
-/

/-- What the reader missed. -/
inductive Problem where
  | value
  | propertyName
  | colon
  | comma
  | extraData
  | openString
  | controlCharacter
  | badEscape
  | badCodePoint
  | byteOrderMark
  /-- A whole number with more digits than are read. -/
  | longInteger (digits : Nat)
deriving Repr, DecidableEq

/-- Wording of a problem. -/
def Problem.message : Problem → String
  | .value => "Expecting value"
  | .propertyName => "Expecting property name enclosed in double quotes"
  | .colon => "Expecting ':' delimiter"
  | .comma => "Expecting ',' delimiter"
  | .extraData => "Extra data"
  | .openString => "Unterminated string starting at"
  | .controlCharacter => "Invalid control character at"
  | .badEscape => "Invalid \\escape"
  | .badCodePoint => "Invalid \\uXXXX escape"
  | .byteOrderMark => "Unexpected UTF-8 BOM (decode using utf-8-sig)"
  | .longInteger digits =>
      s!"Exceeds the limit ({Numeral.digitLimit} digits) for integer string conversion: " ++
        s!"value has {digits} digits; use sys.set_int_max_str_digits() to increase the limit"

/-- Whether a problem is one of form.  A number that is too long is well formed, and its place
is not told. -/
def Problem.isOfForm : Problem → Bool
  | .longInteger _ => false
  | _ => true

/-- A problem and the number of characters that were left where it arose. -/
structure Mistake where
  problem : Problem
  left : Nat

/-- A problem and its place in the text. -/
structure ReadError where
  problem : Problem
  line : Nat
  column : Nat
  position : Nat
deriving Repr, DecidableEq

/-- Wording of a reading error. -/
def ReadError.message (e : ReadError) : String :=
  if !e.problem.isOfForm then e.problem.message
  else e.problem.message ++ ": line " ++ Numeral.ofNat e.line ++ " column " ++
    Numeral.ofNat e.column ++ " (char " ++ Numeral.ofNat e.position ++ ")"

/-- Place a mistake in the text it was found in. -/
def Mistake.locate (text : List Char) (m : Mistake) : ReadError :=
  let before := text.take (text.length - m.left)
  let lastLine := (before.reverse.takeWhile (· ≠ '\n')).reverse
  ⟨m.problem, before.count '\n' + 1, characterCount lastLine + 1, characterCount before⟩

/-- Skip blanks, tabs and line breaks. -/
def skipBlanks : List Char → List Char
  | [] => []
  | c :: cs =>
      if c = ' ' ∨ c = '\t' ∨ c = '\n' ∨ c = '\r' then skipBlanks cs else c :: cs

/-- Value of a hexadecimal digit. -/
def hexValue? (c : Char) : Option Nat :=
  if '0' ≤ c ∧ c ≤ '9' then some (c.toNat - 0x30)
  else if 'a' ≤ c ∧ c ≤ 'f' then some (c.toNat - 0x57)
  else if 'A' ≤ c ∧ c ≤ 'F' then some (c.toNat - 0x37)
  else none

/-- Value of exactly four hexadecimal digits. -/
def hexQuad? : List Char → Option (Nat × List Char)
  | a :: b :: c :: d :: rest => do
      let a ← hexValue? a
      let b ← hexValue? b
      let c ← hexValue? c
      let d ← hexValue? d
      return (((a * 16 + b) * 16 + c) * 16 + d, rest)
  | _ => none

/-- The second half of a character written as two code units.  At the very end of a text,
where no closing quote can follow, it is not looked for. -/
def lowHalf? : List Char → Option (Nat × List Char)
  | '\\' :: 'u' :: rest =>
      match hexQuad? rest with
      | some (unit, rest) =>
          if 0xdc00 ≤ unit ∧ unit ≤ 0xdfff ∧ rest ≠ [] then some (unit, rest) else none
      | none => none
  | _ => none

/-- The character that a one-letter escape stands for. -/
def escapeChar? : Char → Option Char
  | '"' => some '"'
  | '\\' => some '\\'
  | '/' => some '/'
  | 'b' => some '\x08'
  | 'f' => some '\x0c'
  | 'n' => some '\n'
  | 'r' => some '\r'
  | 't' => some '\t'
  | _ => none

/-- Read a string after its opening quote; `opening` characters were left at the quote. -/
def readString (opening : Nat) :
    Nat → List Char → List Char → Except Mistake (String × List Char)
  | 0, _, _ => .error ⟨.openString, opening⟩
  | _ + 1, _, [] => .error ⟨.openString, opening⟩
  | _ + 1, done, '"' :: rest => .ok (String.ofList done.reverse, rest)
  | _ + 1, _, ['\\'] => .error ⟨.openString, opening⟩
  | fuel + 1, done, '\\' :: 'u' :: rest =>
      if rest.length ≤ 4 then .error ⟨.badCodePoint, rest.length + 1⟩
      else
        match hexQuad? rest with
        | none => .error ⟨.badCodePoint, rest.length + 1⟩
        | some (unit, tail) =>
            if 0xd800 ≤ unit ∧ unit ≤ 0xdbff then
              match lowHalf? tail with
              | some (low, after) =>
                  let joined := 0x10000 + (unit - 0xd800) * 0x400 + (low - 0xdc00)
                  readString opening fuel ((spell joined).reverse ++ done) after
              | none => readString opening fuel ((spell unit).reverse ++ done) tail
            else readString opening fuel ((spell unit).reverse ++ done) tail
  | fuel + 1, done, '\\' :: c :: rest =>
      match escapeChar? c with
      | some e => readString opening fuel (e :: done) rest
      | none => .error ⟨.badEscape, rest.length + 2⟩
  | fuel + 1, done, c :: rest =>
      if c.toNat < 0x20 then .error ⟨.controlCharacter, rest.length + 1⟩
      else readString opening fuel (c :: done) rest

/-- Whether a character is an ASCII digit. -/
def isPlainDigit (c : Char) : Bool := decide ('0' ≤ c) && decide (c ≤ '9')

/-- The power of ten at the front of a text, marker included. -/
def spanPower : List Char → List Char × List Char
  | marker :: rest =>
      if marker = 'e' ∨ marker = 'E' then
        let (sign, rest') :=
          match rest with
          | '-' :: tail => (['-'], tail)
          | '+' :: tail => (['+'], tail)
          | tail => ([], tail)
        match rest'.span isPlainDigit with
        | ([], _) => ([], marker :: rest)
        | (ds, tail) => (marker :: sign ++ ds, tail)
      else ([], marker :: rest)
  | [] => ([], [])

/-- Read a number: no leading zeros, a fraction or a power of ten makes it real. -/
def readNumber (cs : List Char) : Except Problem (Json × List Char) :=
  let (negative, unsigned) :=
    match cs with
    | '-' :: tail => (true, tail)
    | tail => (false, tail)
  let (whole, rest) :=
    match unsigned with
    | '0' :: tail => (['0'], tail)
    | tail => tail.span isPlainDigit
  if whole.isEmpty then .error .value
  else
    let (fraction, rest) :=
      match rest with
      | '.' :: tail =>
          match tail.span isPlainDigit with
          | ([], _) => ([], rest)
          | (ds, after) => ('.' :: ds, after)
      | _ => ([], rest)
    let (power, rest) := spanPower rest
    if fraction.isEmpty && power.isEmpty then
      if Numeral.digitLimit < whole.length then .error (.longInteger whole.length)
      else
        let magnitude : Int := Numeral.digitsValue whole
        .ok (.int (if negative then -magnitude else magnitude), rest)
    else
      let magnitude := Numeral.ofLiteral (String.ofList (whole ++ fraction ++ power))
      .ok (.real (if negative then -magnitude else magnitude), rest)

/-- The words that stand for values. -/
def words : List (List Char × Json) := [
  ("null".toList, .null), ("true".toList, .bool true), ("false".toList, .bool false),
  ("NaN".toList, .real Binary64.nan), ("Infinity".toList, .real Binary64.infinity),
  ("-Infinity".toList, .real (-Binary64.infinity))]

/-- Remove a given start from a text. -/
def dropStart : List Char → List Char → Option (List Char)
  | [], cs => some cs
  | _ :: _, [] => none
  | p :: ps, c :: cs => if p = c then dropStart ps cs else none

/-- Read one of the words that stand for values. -/
def readWord (cs : List Char) : Option (Json × List Char) :=
  words.findSome? fun (word, value) => (dropStart word cs).map (value, ·)

mutual

/-- Read a value at the very front of a text. -/
def readValue : Nat → List Char → Except Mistake (Json × List Char)
  | 0, cs => .error ⟨.value, cs.length⟩
  | _ + 1, '"' :: rest => do
      let (text, rest) ← readString (rest.length + 1) (rest.length + 1) [] rest
      return (.str text, rest)
  | fuel + 1, '{' :: rest =>
      match skipBlanks rest with
      | '}' :: tail => .ok (.obj [], tail)
      | tail => readFields fuel [] tail
  | fuel + 1, '[' :: rest =>
      match skipBlanks rest with
      | ']' :: tail => .ok (.arr [], tail)
      | tail => readItems fuel [] tail
  | _ + 1, cs =>
      match readWord cs with
      | some found => .ok found
      | none => (readNumber cs).mapError (⟨·, cs.length⟩)

/-- Read the fields of an object up to its closing brace. -/
def readFields : Nat → List (String × Json) → List Char → Except Mistake (Json × List Char)
  | 0, _, cs => .error ⟨.value, cs.length⟩
  | fuel + 1, done, '"' :: rest => do
      let (name, rest) ← readString (rest.length + 1) (rest.length + 1) [] rest
      match skipBlanks rest with
      | ':' :: rest =>
          let (value, rest) ← readValue fuel (skipBlanks rest)
          let done := put name value done
          match skipBlanks rest with
          | '}' :: rest => return (.obj done, rest)
          | ',' :: rest => readFields fuel done (skipBlanks rest)
          | rest => .error ⟨.comma, rest.length⟩
      | rest => .error ⟨.colon, rest.length⟩
  | _ + 1, _, cs => .error ⟨.propertyName, cs.length⟩

/-- Read the items of an array up to its closing bracket; `done` holds them backwards. -/
def readItems : Nat → List Json → List Char → Except Mistake (Json × List Char)
  | 0, _, cs => .error ⟨.value, cs.length⟩
  | fuel + 1, done, cs => do
      let (value, rest) ← readValue fuel cs
      match skipBlanks rest with
      | ']' :: rest => return (.arr (value :: done).reverse, rest)
      | ',' :: rest => readItems fuel (value :: done) (skipBlanks rest)
      | rest => .error ⟨.comma, rest.length⟩

end

/-- Read a text that holds one value and blanks.  Of two calls in a row at least one takes in a
character, so twice the length is enough fuel. -/
def read (text : String) : Except ReadError Json :=
  let cs := text.toList
  match cs with
  | '\ufeff' :: _ => .error (Mistake.locate cs ⟨.byteOrderMark, cs.length⟩)
  | _ =>
      match readValue (2 * cs.length + 2) (skipBlanks cs) with
      | .error m => .error (m.locate cs)
      | .ok (value, rest) =>
          match skipBlanks rest with
          | [] => .ok value
          | rest => .error (Mistake.locate cs ⟨.extraData, rest.length⟩)

/-- Write every line break as a single line feed: a carriage return, alone or with the line
feed after it, is a line break too. -/
def unifyBreaks : List Char → List Char
  | [] => []
  | '\r' :: '\n' :: rest => '\n' :: unifyBreaks rest
  | c :: rest => (if c = '\r' then '\n' else c) :: unifyBreaks rest

/-- Read the contents of a file, with line breaks of all kinds. -/
def readFile (contents : String) : Except ReadError Json :=
  read (String.ofList (unifyBreaks contents.toList))

end PrimeSearch.Json
