/-
Module: PrimeSearch.Text.Quoted
Purpose: Quoting a text inside a message, and small operations on text.
Main exports: hexDigits, codeEscape, quoted, joinWith, countOccurrences
-/
import PrimeSearch.Text.Printable
import PrimeSearch.Text.Spelling

namespace PrimeSearch

/-- Lower-case hexadecimal digits of a number, filled with zeros to a width. -/
def hexDigits (width n : Nat) : List Char :=
  let ds := Nat.toDigits 16 n
  List.replicate (width - ds.length) '0' ++ ds

/-- A code point in two, four or eight hexadecimal digits. -/
def codeEscape (code : Nat) : List Char :=
  if code ≤ 0xff then '\\' :: 'x' :: hexDigits 2 code
  else if code ≤ 0xffff then '\\' :: 'u' :: hexDigits 4 code
  else '\\' :: 'U' :: hexDigits 8 code

/-- The form of a character inside quotes. -/
def quotedCharacter (mark : Char) : List Char → List Char
  | [c] =>
      if c = mark ∨ c = '\\' then ['\\', c]
      else if c = '\n' then ['\\', 'n']
      else if c = '\r' then ['\\', 'r']
      else if c = '\t' then ['\\', 't']
      else if isPrintable c then [c]
      else codeEscape c.toNat
  | spelling => codeEscape (codeOf spelling)

/-- A text in single quotes, or in double quotes when it holds a single quote and no
double one; characters without a visible form are written by their code point. -/
def quoted (text : String) : String :=
  let cs := text.toList
  let mark := if cs.contains '\'' && !cs.contains '"' then '"' else '\''
  String.ofList (mark :: (characters cs).flatMap (quotedCharacter mark) ++ [mark])

/-- Texts in a row with a separator between them. -/
def joinWith (separator : String) (texts : List String) : String :=
  String.intercalate separator texts

/-- Whether the first list starts the second. -/
def startsWith : List Char → List Char → Bool
  | [], _ => true
  | _ :: _, [] => false
  | p :: ps, c :: cs => p == c && startsWith ps cs

/-- Number of disjoint occurrences of a pattern, taken from the left; the counter says how
many characters still belong to the last occurrence. -/
def countFrom (pattern : List Char) : Nat → List Char → Nat
  | _, [] => 0
  | skip + 1, _ :: cs => countFrom pattern skip cs
  | 0, c :: cs =>
      if startsWith pattern (c :: cs) then 1 + countFrom pattern (pattern.length - 1) cs
      else countFrom pattern 0 cs

/-- Number of disjoint occurrences of a non-empty pattern in a text. -/
def countOccurrences (pattern text : String) : Nat := countFrom pattern.toList 0 text.toList

/-- The parts of a text between commas or any other separating character. -/
def splitAtChar (separator : Char) : List Char → List (List Char)
  | [] => [[]]
  | c :: cs =>
      let parts := splitAtChar separator cs
      if c = separator then [] :: parts
      else
        match parts with
        | first :: rest => (c :: first) :: rest
        | [] => [[c]]

end PrimeSearch
