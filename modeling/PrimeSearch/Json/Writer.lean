/-
Module: PrimeSearch.Json.Writer
Purpose: Writing structured values, on one line or indented, and the one-line literal
  form used in log records.
Main exports: Json.compact, Json.indented, Json.literal
-/
import PrimeSearch.Json.Basic
import PrimeSearch.Text.Quoted

namespace PrimeSearch.Json

/-- A code point by its code units, one or two. -/
def unitEscapes (code : Nat) : List Char :=
  if code ≤ 0xffff then '\\' :: 'u' :: hexDigits 4 code
  else
    let offset := code - 0x10000
    '\\' :: 'u' :: hexDigits 4 (0xd800 + offset / 0x400) ++
      '\\' :: 'u' :: hexDigits 4 (0xdc00 + offset % 0x400)

/-- The form of a character in a written string; whatever is not ASCII is written by its
code units. -/
def writtenCharacter : List Char → List Char
  | [c] =>
      if c = '"' then ['\\', '"']
      else if c = '\\' then ['\\', '\\']
      else if c = '\n' then ['\\', 'n']
      else if c = '\r' then ['\\', 'r']
      else if c = '\t' then ['\\', 't']
      else if c = '\x08' then ['\\', 'b']
      else if c = '\x0c' then ['\\', 'f']
      else if 0x20 ≤ c.toNat ∧ c.toNat ≤ 0x7f then [c]
      else unitEscapes c.toNat
  | spelling => unitEscapes (codeOf spelling)

/-- A string in double quotes. -/
def writtenString (s : String) : String :=
  String.ofList ('"' :: (characters s.toList).flatMap writtenCharacter ++ ['"'])

/-- A real number; the non-finite ones have names. -/
def writtenReal (x : Float) : String :=
  match Binary64.decode x with
  | .nan => "NaN"
  | .infinite negative => if negative then "-Infinity" else "Infinity"
  | .finite .. => Numeral.shortest x

mutual

/-- Everything on one line without blanks. -/
def compact : Json → String
  | .null => "null"
  | .bool b => if b then "true" else "false"
  | .int n => Numeral.ofInt n
  | .real x => writtenReal x
  | .str s => writtenString s
  | .arr items => "[" ++ compactItems items ++ "]"
  | .obj fields => "\x7b" ++ compactFields fields ++ "\x7d"

/-- Items separated by commas. -/
def compactItems : List Json → String
  | [] => ""
  | [item] => compact item
  | item :: rest => compact item ++ "," ++ compactItems rest

/-- Fields separated by commas. -/
def compactFields : List (String × Json) → String
  | [] => ""
  | [(name, value)] => writtenString name ++ ":" ++ compact value
  | (name, value) :: rest =>
      writtenString name ++ ":" ++ compact value ++ "," ++ compactFields rest

end

/-- A line break and the indentation of a nesting depth. -/
def newLine (depth : Nat) : String := "\n" ++ String.ofList (List.replicate (2 * depth) ' ')

mutual

/-- One field or item a line, indented by two blanks a level. -/
def indentedAt (depth : Nat) : Json → String
  | .arr (item :: rest) =>
      "[" ++ newLine (depth + 1) ++ indentedAt (depth + 1) item ++
        indentedItems (depth + 1) rest ++ newLine depth ++ "]"
  | .obj ((name, value) :: rest) =>
      "\x7b" ++ newLine (depth + 1) ++ writtenString name ++ ": " ++
        indentedAt (depth + 1) value ++ indentedFields (depth + 1) rest ++ newLine depth ++ "\x7d"
  | .arr [] => "[]"
  | .obj [] => "\x7b\x7d"
  | .null => "null"
  | .bool b => if b then "true" else "false"
  | .int n => Numeral.ofInt n
  | .real x => writtenReal x
  | .str s => writtenString s

/-- The items after the first. -/
def indentedItems (depth : Nat) : List Json → String
  | [] => ""
  | item :: rest => "," ++ newLine depth ++ indentedAt depth item ++ indentedItems depth rest

/-- The fields after the first. -/
def indentedFields (depth : Nat) : List (String × Json) → String
  | [] => ""
  | (name, value) :: rest =>
      "," ++ newLine depth ++ writtenString name ++ ": " ++ indentedAt depth value ++
        indentedFields depth rest

end

/-- The form of saved files. -/
def indented (j : Json) : String := indentedAt 0 j

mutual

/-- The literal form of a value inside a message: quoted texts, capitalised words. -/
def literal : Json → String
  | .null => "None"
  | .bool b => if b then "True" else "False"
  | .int n => Numeral.ofInt n
  | .real x => Numeral.shortest x
  | .str s => quoted s
  | .arr items => "[" ++ literalItems items ++ "]"
  | .obj fields => "\x7b" ++ literalFields fields ++ "\x7d"

/-- Items separated by commas and blanks. -/
def literalItems : List Json → String
  | [] => ""
  | [item] => literal item
  | item :: rest => literal item ++ ", " ++ literalItems rest

/-- Fields separated by commas and blanks. -/
def literalFields : List (String × Json) → String
  | [] => ""
  | [(name, value)] => quoted name ++ ": " ++ literal value
  | (name, value) :: rest =>
      quoted name ++ ": " ++ literal value ++ ", " ++ literalFields rest

end

/-- The text of a value shown to a user: a string stands for itself. -/
def display : Json → String
  | .str s => s
  | j => literal j

end PrimeSearch.Json
