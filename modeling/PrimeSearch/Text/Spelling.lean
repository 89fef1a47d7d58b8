/-
Module: PrimeSearch.Text.Spelling
Purpose: The spelling of texts that may hold halves of surrogate pairs.
Main exports: spell, spelt, unspelt, characters, codeOf, characterCount, byteSize,
  flatten_characters, characters_cons
-/

namespace PrimeSearch

-- The zero of a sum is the core library's, whatever else is imported.
attribute [local instance (high)] Zero.ofOfNat0

/-!
Text given by escapes may hold one half of a surrogate pair alone, and no character has its
code point.  So texts are spelt: a half is a mark and a private character, the mark itself is
written twice, and every other character stands for itself.  Texts are joined by joining their
spellings; what counts or cuts characters goes by `characters`.  The mark lies right below the
halves, so that spellings have the order of code points.

Main statements: nothing is lost when a text is cut into characters, and a character that is
not the mark is cut off alone.
-/

/-- Whether a code point is one half of a surrogate pair. -/
def isSurrogate (code : Nat) : Bool := decide (0xd800 ≤ code) && decide (code ≤ 0xdfff)

/-- Code point of the mark, the last one below the halves. -/
def markCode : Nat := 0xd7ff

/-- The character that announces a half. -/
def spellingMark : Char := Char.ofNat markCode

/-- How far above a half the private character lies that spells it after the mark. -/
def surrogateShift : Nat := 0x800

/-- Spelling of a code point. -/
def spell (code : Nat) : List Char :=
  if isSurrogate code then [spellingMark, Char.ofNat (code + surrogateShift)]
  else if code = markCode then [spellingMark, spellingMark]
  else [Char.ofNat code]

/-- Whether two characters in a row spell one code point. -/
def spellOne (c d : Char) : Bool :=
  c == spellingMark && (d == spellingMark || isSurrogate (d.toNat - surrogateShift))

/-- The characters of a text, each by its spelling. -/
def characters : List Char → List (List Char)
  | [] => []
  | [c] => [[c]]
  | c :: d :: cs => if spellOne c d then [c, d] :: characters cs else [c] :: characters (d :: cs)

/-- The code point that is spelt. -/
def codeOf : List Char → Nat
  | [c] => c.toNat
  | [_, d] => if d = spellingMark then markCode else d.toNat - surrogateShift
  | _ => 0

/-- Number of characters in a text. -/
def characterCount (text : List Char) : Nat := (characters text).length

/-- Number of bytes of a character; a half that stands for a byte has one. -/
def byteSizeOf : List Char → Nat
  | [c] => c.utf8Size
  | [_, d] => if d = spellingMark then d.utf8Size else 1
  | _ => 0

/-- Number of bytes in a text. -/
def byteSize (text : String) : Nat := ((characters text.toList).map byteSizeOf).sum

/-- Spell a text of whole characters. -/
def spelt (text : String) : String :=
  String.ofList (text.toList.flatMap fun c => spell c.toNat)

/-- The text of a spelling.  A half alone cannot be shown and is replaced. -/
def unspelt (text : String) : String :=
  String.ofList ((characters text.toList).map fun character =>
    let code := codeOf character
    if isSurrogate code then '\ufffd' else Char.ofNat code)

/-- Cutting a text into characters loses nothing. -/
theorem flatten_characters (text : List Char) : (characters text).flatten = text := by
  fun_induction characters text with
  | case1 => rfl
  | case2 c => rfl
  | case3 c d cs h ih => simp [ih]
  | case4 c d cs h ih => simp [ih]

/-- A character that is no mark is cut off alone. -/
theorem characters_cons {c : Char} (h : c ≠ spellingMark) (rest : List Char) :
    characters (c :: rest) = [c] :: characters rest := by
  cases rest with
  | nil => rfl
  | cons d cs => simp [characters, spellOne, h]

end PrimeSearch
