/-
Module: PrimeSearch.Proofs.Json.RoundTrip
Purpose: A structured value without numbers is read from a file as it was written to it, but for halves of
  surrogate pairs that stand side by side.
Main exports: joined, respelt, respelt_of_ascii, Json.Lettered, Json.respelt, Json.readString_written,
  Json.readsBack, Json.read_indented, Json.readFile_indented
-/
import Mathlib.Tactic.SplitIfs
import PrimeSearch.Json.Reader
import PrimeSearch.Json.Writer
import PrimeSearch.Proofs.Text.Cutting

namespace PrimeSearch

/-!
A string is written one character after another, and whatever is not a visible character of ASCII is
written by its code units.  The reader takes two halves of a pair for one character, wherever they came
from, so a string that is read back is spelt anew from its code points.  For a list or an object the
reader walks over the text that the writer put down, and after every value it stops right behind it.
-/

/-! ### Code points -/

/-- Whether a code point is the first half of a surrogate pair. -/
def IsHighHalf (code : Nat) : Prop := 0xd800 ≤ code ∧ code ≤ 0xdbff

/-- Whether a code point is the second half of a surrogate pair. -/
def IsLowHalf (code : Nat) : Prop := 0xdc00 ≤ code ∧ code ≤ 0xdfff

instance : DecidablePred IsHighHalf := fun _ => inferInstanceAs (Decidable (_ ∧ _))

instance : DecidablePred IsLowHalf := fun _ => inferInstanceAs (Decidable (_ ∧ _))

/-- The code point of two halves. -/
def joinHalves (high low : Nat) : Nat := 0x10000 + (high - 0xd800) * 0x400 + (low - 0xdc00)

/-- Code points with halves that stand side by side made into one. -/
def joined : List Nat → List Nat
  | [] => []
  | [code] => [code]
  | high :: low :: rest =>
      if IsHighHalf high ∧ IsLowHalf low then joinHalves high low :: joined rest
      else high :: joined (low :: rest)

/-- A text spelt anew from its code points. -/
def respelt (text : String) : String :=
  String.ofList ((joined ((characters text.toList).map codeOf)).flatMap spell)

theorem joined_of_lt {codes : List Nat} (low : ∀ code ∈ codes, code < 0xd800) :
    joined codes = codes := by
  fun_induction joined codes with
  | case1 => rfl
  | case2 => rfl
  | case3 high low' rest halves ih =>
      have := low high List.mem_cons_self
      exact absurd halves.1.1 (by omega)
  | case4 high low' rest halves ih =>
      rw [ih fun code member => low code (List.mem_cons_of_mem _ member)]

theorem spell_ascii {c : Char} (ascii : Ascii c) : spell c.toNat = [c] := by
  have small : c.toNat < 0x80 := ascii
  have whole : isSurrogate c.toNat = false := by
    simp only [isSurrogate, Bool.and_eq_false_iff, decide_eq_false_iff_not]
    omega
  have other : c.toNat ≠ markCode := by
    simp only [markCode]
    omega
  rw [spell, whole, if_neg Bool.false_ne_true, if_neg other, Char.ofNat_toNat]

/-- A text of ASCII is spelt as it was. -/
theorem respelt_of_ascii {text : String} (all : isAscii text = true) : respelt text = text := by
  have ascii : ∀ c ∈ text.toList, Ascii c := forall_mem_of_all all
  have codes : (characters text.toList).map codeOf = text.toList.map Char.toNat := by
    rw [characters_ascii ascii, List.map_map]
    rfl
  have low : ∀ code ∈ text.toList.map Char.toNat, code < 0xd800 := by
    refine List.forall_mem_map.mpr fun c member => ?_
    exact Nat.lt_trans (ascii c member) (by decide)
  have spelt : (text.toList.map Char.toNat).flatMap spell = text.toList := by
    rw [List.flatMap_map]
    have each : text.toList.flatMap (fun c => spell c.toNat) = text.toList.flatMap ([·]) := by
      rw [List.flatMap, List.flatMap, List.map_congr_left fun c member => spell_ascii (ascii c member)]
    rw [each, List.flatMap_singleton']
  rw [respelt, codes, joined_of_lt low, spelt, String.ofList_toList]

namespace Json

/-! ### Hexadecimal digits -/

theorem hexValue?_digitChar : ∀ d < 16, hexValue? d.digitChar = some d := by decide

/-- The four digits of a code unit. -/
theorem hexDigits_four {n : Nat} (small : n < 0x10000) :
    hexDigits 4 n = [(n / 4096).digitChar, (n / 256 % 16).digitChar, (n / 16 % 16).digitChar,
      (n % 16).digitChar] := by
  have zero : Nat.digitChar 0 = '0' := rfl
  unfold hexDigits
  by_cases one : n < 16
  · have : n / 4096 = 0 ∧ n / 256 % 16 = 0 ∧ n / 16 % 16 = 0 ∧ n % 16 = n := by omega
    simp [Nat.toDigits_of_lt_base one, this, zero, List.replicate_succ]
  rw [Nat.toDigits_of_base_le (by decide) (by omega)]
  by_cases two : n / 16 < 16
  · have : n / 4096 = 0 ∧ n / 256 % 16 = 0 ∧ n / 16 % 16 = n / 16 := by omega
    simp [Nat.toDigits_of_lt_base two, this, zero, List.replicate_succ]
  rw [Nat.toDigits_of_base_le (by decide) (by omega), Nat.div_div_eq_div_mul]
  by_cases three : n / 256 < 16
  · have : n / 4096 = 0 ∧ n / 256 % 16 = n / 256 := by omega
    simp [Nat.toDigits_of_lt_base three, this, zero, List.replicate_succ]
  rw [Nat.toDigits_of_base_le (by decide) (by omega), Nat.div_div_eq_div_mul,
    Nat.toDigits_of_lt_base (by omega)]
  simp

/-- A code unit is read from its digits. -/
theorem hexQuad?_hexDigits {n : Nat} (small : n < 0x10000) (tail : List Char) :
    hexQuad? (hexDigits 4 n ++ tail) = some (n, tail) := by
  have value : (((n / 4096) * 16 + n / 256 % 16) * 16 + n / 16 % 16) * 16 + n % 16 = n := by omega
  rw [hexDigits_four small]
  simp only [List.cons_append, List.nil_append, hexQuad?]
  rw [hexValue?_digitChar _ (by omega), hexValue?_digitChar _ (by omega),
    hexValue?_digitChar _ (by omega), hexValue?_digitChar _ (by omega)]
  exact congrArg some (Prod.ext value rfl)

theorem length_hexDigits {n : Nat} (small : n < 0x10000) : (hexDigits 4 n).length = 4 := by
  rw [hexDigits_four small]
  rfl

/-! ### Written characters -/

theorem codeOf_lt (c : List Char) : codeOf c < 0x110000 := by
  have bound (c : Char) : c.toNat < 0x110000 := by
    rcases c.valid with low | ⟨-, high⟩
    · exact Nat.lt_trans low (by decide)
    · exact high
  unfold codeOf
  split
  next c => exact bound c
  next d =>
    have := bound d
    simp only [markCode]
    split <;> omega
  next => decide

/-- A character of ASCII with a letter of its own behind a backslash. -/
structure Escape (c letter : Char) : Prop where
  ascii : Ascii c
  read : escapeChar? letter = some c
  other : letter ≠ 'u'

/-- A character of ASCII that stands for itself. -/
structure Literal (c : Char) : Prop where
  ascii : Ascii c
  visible : 0x20 ≤ c.toNat
  noQuote : c ≠ '"'
  noBackslash : c ≠ '\\'

/-- How a character is written. -/
inductive Written (character : List Char) : List Char → Prop where
  | literal {c : Char} (same : character = [c]) (literal : Literal c) : Written character [c]
  | escape {c letter : Char} (same : character = [c]) (escape : Escape c letter) :
      Written character ['\\', letter]
  | units : Written character (unitEscapes (codeOf character))

theorem written (character : List Char) : Written character (writtenCharacter character) := by
  unfold writtenCharacter
  split
  next c =>
    split_ifs with quote backslash feed return_ tab back form visible
    next => exact .escape rfl ⟨by rw [quote]; decide, by rw [quote]; rfl, by decide⟩
    next => exact .escape rfl ⟨by rw [backslash]; decide, by rw [backslash]; rfl, by decide⟩
    next => exact .escape rfl ⟨by rw [feed]; decide, by rw [feed]; rfl, by decide⟩
    next => exact .escape rfl ⟨by rw [return_]; decide, by rw [return_]; rfl, by decide⟩
    next => exact .escape rfl ⟨by rw [tab]; decide, by rw [tab]; rfl, by decide⟩
    next => exact .escape rfl ⟨by rw [back]; decide, by rw [back]; rfl, by decide⟩
    next => exact .escape rfl ⟨by rw [form]; decide, by rw [form]; rfl, by decide⟩
    next =>
      exact .literal rfl ⟨Nat.lt_succ_of_le visible.2, visible.1, quote, backslash⟩
    next => exact .units
  next => exact .units

/-- A character is written by one unit or by two. -/
theorem unitEscapes_cases (code : Nat) (bound : code < 0x110000) :
    (code < 0x10000 ∧ unitEscapes code = '\\' :: 'u' :: hexDigits 4 code) ∨
      ∃ high low, IsHighHalf high ∧ IsLowHalf low ∧ joinHalves high low = code ∧ 0xffff < code ∧
        unitEscapes code = '\\' :: 'u' :: (hexDigits 4 high ++ '\\' :: 'u' :: hexDigits 4 low) := by
  unfold unitEscapes
  by_cases small : code ≤ 0xffff
  · rw [if_pos small]
    exact .inl ⟨by omega, rfl⟩
  · rw [if_neg small, List.cons_append, List.cons_append]
    refine .inr ⟨0xd800 + (code - 0x10000) / 0x400, 0xdc00 + (code - 0x10000) % 0x400, ?_, ?_, ?_,
      by omega, rfl⟩
    · unfold IsHighHalf
      omega
    · unfold IsLowHalf
      omega
    · unfold joinHalves
      omega

/-! ### Reading strings -/

section
variable {opening fuel : Nat} {done tail : List Char} {code : Nat}

/-- After a first half, a second half is looked for. -/
theorem readString_unit (small : code < 0x10000) (more : tail ≠ []) :
    readString opening (fuel + 1) done ('\\' :: 'u' :: (hexDigits 4 code ++ tail)) =
      if IsHighHalf code then
        match lowHalf? tail with
        | some (low, after) =>
            readString opening fuel ((spell (joinHalves code low)).reverse ++ done) after
        | none => readString opening fuel ((spell code).reverse ++ done) tail
      else readString opening fuel ((spell code).reverse ++ done) tail := by
  have long : ¬(hexDigits 4 code ++ tail).length ≤ 4 := by
    have := List.length_pos_iff.mpr more
    rw [List.length_append, length_hexDigits small]
    omega
  rw [readString, if_neg long, hexQuad?_hexDigits small]
  rfl

theorem lowHalf?_unit (small : code < 0x10000) (more : tail ≠ []) :
    lowHalf? ('\\' :: 'u' :: (hexDigits 4 code ++ tail)) =
      if IsLowHalf code then some (code, tail) else none := by
  rw [lowHalf?, hexQuad?_hexDigits small]
  dsimp only
  split
  next half => rw [if_pos ⟨half.1, half.2.1⟩]
  next half => rw [if_neg fun low => half ⟨low.1, low.2, more⟩]

/-- A second half is found only where one was written. -/
theorem lowHalf?_written (character : List Char) (more : tail ≠ []) :
    lowHalf? (writtenCharacter character ++ tail) =
      if IsLowHalf (codeOf character) then some (codeOf character, tail) else none := by
  have ascii {c : Char} (ascii : Ascii c) : ¬IsLowHalf (codeOf [c]) := by
    have : c.toNat < 0x80 := ascii
    simp only [IsLowHalf, codeOf]
    omega
  have form := written character
  generalize writtenCharacter character = text at form ⊢
  cases form with
  | literal same literal =>
      rw [same, if_neg (ascii literal.ascii)]
      simp [lowHalf?, literal.noBackslash]
  | escape same escape =>
      rw [same, if_neg (ascii escape.ascii)]
      simp [lowHalf?, escape.other]
  | units =>
      rcases unitEscapes_cases (codeOf character) (codeOf_lt _) with
        ⟨small, text⟩ | ⟨high, low, half, -, -, large, text⟩
      · rw [text]
        exact lowHalf?_unit small more
      · have whole : ¬IsLowHalf (codeOf character) := fun half => by
          have := half.2
          omega
        have other : ¬IsLowHalf high := fun half' => by
          have := half.2
          have := half'.1
          omega
        have small : high < 0x10000 := Nat.lt_of_le_of_lt half.2 (by decide)
        rw [text, if_neg whole]
        simp only [List.cons_append, List.append_assoc]
        rw [lowHalf?_unit small (List.cons_ne_nil _ _), if_neg other]

/-- A character that is no first half is read as it was written. -/
theorem readString_character {character : List Char} (whole : ¬IsHighHalf (codeOf character))
    (more : tail ≠ []) :
    readString opening (fuel + 1) done (writtenCharacter character ++ tail) =
      readString opening fuel ((spell (codeOf character)).reverse ++ done) tail := by
  have form := written character
  generalize writtenCharacter character = text at form ⊢
  cases form with
  | literal same literal =>
      rw [same, codeOf, spell_ascii literal.ascii]
      have visible := Nat.not_lt.mpr literal.visible
      simp [readString, literal.noQuote, literal.noBackslash, visible]
  | escape same escape =>
      rw [same, codeOf, spell_ascii escape.ascii]
      simp [readString, escape.other, escape.read]
  | units =>
      rcases unitEscapes_cases (codeOf character) (codeOf_lt _) with
        ⟨small, text⟩ | ⟨high, low, half, half', code, -, text⟩
      · rw [text]
        simp only [List.cons_append]
        rw [readString_unit small more, if_neg whole]
      · have small : high < 0x10000 := Nat.lt_of_le_of_lt half.2 (by decide)
        have small' : low < 0x10000 := Nat.lt_of_le_of_lt half'.2 (by decide)
        rw [text]
        simp only [List.cons_append, List.append_assoc]
        rw [readString_unit small (List.cons_ne_nil _ _), if_pos half, lowHalf?_unit small' more,
          if_pos half', ← code]

/-- A first half is written as one unit. -/
theorem readString_half {character : List Char} (half : IsHighHalf (codeOf character))
    (more : tail ≠ []) :
    readString opening (fuel + 1) done (writtenCharacter character ++ tail) =
      match lowHalf? tail with
      | some (low, after) =>
          readString opening fuel ((spell (joinHalves (codeOf character) low)).reverse ++ done) after
      | none => readString opening fuel ((spell (codeOf character)).reverse ++ done) tail := by
  have ascii {c : Char} (same : character = [c]) : ¬Ascii c := by
    rintro low
    have : c.toNat < 0x80 := low
    have := half.1
    rw [same, codeOf] at this
    omega
  have form := written character
  generalize writtenCharacter character = text at form ⊢
  cases form with
  | literal same literal => exact absurd literal.ascii (ascii same)
  | escape same escape => exact absurd escape.ascii (ascii same)
  | units =>
      rcases unitEscapes_cases (codeOf character) (codeOf_lt _) with
        ⟨small, text⟩ | ⟨-, -, -, -, -, large, -⟩
      · rw [text]
        simp only [List.cons_append]
        rw [readString_unit small more, if_pos half]
      · have := half.2
        omega

/-- A string is read to its closing quote, with halves that stand side by side made into one. -/
theorem readString_characters : ∀ (text : List (List Char)) (fuel : Nat) (done : List Char),
    text.length < fuel →
      readString opening fuel done (text.flatMap writtenCharacter ++ '"' :: tail) =
        .ok (String.ofList (done.reverse ++ (joined (text.map codeOf)).flatMap spell), tail)
  | [], fuel + 1, done, _ => by simp [readString, joined]
  | [character], fuel + 2, done, _ => by
      rw [List.flatMap_singleton]
      by_cases half : IsHighHalf (codeOf character)
      · rw [readString_half half (List.cons_ne_nil _ _)]
        simp [lowHalf?, readString, joined]
      · rw [readString_character half (List.cons_ne_nil _ _)]
        simp [readString, joined]
  | character :: next :: text, fuel + 2, done, enough => by
      have more (text : List Char) : text ++ '"' :: tail ≠ [] := List.append_ne_nil_of_right_ne_nil _
        (List.cons_ne_nil _ _)
      rw [List.length_cons, List.length_cons] at enough
      rw [List.flatMap_cons, List.append_assoc]
      by_cases half : IsHighHalf (codeOf character)
      · rw [readString_half half (more _), List.flatMap_cons, List.append_assoc,
          lowHalf?_written next (more _)]
        by_cases low : IsLowHalf (codeOf next)
        · rw [if_pos low]
          dsimp only
          rw [readString_characters text (fuel + 1) _ (by omega)]
          simp [joined, half, low]
        · rw [if_neg low, ← List.append_assoc, ← List.flatMap_cons]
          dsimp only
          rw [readString_characters (next :: text) (fuel + 1) _ (by rw [List.length_cons]; omega)]
          simp [joined, low]
      · rw [readString_character half (more _),
          readString_characters (next :: text) (fuel + 1) _ (by rw [List.length_cons]; omega)]
        simp [joined, half]

end

theorem writtenCharacter_ne_nil (character : List Char) : writtenCharacter character ≠ [] := by
  have form := written character
  generalize writtenCharacter character = text at form ⊢
  cases form with
  | literal | escape => exact List.cons_ne_nil _ _
  | units =>
      unfold unitEscapes
      split <;> exact List.cons_ne_nil _ _

theorem length_le_written (text : List (List Char)) :
    text.length ≤ (text.flatMap writtenCharacter).length := by
  induction text with
  | nil => exact Nat.zero_le _
  | cons character text ih =>
      have := List.length_pos_iff.mpr (writtenCharacter_ne_nil character)
      rw [List.flatMap_cons, List.length_append, List.length_cons]
      omega

theorem toList_writtenString (text : String) : (writtenString text).toList =
    '"' :: ((characters text.toList).flatMap writtenCharacter ++ ['"']) := by
  rw [writtenString, String.toList_ofList, List.cons_append]

/-- A string is read as it was written, spelt anew. -/
theorem readString_written (text : String) (tail : List Char) :
    let rest := (characters text.toList).flatMap writtenCharacter ++ '"' :: tail
    readString (rest.length + 1) (rest.length + 1) [] rest = .ok (respelt text, tail) := by
  intro rest
  refine readString_characters _ _ [] ?_
  have := length_le_written (characters text.toList)
  rw [List.length_append]
  omega

/-! ### Values without numbers -/

mutual

/-- No number is in a value. -/
def Lettered : Json → Prop
  | .null | .bool _ | .str _ => True
  | .int _ | .real _ => False
  | .arr items => LetteredItems items
  | .obj fields => LetteredFields fields

/-- No number is in some items. -/
def LetteredItems : List Json → Prop
  | [] => True
  | item :: rest => Lettered item ∧ LetteredItems rest

/-- No number is in some fields. -/
def LetteredFields : List (String × Json) → Prop
  | [] => True
  | (_, value) :: rest => Lettered value ∧ LetteredFields rest

end

mutual

/-- A value with all its strings spelt anew. -/
def respelt : Json → Json
  | .str text => .str (PrimeSearch.respelt text)
  | .arr items => .arr (respeltItems items)
  | .obj fields => .obj (respeltFields [] fields)
  | j => j

/-- Items with all their strings spelt anew. -/
def respeltItems : List Json → List Json
  | [] => []
  | item :: rest => respelt item :: respeltItems rest

/-- Fields with all their strings spelt anew, set one after another. -/
def respeltFields (done : List (String × Json)) : List (String × Json) → List (String × Json)
  | [] => done
  | (name, value) :: rest =>
      respeltFields (put (PrimeSearch.respelt name) (respelt value) done) rest

end

/-! ### The text of a value -/

section
variable (depth : Nat) (name : String) (item value : Json) (items : List Json)
  (fields : List (String × Json))

theorem toList_arr : (indentedAt depth (.arr (item :: items))).toList =
    '[' :: ((newLine (depth + 1)).toList ++ ((indentedAt (depth + 1) item).toList ++
      ((indentedItems (depth + 1) items).toList ++ ((newLine depth).toList ++ [']'])))) := by
  simp [indentedAt]

theorem toList_obj : (indentedAt depth (.obj ((name, value) :: fields))).toList =
    '\x7b' :: ((newLine (depth + 1)).toList ++ ((writtenString name).toList ++ ':' :: ' ' ::
      ((indentedAt (depth + 1) value).toList ++ ((indentedFields (depth + 1) fields).toList ++
        ((newLine depth).toList ++ ['\x7d']))))) := by
  simp [indentedAt]

theorem toList_indentedItems : (indentedItems depth (item :: items)).toList =
    ',' :: ((newLine depth).toList ++ ((indentedAt depth item).toList ++
      (indentedItems depth items).toList)) := by
  simp [indentedItems]

theorem toList_indentedFields : (indentedFields depth ((name, value) :: fields)).toList =
    ',' :: ((newLine depth).toList ++ ((writtenString name).toList ++ ':' :: ' ' ::
      ((indentedAt depth value).toList ++ (indentedFields depth fields).toList))) := by
  simp [indentedFields]

end

theorem skipBlanks_newLine (depth : Nat) (cs : List Char) :
    skipBlanks ((newLine depth).toList ++ cs) = skipBlanks cs := by
  have blanks (n : Nat) : skipBlanks (List.replicate n ' ' ++ cs) = skipBlanks cs := by
    induction n with
    | zero => rfl
    | succ n ih => rw [List.replicate_succ, List.cons_append, skipBlanks, if_pos (.inl rfl), ih]
  have text : (newLine depth).toList = '\n' :: List.replicate (2 * depth) ' ' := by simp [newLine]
  rw [text, List.cons_append, skipBlanks, if_pos (by decide)]
  exact blanks _

/-- A character that a value may begin with: no blank, no end of a list or an object, and no mark of the
byte order. -/
def Opens (c : Char) : Prop := c ∉ [' ', '\t', '\n', '\r', ']', '\x7d', '\ufeff']

instance : DecidablePred Opens := fun _ => inferInstanceAs (Decidable (¬_))

theorem Opens.skipBlanks {c : Char} (opens : Opens c) (cs : List Char) :
    Json.skipBlanks (c :: cs) = c :: cs := by
  rw [Json.skipBlanks, if_neg]
  rintro (rfl | rfl | rfl | rfl) <;> exact absurd opens (by decide)

/-- A value begins with a character that opens it. -/
theorem indentedAt_opens {j : Json} (lettered : Lettered j) (depth : Nat) :
    ∃ c cs, (indentedAt depth j).toList = c :: cs ∧ Opens c := by
  cases j with
  | null => exact ⟨'n', "ull".toList, by rw [indentedAt]; rfl, by decide⟩
  | bool b => cases b with
    | false => exact ⟨'f', "alse".toList, by rw [indentedAt]; rfl, by decide⟩
    | true => exact ⟨'t', "rue".toList, by rw [indentedAt]; rfl, by decide⟩
  | int | real => exact lettered.elim
  | str text => exact ⟨'"', _, by rw [indentedAt]; exact toList_writtenString text, by decide⟩
  | arr items => cases items with
    | nil => exact ⟨'[', [']'], by rw [indentedAt]; rfl, by decide⟩
    | cons item items => exact ⟨'[', _, toList_arr _ _ _, by decide⟩
  | obj fields => cases fields with
    | nil => exact ⟨'\x7b', ['\x7d'], by rw [indentedAt]; rfl, by decide⟩
    | cons field fields => exact ⟨'\x7b', _, toList_obj _ _ _ _, by decide⟩

/-! ### Reading values -/

/-- What the reader does after an item of a list. -/
def afterItem (fuel : Nat) (done : List Json) (cs : List Char) :
    Except Mistake (Json × List Char) :=
  match skipBlanks cs with
  | ']' :: rest => .ok (.arr done.reverse, rest)
  | ',' :: rest => readItems fuel done (skipBlanks rest)
  | rest => .error ⟨.comma, rest.length⟩

/-- What the reader does after a field of an object. -/
def afterField (fuel : Nat) (done : List (String × Json)) (cs : List Char) :
    Except Mistake (Json × List Char) :=
  match skipBlanks cs with
  | '\x7d' :: rest => .ok (.obj done, rest)
  | ',' :: rest => readFields fuel done (skipBlanks rest)
  | rest => .error ⟨.comma, rest.length⟩

section
variable {fuel depth : Nat} {cs tail : List Char} {item value : Json} {name : String}

theorem readItems_of_value {done : List Json} (read : readValue fuel cs = .ok (value, tail)) :
    readItems (fuel + 1) done cs = afterItem fuel (value :: done) tail := by
  rw [readItems, read]
  rfl

theorem readFields_of_value {n : String} {d : List (String × Json)}
    (read : readValue fuel (skipBlanks cs) = .ok (value, tail)) :
    readFields (fuel + 1) d ((writtenString n).toList ++ ':' :: cs) =
      afterField fuel (put (PrimeSearch.respelt n) value d) tail := by
  have colon : skipBlanks (':' :: cs) = ':' :: cs := Opens.skipBlanks (by decide) cs
  rw [toList_writtenString, List.cons_append, List.append_assoc, readFields]
  rw [List.singleton_append, readString_written n (':' :: cs)]
  simp only [bind, Except.bind, colon, read]
  rfl

theorem afterItem_close (fuel depth : Nat) (done : List Json) (tail : List Char) :
    afterItem fuel done ((newLine depth).toList ++ ']' :: tail) = .ok (.arr done.reverse, tail) := by
  have close : skipBlanks (']' :: tail) = ']' :: tail := if_neg (by decide)
  simp only [afterItem, skipBlanks_newLine, close]

theorem afterItem_comma (fuel depth : Nat) (done : List Json) (still : skipBlanks cs = cs) :
    afterItem fuel done (',' :: ((newLine depth).toList ++ cs)) = readItems fuel done cs := by
  have comma (cs : List Char) : skipBlanks (',' :: cs) = ',' :: cs := Opens.skipBlanks (by decide) cs
  simp only [afterItem, comma, skipBlanks_newLine, still]

theorem afterField_close (fuel depth : Nat) (done : List (String × Json)) (tail : List Char) :
    afterField fuel done ((newLine depth).toList ++ '\x7d' :: tail) = .ok (.obj done, tail) := by
  have close : skipBlanks ('\x7d' :: tail) = '\x7d' :: tail := if_neg (by decide)
  simp only [afterField, skipBlanks_newLine, close]

theorem afterField_comma (fuel depth : Nat) (done : List (String × Json))
    (still : skipBlanks cs = cs) :
    afterField fuel done (',' :: ((newLine depth).toList ++ cs)) = readFields fuel done cs := by
  have comma (cs : List Char) : skipBlanks (',' :: cs) = ',' :: cs := Opens.skipBlanks (by decide) cs
  simp only [afterField, comma, skipBlanks_newLine, still]

/-- What begins a list or an object is not yet its end. -/
theorem readValue_open_items (fuel depth : Nat) {c : Char} (opens : Opens c) (cs : List Char) :
    readValue (fuel + 1) ('[' :: ((newLine depth).toList ++ c :: cs)) =
      readItems fuel [] (c :: cs) := by
  have other : c ≠ ']' := by
    rintro rfl
    exact absurd opens (by decide)
  rw [readValue, skipBlanks_newLine, opens.skipBlanks]
  split
  next same => exact absurd (List.cons.inj same).1 other
  next => rfl

theorem readValue_open_fields (fuel depth : Nat) {c : Char} (opens : Opens c) (cs : List Char) :
    readValue (fuel + 1) ('\x7b' :: ((newLine depth).toList ++ c :: cs)) =
      readFields fuel [] (c :: cs) := by
  have other : c ≠ '\x7d' := by
    rintro rfl
    exact absurd opens (by decide)
  rw [readValue, skipBlanks_newLine, opens.skipBlanks]
  split
  next same => exact absurd (List.cons.inj same).1 other
  next => rfl

end

theorem length_indentedAt_pos {j : Json} (lettered : Lettered j) (depth : Nat) :
    0 < (indentedAt depth j).toList.length := by
  obtain ⟨c, cs, text, -⟩ := indentedAt_opens lettered depth
  rw [text]
  exact Nat.succ_pos _

theorem skipBlanks_indentedAt {j : Json} (lettered : Lettered j) (depth : Nat) (cs : List Char) :
    skipBlanks ((indentedAt depth j).toList ++ cs) = (indentedAt depth j).toList ++ cs := by
  obtain ⟨c, cs', text, opens⟩ := indentedAt_opens lettered depth
  rw [text, List.cons_append, opens.skipBlanks]

theorem skipBlanks_writtenString (text : String) (cs : List Char) :
    skipBlanks ((writtenString text).toList ++ cs) = (writtenString text).toList ++ cs := by
  rw [toList_writtenString, List.cons_append]
  exact Opens.skipBlanks (by decide) _

theorem skipBlanks_value {j : Json} (lettered : Lettered j) (depth : Nat) (cs : List Char) :
    skipBlanks (' ' :: ((indentedAt depth j).toList ++ cs)) = (indentedAt depth j).toList ++ cs :=
  skipBlanks_indentedAt lettered depth cs

/-! ### Case by case -/

/-- A value is read to its end as it was written. -/
def ReadsBack (j : Json) : Prop :=
  ∀ (depth fuel : Nat) (tail : List Char), Lettered j →
    2 * (indentedAt depth j).toList.length ≤ fuel →
      readValue fuel ((indentedAt depth j).toList ++ tail) = .ok (respelt j, tail)

/-- The items behind a first one are read to the end of the list. -/
def ItemsReadBack (items : List Json) : Prop :=
  ∀ (depth depth' fuel : Nat) (done : List Json) (tail : List Char), LetteredItems items →
    2 * (indentedItems depth items).toList.length ≤ fuel →
      afterItem fuel done ((indentedItems depth items).toList ++
        ((newLine depth').toList ++ ']' :: tail)) =
          .ok (.arr (done.reverse ++ respeltItems items), tail)

/-- The fields behind a first one are read to the end of the object. -/
def FieldsReadBack (fields : List (String × Json)) : Prop :=
  ∀ (depth depth' fuel : Nat) (done : List (String × Json)) (tail : List Char),
    LetteredFields fields → 2 * (indentedFields depth fields).toList.length ≤ fuel →
      afterField fuel done ((indentedFields depth fields).toList ++
        ((newLine depth').toList ++ '\x7d' :: tail)) = .ok (.obj (respeltFields done fields), tail)

section
variable {item value : Json} {items : List Json} {fields : List (String × Json)}

/-- A value without parts is read in one go. -/
theorem readsBack_simple {j : Json} (simple : ∀ depth fuel tail,
    readValue (fuel + 1) ((indentedAt depth j).toList ++ tail) = .ok (respelt j, tail)) :
    ReadsBack j := by
  intro depth fuel tail lettered enough
  have := length_indentedAt_pos lettered depth
  obtain ⟨fuel, rfl⟩ : ∃ n, fuel = n + 1 := ⟨fuel - 1, by omega⟩
  exact simple depth fuel tail

theorem readsBack_str (text : String) : ReadsBack (.str text) := by
  refine readsBack_simple fun depth fuel tail => ?_
  rw [indentedAt, toList_writtenString, List.cons_append, List.append_assoc, readValue,
    List.singleton_append, readString_written text tail]
  rfl

theorem readsBack_arr (first : ReadsBack item) (others : ItemsReadBack items) :
    ReadsBack (.arr (item :: items)) := by
  intro depth fuel tail lettered enough
  rw [toList_arr] at enough ⊢
  simp only [List.cons_append, List.append_assoc, List.nil_append, List.length_cons,
    List.length_append] at enough ⊢
  obtain ⟨fuel, rfl⟩ : ∃ n, fuel = n + 2 := ⟨fuel - 2, by omega⟩
  have read := first (depth + 1) fuel
    ((indentedItems (depth + 1) items).toList ++ ((newLine depth).toList ++ ']' :: tail)) lettered.1
    (by omega)
  obtain ⟨c, cs, text, opens⟩ := indentedAt_opens lettered.1 (depth + 1)
  rw [text, List.cons_append] at read ⊢
  rw [readValue_open_items (fuel + 1) _ opens, readItems_of_value read,
    others (depth + 1) depth fuel _ tail lettered.2 (by omega)]
  rfl

theorem readsBack_obj (name : String) (first : ReadsBack value) (others : FieldsReadBack fields) :
    ReadsBack (.obj ((name, value) :: fields)) := by
  intro depth fuel tail lettered enough
  rw [toList_obj] at enough ⊢
  simp only [List.cons_append, List.append_assoc, List.nil_append, List.length_cons,
    List.length_append] at enough ⊢
  obtain ⟨fuel, rfl⟩ : ∃ n, fuel = n + 2 := ⟨fuel - 2, by omega⟩
  have read := first (depth + 1) fuel
    ((indentedFields (depth + 1) fields).toList ++ ((newLine depth).toList ++ '\x7d' :: tail))
    lettered.1 (by omega)
  rw [← skipBlanks_value lettered.1] at read
  have next := readFields_of_value (n := name) (d := []) read
  rw [toList_writtenString, List.cons_append] at next ⊢
  rw [readValue_open_fields (fuel + 1) _ (by decide), next,
    others (depth + 1) depth fuel _ tail lettered.2 (by omega)]
  rfl

theorem itemsReadBack_nil : ItemsReadBack [] := by
  intro depth depth' fuel done tail _ _
  rw [respeltItems, List.append_nil]
  exact afterItem_close fuel depth' done tail

theorem itemsReadBack_cons (first : ReadsBack item) (others : ItemsReadBack items) :
    ItemsReadBack (item :: items) := by
  intro depth depth' fuel done tail lettered enough
  rw [toList_indentedItems] at enough ⊢
  simp only [List.cons_append, List.append_assoc, List.length_cons, List.length_append] at enough ⊢
  obtain ⟨fuel, rfl⟩ : ∃ n, fuel = n + 1 := ⟨fuel - 1, by omega⟩
  rw [afterItem_comma _ _ _ (skipBlanks_indentedAt lettered.1 depth _),
    readItems_of_value (first depth fuel _ lettered.1 (by omega)),
    others depth depth' fuel _ tail lettered.2 (by omega), respeltItems]
  simp only [List.reverse_cons, List.append_assoc, List.singleton_append]

theorem fieldsReadBack_nil : FieldsReadBack [] := fun _ depth' fuel done tail _ _ =>
  afterField_close fuel depth' done tail

theorem fieldsReadBack_cons (name : String) (first : ReadsBack value)
    (others : FieldsReadBack fields) : FieldsReadBack ((name, value) :: fields) := by
  intro depth depth' fuel done tail lettered enough
  rw [toList_indentedFields] at enough ⊢
  simp only [List.cons_append, List.append_assoc, List.length_cons, List.length_append] at enough ⊢
  obtain ⟨fuel, rfl⟩ : ∃ n, fuel = n + 1 := ⟨fuel - 1, by omega⟩
  have read := first depth fuel
    ((indentedFields depth fields).toList ++ ((newLine depth').toList ++ '\x7d' :: tail)) lettered.1
    (by omega)
  rw [← skipBlanks_value lettered.1] at read
  rw [afterField_comma _ _ _ (skipBlanks_writtenString name _), readFields_of_value read,
    others depth depth' fuel _ tail lettered.2 (by omega), respeltFields]

end

mutual

theorem readsBack : ∀ j : Json, ReadsBack j
  | .null => readsBack_simple fun _ _ _ => by rw [indentedAt]; rfl
  | .bool true => readsBack_simple fun _ _ _ => by rw [indentedAt]; rfl
  | .bool false => readsBack_simple fun _ _ _ => by rw [indentedAt]; rfl
  | .int _ => fun _ _ _ lettered => lettered.elim
  | .real _ => fun _ _ _ lettered => lettered.elim
  | .str text => readsBack_str text
  | .arr [] => readsBack_simple fun _ _ _ => by rw [indentedAt]; rfl
  | .arr (item :: items) => readsBack_arr (readsBack item) (itemsReadBack items)
  | .obj [] => readsBack_simple fun _ _ _ => by rw [indentedAt]; rfl
  | .obj ((name, value) :: fields) => readsBack_obj name (readsBack value) (fieldsReadBack fields)

theorem itemsReadBack : ∀ items : List Json, ItemsReadBack items
  | [] => itemsReadBack_nil
  | item :: items => itemsReadBack_cons (readsBack item) (itemsReadBack items)

theorem fieldsReadBack : ∀ fields : List (String × Json), FieldsReadBack fields
  | [] => fieldsReadBack_nil
  | (name, value) :: fields => fieldsReadBack_cons name (readsBack value) (fieldsReadBack fields)

end

/-! ### Files -/

theorem return_not_mem_hexDigits {n : Nat} (small : n < 0x10000) : '\r' ∉ hexDigits 4 n := by
  have other : ∀ d < 16, '\r' ≠ Nat.digitChar d := by decide
  rw [hexDigits_four small]
  simp only [List.mem_cons, List.not_mem_nil, or_false, not_or]
  exact ⟨other _ (by omega), other _ (by omega), other _ (by omega), other _ (by omega)⟩

/-- No carriage return is written as such. -/
theorem return_not_mem_writtenCharacter (character : List Char) :
    '\r' ∉ writtenCharacter character := by
  have form := written character
  generalize writtenCharacter character = text at form ⊢
  cases form with
  | literal same literal =>
      rw [List.mem_singleton]
      rintro rfl
      exact absurd literal.visible (by decide)
  | escape same escape =>
      intro member
      rcases List.mem_cons.mp member with slash | last
      · exact absurd slash (by decide)
      · rw [← List.mem_singleton.mp last] at escape
        exact nomatch escape.read
  | units =>
      have mark : '\r' ∉ ['\\', 'u'] := by decide
      rcases unitEscapes_cases (codeOf character) (codeOf_lt _) with
        ⟨small, text⟩ | ⟨high, low, half, half', -, -, text⟩
      · rw [text]
        exact List.not_mem_append mark (return_not_mem_hexDigits small)
      · have small : high < 0x10000 := Nat.lt_of_le_of_lt half.2 (by decide)
        have small' : low < 0x10000 := Nat.lt_of_le_of_lt half'.2 (by decide)
        rw [text]
        exact List.not_mem_append mark (List.not_mem_append (return_not_mem_hexDigits small)
          (List.not_mem_append mark (return_not_mem_hexDigits small')))

theorem return_not_mem_writtenString (text : String) : '\r' ∉ (writtenString text).toList := by
  have inside : '\r' ∉ (characters text.toList).flatMap writtenCharacter := by
    rw [List.mem_flatMap]
    rintro ⟨character, -, member⟩
    exact return_not_mem_writtenCharacter character member
  simp [toList_writtenString, inside]

mutual

theorem return_not_mem_indentedAt : ∀ (j : Json) (depth : Nat), Lettered j →
    '\r' ∉ (indentedAt depth j).toList
  | .null, _, _ | .bool true, _, _ | .bool false, _, _ | .arr [], _, _ | .obj [], _, _ => by
      simp [indentedAt]
  | .int _, _, lettered | .real _, _, lettered => lettered.elim
  | .str text, _, _ => by
      rw [indentedAt]
      exact return_not_mem_writtenString text
  | .arr (item :: items), depth, lettered => by
      have first := return_not_mem_indentedAt item (depth + 1) lettered.1
      have others := return_not_mem_indentedItems items (depth + 1) lettered.2
      simp [toList_arr, newLine, first, others]
  | .obj ((name, value) :: fields), depth, lettered => by
      have first := return_not_mem_indentedAt value (depth + 1) lettered.1
      have others := return_not_mem_indentedFields fields (depth + 1) lettered.2
      simp [toList_obj, newLine, return_not_mem_writtenString, first, others]

theorem return_not_mem_indentedItems : ∀ (items : List Json) (depth : Nat), LetteredItems items →
    '\r' ∉ (indentedItems depth items).toList
  | [], _, _ => by simp [indentedItems]
  | item :: items, depth, lettered => by
      have first := return_not_mem_indentedAt item depth lettered.1
      have others := return_not_mem_indentedItems items depth lettered.2
      simp [toList_indentedItems, newLine, first, others]

theorem return_not_mem_indentedFields : ∀ (fields : List (String × Json)) (depth : Nat),
    LetteredFields fields → '\r' ∉ (indentedFields depth fields).toList
  | [], _, _ => by simp [indentedFields]
  | (name, value) :: fields, depth, lettered => by
      have first := return_not_mem_indentedAt value depth lettered.1
      have others := return_not_mem_indentedFields fields depth lettered.2
      simp [toList_indentedFields, newLine, return_not_mem_writtenString, first, others]

end

theorem unifyBreaks_of_not_mem {cs : List Char} (absent : '\r' ∉ cs) : unifyBreaks cs = cs := by
  induction cs with
  | nil => rfl
  | cons c cs ih =>
      have other : c ≠ '\r' := by
        rintro rfl
        exact absent List.mem_cons_self
      have whole : unifyBreaks (c :: cs) = (if c = '\r' then '\n' else c) :: unifyBreaks cs := by
        rw [unifyBreaks]
        exact fun _ same => absurd same other
      rw [whole, if_neg other, ih fun member => absent (List.mem_cons_of_mem c member)]

variable {j : Json}

/-- A text that was written is read as its value, spelt anew. -/
theorem read_indented (lettered : Lettered j) : read j.indented = .ok j.respelt := by
  have whole := readsBack j 0 (2 * (indentedAt 0 j).toList.length + 2) [] lettered (by omega)
  have still := skipBlanks_indentedAt lettered 0 []
  rw [List.append_nil] at whole still
  obtain ⟨c, cs, text, opens⟩ := indentedAt_opens lettered 0
  have noMark : c ≠ '\ufeff' := by
    rintro rfl
    exact absurd opens (by decide)
  unfold read indented
  rw [text] at whole still ⊢
  dsimp only
  split
  next mark => exact absurd (List.cons.inj mark).1 noMark
  next => rw [still, whole]; rfl

/-- A file that was written is read as its value, spelt anew. -/
theorem readFile_indented (lettered : Lettered j) : readFile j.indented = .ok j.respelt := by
  have whole : unifyBreaks j.indented.toList = j.indented.toList :=
    unifyBreaks_of_not_mem (return_not_mem_indentedAt j 0 lettered)
  rw [readFile, whole, String.ofList_toList]
  exact read_indented lettered

end Json

end PrimeSearch
