/-
Module: PrimeSearch.Proofs.Expr.Scanning
Purpose: How a text is cut into lexemes: whatever stands first is cut off, and what follows is
  cut in the same way.
Main exports: Token.pieces, pieces_cons, IsNumber, spanNumber_append, pieces_number, pieces_word,
  pieces_symbol, pieces_blank
-/
import PrimeSearch.Expr.Token
import PrimeSearch.Proofs.Number.Literal

namespace PrimeSearch

namespace Token

/-! ### One lexeme after the other -/

theorem span_join (inside : Char → Bool) (cs : List Char) :
    (cs.span inside).1 ++ (cs.span inside).2 = cs := by
  rw [List.span_eq_takeWhile_dropWhile]
  exact List.takeWhile_append_dropWhile

theorem spanMantissa_join (cs : List Char) : (spanMantissa cs).1 ++ (spanMantissa cs).2 = cs := by
  have run := span_join isDigit cs
  unfold spanMantissa
  split
  next tail front =>
    have after := span_join isDigit tail
    rw [front] at run
    split
    next => rfl
    next ds rest _ fraction =>
      rw [fraction] at after
      simpa [after] using run
  next => rfl
  next whole tail _ front =>
    have after := span_join isDigit tail
    rw [front] at run
    simpa [after] using run
  next whole rest _ _ front =>
    rw [front] at run
    exact run

theorem spanPower_join (cs : List Char) : (spanPower cs).1 ++ (spanPower cs).2 = cs := by
  unfold spanPower
  split
  next marker rest =>
    split
    next =>
      dsimp only
      split
      next => rfl
      next ds tail _ run =>
        have join := congrArg (fun cut : List Char × List Char => cut.1 ++ cut.2) run
        rw [span_join] at join
        split at join
        all_goals simp_all
    next => rfl
  next => rfl

theorem spanNumber_join (cs : List Char) : (spanNumber cs).1 ++ (spanNumber cs).2 = cs := by
  have mantissa := spanMantissa_join cs
  unfold spanNumber
  split
  next => rfl
  next digits rest _ front =>
    have power := spanPower_join rest
    rw [front] at mantissa
    simpa [power] using mantissa

theorem lexeme_join (c : Char) (rest : List Char) :
    (lexeme c rest).1 ++ (lexeme c rest).2 = c :: rest := by
  have number := spanNumber_join (c :: rest)
  unfold lexeme
  split
  next =>
    split
    next => simp
    next =>
      split
      next => simp
      next =>
        unfold firstCharacter
        split
        next => rfl
        next => split <;> rfl
  next front => rwa [front] at number

theorem lexeme_ne_nil (c : Char) (rest : List Char) : (lexeme c rest).1 ≠ [] := by
  unfold lexeme
  split
  next =>
    split
    next => simp
    next =>
      split
      next => simp
      next =>
        unfold firstCharacter
        split
        next => simp
        next => split <;> simp
  next _ _ nonempty _ => exact nonempty

/-- The rest after a lexeme is no longer than what followed the first character. -/
theorem length_lexeme (c : Char) (rest : List Char) :
    (lexeme c rest).2.length ≤ rest.length := by
  have lengths := congrArg List.length (lexeme_join c rest)
  rw [List.length_append, List.length_cons] at lengths
  have := List.length_pos_iff.mpr (lexeme_ne_nil c rest)
  omega

/-- Fuel for all characters is enough, and more changes nothing. -/
theorem lexemes_of_le {cs : List Char} {one two : Nat} (enough : cs.length ≤ one)
    (alsoEnough : cs.length ≤ two) : lexemes one cs = lexemes two cs := by
  induction one generalizing cs two with
  | zero =>
      obtain rfl : cs = [] := List.length_eq_zero_iff.mp (Nat.le_zero.mp enough)
      cases two <;> rfl
  | succ one ih =>
      cases cs with
      | nil => cases two <;> rfl
      | cons c rest =>
          cases two with
          | zero => cases alsoEnough
          | succ two =>
              have shorter := length_lexeme c rest
              simp only [List.length_cons] at enough alsoEnough
              simp only [lexemes]
              rw [@ih _ two (by omega) (by omega)]

/-- The pieces that a text is cut into. -/
def pieces (cs : List Char) : List Piece := (lexemes cs.length cs).filterMap pieceOf?

@[simp] theorem pieces_nil : pieces [] = [] := rfl

/-- The first lexeme gives the first piece, and the rest is cut in the same way. -/
theorem pieces_cons (c : Char) (rest : List Char) :
    pieces (c :: rest) = (pieceOf? (lexeme c rest).1).toList ++ pieces (lexeme c rest).2 := by
  have shorter := length_lexeme c rest
  simp only [pieces, List.length_cons, lexemes]
  rw [lexemes_of_le shorter (le_refl _)]
  cases h : pieceOf? (lexeme c rest).1 <;> simp [h]

/-! ### Kinds of lexemes -/

/-- A text that starts with neither a digit nor a point has no number at its front. -/
theorem spanNumber_of_not_digit {c : Char} (rest : List Char) (notDigit : isDigit c = false)
    (notPoint : c ≠ '.') : spanNumber (c :: rest) = ([], c :: rest) := by
  have run : (c :: rest).span isDigit = ([], c :: rest) :=
    span_of_stops fun d member => by
      cases member
      exact notDigit
  have mantissa : spanMantissa (c :: rest) = ([], c :: rest) := by
    unfold spanMantissa
    rw [run]
    split
    next tail front =>
      cases front
      exact absurd rfl notPoint
    next => rfl
    next whole tail _ front =>
      cases front
      exact absurd rfl notPoint
    next front =>
      cases front
      rfl
  unfold spanNumber
  rw [mantissa]

/-! ### Numbers

A number is digits of any script, of which a point may stand anywhere but alone, and perhaps a power of
ten.  What is cut off at the front of a text is the whole number that stands there, because no part of
it goes on with a character that ends the part.
-/

/-- Every character is a decimal digit. -/
def AllDigits (cs : List Char) : Prop := ∀ c ∈ cs, isDigit c = true

/-- The digits of a number, with at most one point. -/
inductive IsMantissa : List Char → Prop where
  | whole {ds : List Char} (nonempty : ds ≠ []) (digits : AllDigits ds) : IsMantissa ds
  | pointed {ds fs : List Char} (nonempty : ds ≠ []) (digits : AllDigits ds)
      (more : AllDigits fs) : IsMantissa (ds ++ '.' :: fs)
  | fraction {fs : List Char} (nonempty : fs ≠ []) (digits : AllDigits fs) :
      IsMantissa ('.' :: fs)

/-- A power of ten, or nothing. -/
inductive IsPower : List Char → Prop where
  | absent : IsPower []
  | present {marker : Char} {sign ds : List Char} (marked : marker = 'e' ∨ marker = 'E')
      (signed : sign = [] ∨ sign = ['+'] ∨ sign = ['-']) (nonempty : ds ≠ [])
      (digits : AllDigits ds) : IsPower (marker :: sign ++ ds)

/-- A whole number token: a mantissa and perhaps a power of ten. -/
def IsNumber (cs : List Char) : Prop :=
  ∃ mantissa power, IsMantissa mantissa ∧ IsPower power ∧ cs = mantissa ++ power

theorem isDigit_point : isDigit '.' = false := by decide

theorem IsMantissa.ne_nil {cs : List Char} (mantissa : IsMantissa cs) : cs ≠ [] := by
  cases mantissa with
  | whole nonempty _ => exact nonempty
  | pointed nonempty _ _ => simp
  | fraction _ _ => simp

/-- After a mantissa comes its power, or what follows the number: neither a digit nor a point. -/
theorem IsPower.head {power rest : List Char} (proper : IsPower power) (ends : Literal.Ends rest) :
    ∀ c ∈ (power ++ rest).head?, isDigit c = false ∧ c ≠ '.' := by
  cases proper with
  | absent => exact fun c member => ⟨(ends c member).1, (ends c member).2.1⟩
  | present marked _ _ _ =>
      intro c member
      cases member
      rcases marked with rfl | rfl <;> decide

/-- The mantissa at the front of a text is cut off. -/
theorem spanMantissa_append {mantissa tail : List Char} (proper : IsMantissa mantissa)
    (ends : ∀ c ∈ tail.head?, isDigit c = false ∧ c ≠ '.') :
    spanMantissa (mantissa ++ tail) = (mantissa, tail) := by
  have stops : Stops isDigit tail := fun c member => (ends c member).1
  have atPoint (fs : List Char) : Stops isDigit ('.' :: fs) := by
    intro c member
    cases member
    exact isDigit_point
  unfold spanMantissa
  cases proper with
  | whole nonempty digits =>
      rw [span_append digits stops]
      split
      next front => exact absurd (Prod.mk.inj front).1 nonempty
      next front => exact absurd (Prod.mk.inj front).1 nonempty
      next after _ front =>
        have point := (Prod.mk.inj front).2
        exact absurd rfl (ends '.' (by rw [point]; rfl)).2
      next front =>
        cases front
        rfl
  | @pointed ds fs nonempty digits more =>
      have run : (ds ++ '.' :: fs ++ tail).span isDigit = (ds, '.' :: (fs ++ tail)) := by
        rw [List.append_assoc]
        exact span_append digits (atPoint _)
      obtain ⟨d, after, rfl⟩ := List.exists_cons_of_ne_nil nonempty
      rw [run]
      simp only [span_append more stops]
  | @fraction fs nonempty digits =>
      obtain ⟨f, after, rfl⟩ := List.exists_cons_of_ne_nil nonempty
      rw [List.cons_append, span_of_stops (atPoint _)]
      simp only [span_append digits stops]

/-- The power of ten at the front of a text is cut off. -/
theorem spanPower_append {power rest : List Char} (proper : IsPower power)
    (ends : Literal.Ends rest) : spanPower (power ++ rest) = (power, rest) := by
  cases proper with
  | absent =>
      cases rest with
      | nil => rfl
      | cons c tail =>
          obtain ⟨-, -, notLower, notUpper⟩ := ends c rfl
          simp [spanPower, notLower, notUpper]
  | @present marker sign ds marked signed nonempty digits =>
      have run : (ds ++ rest).span isDigit = (ds, rest) :=
        span_append digits (Literal.stops_of_ends ends)
      obtain ⟨d, tail, rfl⟩ := List.exists_cons_of_ne_nil nonempty
      have noSign (c : Char) (sign : isDigit c = false) : d ≠ c := by
        rintro rfl
        rw [digits d List.mem_cons_self] at sign
        cases sign
      rw [List.cons_append] at run
      unfold spanPower
      rw [List.cons_append, List.cons_append]
      dsimp only
      rw [if_pos marked]
      rcases signed with rfl | rfl | rfl
      · simp [-List.span_eq_takeWhile_dropWhile, noSign '-' (by decide), noSign '+' (by decide), run]
      · simp only [List.cons_append, List.nil_append, run]
      · simp only [List.cons_append, List.nil_append, run]

/-- A number at the front of a text is cut off as one lexeme. -/
theorem spanNumber_append {cs rest : List Char} (number : IsNumber cs)
    (ends : Literal.Ends rest) : spanNumber (cs ++ rest) = (cs, rest) := by
  obtain ⟨mantissa, power, isMantissa, isPower, rfl⟩ := number
  have cut := spanMantissa_append isMantissa (isPower.head ends)
  unfold spanNumber
  rw [List.append_assoc, cut]
  split
  next front => exact absurd (Prod.mk.inj front).1 isMantissa.ne_nil
  next digits after _ front =>
    cases front
    rw [spanPower_append isPower ends]

/-- Written numbers are numbers. -/
theorem isNumber_literal (l : Literal) : IsNumber l.chars := by
  refine ⟨l.whole ++ Literal.fractionChars l.fraction, Literal.powerChars l.power, ?_, ?_, ?_⟩
  · rcases fraction : l.fraction with _ | ds
    · rw [Literal.fractionChars, List.append_nil]
      exact .whole l.whole_ne_nil l.whole_digits.isDigit
    · exact .pointed l.whole_ne_nil l.whole_digits.isDigit (l.fraction_digits ds fraction).isDigit
  · rcases power : l.power with _ | ⟨negative, ds⟩
    · exact .absent
    · obtain ⟨nonempty, digits⟩ := l.power_digits _ power
      cases negative with
      | false => exact @IsPower.present _ ['+'] _ (.inl rfl) (.inr (.inl rfl)) nonempty digits.isDigit
      | true => exact @IsPower.present _ ['-'] _ (.inl rfl) (.inr (.inr rfl)) nonempty digits.isDigit
  · rw [Literal.chars, List.append_assoc]

/-- A number starts with a digit, or with a point that does not stand alone. -/
theorem IsNumber.start {cs : List Char} (number : IsNumber cs) :
    ∃ c rest, cs = c :: rest ∧ (isDigit c = true ∨ c = '.' ∧ rest ≠ []) := by
  obtain ⟨mantissa, power, isMantissa, -, rfl⟩ := number
  cases isMantissa with
  | whole nonempty digits =>
      obtain ⟨d, ds, rfl⟩ := List.exists_cons_of_ne_nil nonempty
      exact ⟨d, ds ++ power, rfl, .inl (digits d List.mem_cons_self)⟩
  | pointed nonempty digits _ =>
      obtain ⟨d, ds, rfl⟩ := List.exists_cons_of_ne_nil nonempty
      exact ⟨d, _, rfl, .inl (digits d List.mem_cons_self)⟩
  | fraction nonempty _ =>
      refine ⟨'.', _, rfl, .inr ⟨rfl, ?_⟩⟩
      simp [nonempty]

/-- A number is the token of its characters. -/
theorem pieceOf?_number {cs : List Char} (number : IsNumber cs) :
    pieceOf? cs = some (.token (.number (String.ofList cs))) := by
  obtain ⟨c, rest, rfl, start⟩ := number.start
  unfold pieceOf?
  apply if_pos
  rcases start with digit | ⟨rfl, more⟩
  · rw [digit, Bool.true_or]
  · simp [more]

/-- A number at the front of a text is a token. -/
theorem pieces_number {cs rest : List Char} (number : IsNumber cs) (ends : Literal.Ends rest) :
    pieces (cs ++ rest) = .token (.number (String.ofList cs)) :: pieces rest := by
  obtain ⟨c, tail, rfl, -⟩ := number.start
  have cut : lexeme c (tail ++ rest) = (c :: tail, rest) := by
    unfold lexeme
    rw [← List.cons_append, spanNumber_append number ends]
  rw [List.cons_append, pieces_cons, cut, pieceOf?_number number]
  rfl

/-- A word: a name that is not taken for a number or a blank. -/
def isWord : List Char → Bool
  | [] => false
  | c :: cs => startsName c && !isDigit c && c != '.' && !isBlank c && cs.all isName

theorem isBlank_of_isWord {word : List Char} (proper : isWord word = true) :
    ∀ c ∈ word.head?, isBlank c = false := by
  cases word with
  | nil => cases proper
  | cons c cs =>
      intro d member
      cases member
      simp only [isWord, Bool.and_eq_true, Bool.not_eq_true'] at proper
      exact proper.1.2

/-- A word that names a token is that token, unless it goes on. -/
theorem pieces_word {word rest : List Char} {t : Token} (proper : isWord word = true)
    (named : ofName? (String.ofList word) = some t) (stops : Stops isName rest) :
    pieces (word ++ rest) = .token t :: pieces rest := by
  cases word with
  | nil => cases proper
  | cons c cs =>
      simp only [isWord, Bool.and_eq_true, Bool.not_eq_true', bne_iff_ne, ne_eq, List.all_eq_true]
        at proper
      obtain ⟨⟨⟨⟨starts, notDigit⟩, notPoint⟩, -⟩, inside⟩ := proper
      have cut : lexeme c (cs ++ rest) = (c :: cs, rest) := by
        unfold lexeme
        rw [spanNumber_of_not_digit _ notDigit notPoint]
        simp only [starts, if_true]
        rw [span_append inside stops]
      have piece : pieceOf? (c :: cs) = some (.token t) := by
        simp only [pieceOf?, notDigit, notPoint, starts, named, Bool.false_or, Bool.and_eq_true,
          beq_iff_eq, false_and, if_false, if_true]
      rw [List.cons_append, pieces_cons, cut, piece]
      rfl

/-- A sign is a token. -/
theorem pieces_symbol {c : Char} {t : Token} (symbol : ofSymbol? c = some t) (rest : List Char) :
    pieces (c :: rest) = .token t :: pieces rest := by
  have plain : isDigit c = false ∧ c ≠ '.' ∧ startsName c = false ∧ isBlank c = false ∧
      (c == spellingMark) = false := by
    unfold ofSymbol? at symbol
    split at symbol <;> first | decide | cases symbol
  obtain ⟨notDigit, notPoint, notName, notBlank, notMark⟩ := plain
  have cut : lexeme c rest = ([c], rest) := by
    unfold lexeme
    rw [spanNumber_of_not_digit _ notDigit notPoint]
    simp only [notName, notBlank, Bool.false_eq_true, if_false]
    cases rest with
    | nil => rfl
    | cons d tail => simp [firstCharacter, spellOne, notMark]
  rw [pieces_cons, cut]
  simp [pieceOf?, notDigit, notName, notBlank, symbol]

/-- A blank before a text that does not start with one is nothing. -/
theorem pieces_blank {rest : List Char} (stops : Stops isBlank rest) :
    pieces (' ' :: rest) = pieces rest := by
  have cut : lexeme ' ' rest = ([' '], rest) := by
    unfold lexeme
    rw [spanNumber_of_not_digit _ (by decide) (by decide)]
    simp only [show startsName ' ' = false by decide, show isBlank ' ' = true by decide,
      Bool.false_eq_true, if_false, if_true]
    rw [span_of_stops stops]
  rw [pieces_cons, cut]
  rfl

end Token

end PrimeSearch
