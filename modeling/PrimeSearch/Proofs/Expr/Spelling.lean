/-
Module: PrimeSearch.Proofs.Expr.Spelling
Purpose: Cutting a text into tokens loses nothing but its blanks, and tokens that are written with
  blanks between them are read back.
Main exports: Token.Spells, Piece.Spells, Token.Kind, Token.lexeme_kind, Token.StandsFor, Token.parts,
  Token.pieces_intercalate, Token.scan_lossless
-/
import PrimeSearch.Proofs.Expr.RoundTrip

namespace PrimeSearch

namespace Token

/-!
A text is cut into numbers, names, runs of blanks and single characters.  Blanks are dropped, and every
other part is the spelling of one piece, which is a token or is unknown.  No part but a run of blanks
holds a blank, so what is left of a text without its blanks are the spellings of its pieces.  In the
other direction a spelling is cut off whole if a blank follows, because no blank goes on with a number
or a name.
-/

/-! ### Spellings -/

/-- How tokens are written.  The remainder operation has a sign beside its name. -/
inductive Spells : Token → List Char → Prop where
  | number {cs : List Char} (number : IsNumber cs) : Spells (.number (String.ofList cs)) cs
  | variable : Spells .variable ['n']
  | constant (c : NamedConstant) : Spells (.constant c) c.name.toList
  | function (op : UnaryOp) : Spells (.function op) op.name.toList
  | operator (op : BinaryOp) : Spells (.operator op) op.name.toList
  | remainder : Spells (.operator .mod) ['%']
  | openParen : Spells .openParen ['(']
  | closeParen : Spells .closeParen [')']

/-- How pieces are written: what is no token stands for itself. -/
def Piece.Spells : Piece → List Char → Prop
  | .token t, cs => t.Spells cs
  | .unknown text, cs => text.toList = cs

/-- The token of a piece. -/
def Piece.token? : Piece → Option Token
  | .token t => some t
  | .unknown _ => none

/-- The text of a piece that is no token. -/
def Piece.unknown? : Piece → Option String
  | .token _ => none
  | .unknown text => some text

theorem scan_eq (text : String) :
    scan text = ((pieces text.toList).filterMap Piece.token?,
      (pieces text.toList).filterMap Piece.unknown?) := by
  have tokens : (fun | .token t => some t | .unknown _ => none) = Piece.token? := by
    funext piece
    cases piece <;> rfl
  have unknown : (fun | .token _ => none | .unknown u => some u) = Piece.unknown? := by
    funext piece
    cases piece <;> rfl
  rw [← tokens, ← unknown]
  rfl

/-- A name of a token is one of its spellings. -/
theorem spells_of_ofName? {name : String} {t : Token} (named : ofName? name = some t) :
    t.Spells name.toList := by
  unfold ofName? at named
  split at named
  next isVariable =>
    cases named
    rw [isVariable]
    exact .variable
  split at named
  next c constant =>
    cases named
    have same : c.name = name :=
      of_decide_eq_true (List.find?_some (p := fun c : NamedConstant => decide (c.name = name)) constant)
    rw [← same]
    exact .constant c
  split at named
  next op function =>
    cases named
    have same : op.name = name :=
      of_decide_eq_true (List.find?_some (p := fun op : UnaryOp => decide (op.name = name)) function)
    rw [← same]
    exact .function op
  split at named
  next isMod =>
    cases named
    rw [isMod]
    exact .operator .mod
  next => cases named

/-- A sign of a token is one of its spellings. -/
theorem spells_of_ofSymbol? {c : Char} {t : Token} (symbol : ofSymbol? c = some t) :
    t.Spells [c] := by
  unfold ofSymbol? at symbol
  split at symbol
  next => cases symbol; exact .operator .add
  next => cases symbol; exact .operator .sub
  next => cases symbol; exact .operator .mul
  next => cases symbol; exact .operator .div
  next => cases symbol; exact .remainder
  next => cases symbol; exact .operator .pow
  next => cases symbol; exact .openParen
  next => cases symbol; exact .closeParen
  next => cases symbol

/-! ### Classes of characters -/

theorem startsName_iff {c : Char} : startsName c = true ↔
    (0x41 ≤ c.toNat ∧ c.toNat ≤ 0x5a ∨ 0x61 ≤ c.toNat ∧ c.toNat ≤ 0x7a) ∨ c = '_' := by
  have classes : startsName c = ((decide ('A'.val ≤ c.val ∧ c.val ≤ 'Z'.val) ||
      decide ('a'.val ≤ c.val) && decide (c.val ≤ 'z'.val)) || c == '_') := rfl
  rw [classes]
  simp only [Bool.or_eq_true, Bool.and_eq_true, decide_eq_true_eq, beq_iff_eq,
    UInt32.le_iff_toNat_le]
  rfl

theorem startsName_bounds {c : Char} (starts : startsName c = true) :
    0x41 ≤ c.toNat ∧ c.toNat ≤ 0x7a := by
  rcases startsName_iff.mp starts with letter | rfl
  · omega
  · decide

theorem isName_iff {c : Char} : isName c = true ↔ startsName c = true ∨ c.isDigit = true := by
  simp only [isName, startsName, Char.isAlphanum, Bool.or_eq_true]
  exact or_right_comm

theorem not_isBlank_of_ascii {c : Char} (above : 0x20 < c.toNat) (ascii : c.toNat < 0x80) :
    isBlank c = false := by
  simp only [isBlank, Bool.or_eq_false_iff, Bool.and_eq_false_iff, decide_eq_false_iff_not,
    beq_eq_false_iff_ne]
  omega

/-- No digit of any script is white space. -/
theorem not_isBlank_of_isDigit {c : Char} (digit : isDigit c = true) : isBlank c = false := by
  have apart : ∀ start ∈ digitZeros, ∀ offset < 10,
      isBlank (Char.ofNat (start + offset)) = false := by
    decide +kernel
  unfold isDigit digitValue? at digit
  split at digit
  next ascii =>
    split at digit
    next bounds =>
      exact not_isBlank_of_ascii (Nat.lt_of_lt_of_le (by decide) bounds.1) ascii
    next => cases digit
  next =>
    rw [Option.isSome_map, Array.find?_isSome] at digit
    obtain ⟨start, listed, found⟩ := digit
    simp only [Bool.and_eq_true, decide_eq_true_eq] at found
    have blank := apart start listed (c.toNat - start) (by omega)
    rwa [Nat.add_sub_cancel' found.1, Char.ofNat_toNat] at blank

theorem not_isBlank_of_isName {c : Char} (inside : isName c = true) : isBlank c = false := by
  rcases isName_iff.mp inside with starts | digit
  · obtain ⟨low, high⟩ := startsName_bounds starts
    exact not_isBlank_of_ascii (by omega) (by omega)
  · have digits : Digits [c] := by
      intro d member
      cases List.mem_singleton.mp member
      exact digit
    exact not_isBlank_of_isDigit (digits.isDigit c List.mem_cons_self)

theorem not_isDigit_of_startsName {c : Char} (starts : startsName c = true) :
    isDigit c = false := by
  obtain ⟨low, high⟩ := startsName_bounds starts
  have beyond : ¬('0' ≤ c ∧ c ≤ '9') := by
    intro bounds
    have top : c.toNat ≤ 0x39 := bounds.2
    omega
  unfold isDigit digitValue?
  rw [if_pos (by omega), if_neg beyond]
  rfl

/-- A half is spelt by a private character, and no private character is white space. -/
theorem not_isBlank_of_spellOne {c d : Char} (spelt : spellOne c d = true) :
    isBlank c = false ∧ isBlank d = false := by
  rw [spellOne, Bool.and_eq_true, Bool.or_eq_true, beq_iff_eq, beq_iff_eq] at spelt
  obtain ⟨rfl, rfl | surrogate⟩ := spelt
  · exact ⟨by decide, by decide⟩
  · refine ⟨by decide, ?_⟩
    rw [isSurrogate, Bool.and_eq_true, decide_eq_true_eq, decide_eq_true_eq] at surrogate
    simp only [isBlank, Bool.or_eq_false_iff, Bool.and_eq_false_iff, decide_eq_false_iff_not,
      beq_eq_false_iff_ne]
    omega

/-! ### Kinds of lexemes -/

/-- The parts that a text is cut into. -/
inductive Kind : List Char → Prop where
  | number {cs : List Char} (number : IsNumber cs) : Kind cs
  | name {c : Char} {cs : List Char} (starts : startsName c = true)
      (inside : ∀ d ∈ cs, isName d = true) : Kind (c :: cs)
  | blanks {c : Char} {cs : List Char} (notDigit : isDigit c = false) (notPoint : c ≠ '.')
      (notName : startsName c = false) (blank : ∀ d ∈ c :: cs, isBlank d = true) : Kind (c :: cs)
  | single {c : Char} (notDigit : isDigit c = false) (notName : startsName c = false)
      (notBlank : isBlank c = false) : Kind [c]
  | half {d : Char} (spelt : spellOne spellingMark d = true) : Kind [spellingMark, d]

theorem span_all {inside : Char → Bool} {cs front rest : List Char}
    (cut : cs.span inside = (front, rest)) : ∀ c ∈ front, inside c = true := by
  rw [List.span_eq_takeWhile_dropWhile] at cut
  obtain rfl := (Prod.mk.inj cut).1
  intro c member
  exact List.all_eq_true.mp (List.all_takeWhile) c member

/-- What is cut off as a mantissa is one.  Nothing is cut off only if no digit comes first. -/
theorem isMantissa_spanMantissa (cs : List Char) :
    IsMantissa (spanMantissa cs).1 ∨
      (spanMantissa cs).1 = [] ∧ ∀ c ∈ cs.head?, isDigit c = false := by
  have join := span_join isDigit cs
  unfold spanMantissa
  split
  next tail front =>
    rw [front] at join
    split
    next =>
      refine .inr ⟨rfl, ?_⟩
      rw [← join]
      intro c member
      cases member
      exact isDigit_point
    next fs rest nonempty fraction => exact .inl (.fraction nonempty (span_all fraction))
  next rest _ front =>
    refine .inr ⟨rfl, ?_⟩
    intro c member
    rw [Option.mem_def, List.head?_eq_some_iff] at member
    obtain ⟨tail, rfl⟩ := member
    rw [List.span_eq_takeWhile_dropWhile] at front
    by_contra digit
    rw [Bool.not_eq_false] at digit
    rw [List.takeWhile_cons_of_pos digit] at front
    cases (Prod.mk.inj front).1
  next whole tail nonempty front =>
    exact .inl (.pointed nonempty (span_all front) (span_all rfl))
  next whole rest nonempty _ front => exact .inl (.whole nonempty (span_all front))

/-- What is cut off as a power of ten is one, or nothing. -/
theorem isPower_spanPower (cs : List Char) : IsPower (spanPower cs).1 := by
  unfold spanPower
  split
  next marker rest =>
    split
    next marked =>
      dsimp only
      split
      next => exact .absent
      next ds tail nonempty run =>
        refine .present marked ?_ nonempty (span_all run)
        split
        next => exact .inr (.inr rfl)
        next => exact .inr (.inl rfl)
        next => exact .inl rfl
    next => exact .absent
  next => exact .absent

/-- What is cut off as a number is one.  Nothing is cut off only if no digit comes first. -/
theorem isNumber_spanNumber (cs : List Char) :
    IsNumber (spanNumber cs).1 ∨ (spanNumber cs).1 = [] ∧ ∀ c ∈ cs.head?, isDigit c = false := by
  have mantissa := isMantissa_spanMantissa cs
  unfold spanNumber
  split
  next front =>
    rw [front] at mantissa
    rcases mantissa with proper | none
    · exact absurd rfl proper.ne_nil
    · exact .inr none
  next digits rest nonempty front =>
    rw [front] at mantissa
    rcases mantissa with proper | none
    · exact .inl ⟨digits, (spanPower rest).1, proper, isPower_spanPower rest, rfl⟩
    · exact absurd none.1 nonempty

theorem Kind.ne_nil {cs : List Char} (kind : Kind cs) : cs ≠ [] := by
  cases kind with
  | number number =>
      obtain ⟨c, rest, rfl, -⟩ := number.start
      exact List.cons_ne_nil c rest
  | name _ _ => exact List.cons_ne_nil _ _
  | blanks _ _ _ _ => exact List.cons_ne_nil _ _
  | single _ _ _ => exact List.cons_ne_nil _ _
  | half _ => exact List.cons_ne_nil _ _

/-- What is cut off at the front of a text is of one of these kinds. -/
theorem lexeme_kind (c : Char) (rest : List Char) : Kind (lexeme c rest).1 := by
  have number := isNumber_spanNumber (c :: rest)
  unfold lexeme
  split
  next front =>
    rw [front] at number
    have notDigit : isDigit c = false := by
      rcases number with proper | none
      · obtain ⟨_, _, shape, -⟩ := proper.start
        cases shape
      · exact none.2 c rfl
    split
    next starts => exact .name starts (@span_all _ _ _ _ rfl)
    next notName =>
      rw [Bool.not_eq_true] at notName
      split
      next blank =>
        have notPoint : c ≠ '.' := by
          rintro rfl
          revert blank
          decide
        refine .blanks notDigit notPoint notName fun d member => ?_
        rcases List.mem_cons.mp member with rfl | inside
        · exact blank
        · exact @span_all _ _ _ _ rfl d inside
      next notBlank =>
        rw [Bool.not_eq_true] at notBlank
        unfold firstCharacter
        split
        next => exact .single notDigit notName notBlank
        next d tail =>
          split
          next spelt =>
            have isMark : c = spellingMark := by
              rw [spellOne, Bool.and_eq_true, beq_iff_eq] at spelt
              exact spelt.1
            subst isMark
            exact .half spelt
          next => exact .single notDigit notName notBlank
  next nonempty front =>
    rw [front] at number
    rcases number with proper | none
    · exact .number proper
    · exact absurd none.1 nonempty

/-! ### What the parts stand for -/

/-- A part is blank and stands for nothing, or it spells a piece and holds no blank. -/
inductive StandsFor : List Char → Option Piece → Prop where
  | nothing {cs : List Char} (blank : ∀ c ∈ cs, isBlank c = true) : StandsFor cs none
  | piece {p : Piece} {cs : List Char} (spelt : p.Spells cs)
      (solid : ∀ c ∈ cs, isBlank c = false) : StandsFor cs (some p)

theorem AllDigits.not_isBlank {ds : List Char} (digits : AllDigits ds) :
    ∀ c ∈ ds, isBlank c = false :=
  fun c member => not_isBlank_of_isDigit (digits c member)

theorem IsMantissa.not_isBlank {cs : List Char} (mantissa : IsMantissa cs) :
    ∀ c ∈ cs, isBlank c = false := by
  have point : isBlank '.' = false := by decide
  cases mantissa with
  | whole _ digits => exact digits.not_isBlank
  | pointed _ digits more =>
      exact List.forall_mem_append.mpr
        ⟨digits.not_isBlank, List.forall_mem_cons.mpr ⟨point, more.not_isBlank⟩⟩
  | fraction _ digits => exact List.forall_mem_cons.mpr ⟨point, digits.not_isBlank⟩

theorem IsPower.not_isBlank {cs : List Char} (power : IsPower cs) :
    ∀ c ∈ cs, isBlank c = false := by
  cases power with
  | absent => exact List.forall_mem_nil _
  | @present marker sign ds marked signed _ digits =>
      have marker : isBlank marker = false := by
        rcases marked with rfl | rfl <;> decide
      have sign : ∀ c ∈ sign, isBlank c = false := by
        rcases signed with rfl | rfl | rfl
        · exact List.forall_mem_nil _
        · exact List.forall_mem_singleton.mpr (by decide)
        · exact List.forall_mem_singleton.mpr (by decide)
      exact List.forall_mem_append.mpr
        ⟨List.forall_mem_cons.mpr ⟨marker, sign⟩, digits.not_isBlank⟩

theorem IsNumber.not_isBlank {cs : List Char} (number : IsNumber cs) :
    ∀ c ∈ cs, isBlank c = false := by
  obtain ⟨mantissa, power, isMantissa, isPower, rfl⟩ := number
  exact List.forall_mem_append.mpr ⟨isMantissa.not_isBlank, isPower.not_isBlank⟩

/-- Every part stands for what is made of it. -/
theorem Kind.standsFor {cs : List Char} (kind : Kind cs) : StandsFor cs (pieceOf? cs) := by
  cases kind with
  | number number =>
      rw [pieceOf?_number number]
      exact .piece (.number number) number.not_isBlank
  | @name c cs starts inside =>
      have solid : ∀ d ∈ c :: cs, isBlank d = false :=
        List.forall_mem_cons.mpr ⟨not_isBlank_of_isName (isName_iff.mpr (.inl starts)),
          fun d member => not_isBlank_of_isName (inside d member)⟩
      have notPoint : (c == '.') = false := by
        apply beq_false_of_ne
        rintro rfl
        cases starts
      simp only [pieceOf?, not_isDigit_of_startsName starts, notPoint, starts, Bool.false_and,
        Bool.or_false, Bool.false_eq_true, if_false, if_true]
      apply StandsFor.piece _ solid
      split
      next t named =>
        have spelt := spells_of_ofName? named
        rwa [String.toList_ofList] at spelt
      next => exact String.toList_ofList
  | @blanks c cs notDigit notPoint notName blank =>
      have blankFirst := blank c List.mem_cons_self
      simp only [pieceOf?, notDigit, beq_false_of_ne notPoint, notName, blankFirst, Bool.false_and,
        Bool.or_false, Bool.false_eq_true, if_false, if_true]
      exact .nothing blank
  | @single c notDigit notName notBlank =>
      simp only [pieceOf?, notDigit, notName, notBlank, List.length_singleton, bne_self_eq_false,
        Bool.and_false, Bool.or_false, Bool.false_eq_true, if_false]
      apply StandsFor.piece
      · split
        next t symbol => exact spells_of_ofSymbol? symbol
        next => exact String.toList_ofList
      · intro d member
        cases List.mem_singleton.mp member
        exact notBlank
  | @half d spelt =>
      obtain ⟨markSolid, halfSolid⟩ := not_isBlank_of_spellOne spelt
      have piece : pieceOf? [spellingMark, d] =
          some (.unknown (String.ofList [spellingMark, d])) := rfl
      rw [piece]
      refine .piece String.toList_ofList ?_
      simp [markSolid, halfSolid]

/-! ### The parts of a text -/

/-- The parts that a text is cut into, in order. -/
def parts (text : String) : List (List Char) := lexemes text.toList.length text.toList

theorem kind_of_mem_lexemes {cs part : List Char} {fuel : Nat} (member : part ∈ lexemes fuel cs) :
    Kind part := by
  induction fuel generalizing cs with
  | zero => cases cs <;> cases member
  | succ fuel ih =>
      cases cs with
      | nil => cases member
      | cons c rest =>
          rcases List.mem_cons.mp member with rfl | later
          · exact lexeme_kind c rest
          · exact ih later

/-- With fuel for all characters, the parts are the whole text. -/
theorem flatten_lexemes {cs : List Char} {fuel : Nat} (enough : cs.length ≤ fuel) :
    (lexemes fuel cs).flatten = cs := by
  induction fuel generalizing cs with
  | zero =>
      obtain rfl : cs = [] := List.length_eq_zero_iff.mp (Nat.le_zero.mp enough)
      rfl
  | succ fuel ih =>
      cases cs with
      | nil => rfl
      | cons c rest =>
          have shorter := length_lexeme c rest
          rw [List.length_cons] at enough
          rw [lexemes, List.flatten_cons, ih (by omega), lexeme_join]

/-- Without blanks, parts are the spellings of what they stand for. -/
theorem exists_spellings {texts : List (List Char)}
    (stand : ∀ part ∈ texts, StandsFor part (pieceOf? part)) :
    ∃ spellings, List.Forall₂ Piece.Spells (texts.filterMap pieceOf?) spellings ∧
      spellings.flatten = texts.flatten.filter fun c => !isBlank c := by
  induction texts with
  | nil => exact ⟨[], .nil, rfl⟩
  | cons part rest ih =>
      obtain ⟨first, others⟩ := List.forall_mem_cons.mp stand
      obtain ⟨spellings, spelt, joined⟩ := ih others
      rw [List.flatten_cons, List.filter_append, ← joined]
      generalize read : pieceOf? part = reading at first
      cases first with
      | nothing blank =>
          rw [List.filterMap_cons_none read]
          refine ⟨spellings, spelt, ?_⟩
          rw [List.filter_eq_nil_iff.mpr (by simpa using blank), List.nil_append]
      | piece here solid =>
          rw [List.filterMap_cons_some read]
          refine ⟨part :: spellings, .cons here spelt, ?_⟩
          rw [List.filter_eq_self.mpr (by simpa using solid), List.flatten_cons]

/-- If nothing is unknown, the pieces are the tokens. -/
theorem map_token_filterMap {ps : List Piece} (known : ps.filterMap Piece.unknown? = []) :
    (ps.filterMap Piece.token?).map .token = ps := by
  induction ps with
  | nil => rfl
  | cons p rest ih =>
      cases p with
      | token t => exact congrArg _ (ih known)
      | unknown text => cases known

theorem map_token_scan {text : String} (known : (scan text).2 = []) :
    (scan text).1.map .token = pieces text.toList := by
  rw [scan_eq] at known ⊢
  exact map_token_filterMap known

/-! ### Tokens with blanks between them -/

/-- A spelling is cut off as its token before a blank, before a closing parenthesis and at the end. -/
theorem Spells.splits {t : Token} {cs : List Char} (spelt : t.Spells cs) :
    Expr.SplitsInto (String.ofList cs) [t] := by
  have sign {c : Char} (symbol : ofSymbol? c = some t) (notBlank : isBlank c = false) :
      Expr.SplitsInto (String.ofList [c]) [t] := by
    intro rest _
    rw [String.toList_ofList]
    exact ⟨pieces_symbol symbol rest, Expr.stops_cons notBlank rest⟩
  cases spelt with
  | number number =>
      intro rest boundary
      rw [String.toList_ofList]
      refine ⟨pieces_number number boundary.ends, ?_⟩
      obtain ⟨c, tail, rfl, -⟩ := number.start
      exact Expr.stops_cons (number.not_isBlank c List.mem_cons_self) _
  | «variable» => exact Expr.splits_name (by decide) (by decide)
  | constant c =>
      rw [String.ofList_toList]
      exact Expr.splits_name (Expr.isWord_constant c) (Expr.ofName?_constant c)
  | function op =>
      rw [String.ofList_toList]
      exact Expr.splits_name (Expr.isWord_function op) (Expr.ofName?_function op)
  | operator op =>
      cases op with
      | mod => exact Expr.splits_name (by decide) (by decide)
      | add => exact sign rfl (by decide)
      | sub => exact sign rfl (by decide)
      | mul => exact sign rfl (by decide)
      | div => exact sign rfl (by decide)
      | pow => exact sign rfl (by decide)
  | remainder => exact sign rfl (by decide)
  | openParen => exact sign rfl (by decide)
  | closeParen => exact sign rfl (by decide)

/-- Spellings with blanks between them are cut into their tokens. -/
theorem pieces_intercalate {ts : List Token} {spellings : List (List Char)}
    (spelt : List.Forall₂ Spells ts spellings) :
    pieces ([' '].intercalate spellings) = ts.map .token ∧
      Stops isBlank ([' '].intercalate spellings) := by
  induction spelt with
  | nil => exact ⟨rfl, fun c member => by cases member⟩
  | @cons t cs ts spellings first others ih =>
      have splits := first.splits
      cases others with
      | nil =>
          have whole := splits [] (fun c member => by cases member)
          rw [String.toList_ofList, List.append_nil] at whole
          rwa [List.intercalate_singleton]
      | @cons _ next _ more second others =>
          obtain ⟨read, stops⟩ := ih
          have whole := splits _ (Expr.boundary_blank ([' '].intercalate (next :: more)))
          rw [String.toList_ofList, pieces_blank stops, read] at whole
          rw [List.intercalate_cons_cons, List.append_assoc]
          exact whole

/-- Cutting a text into tokens loses nothing.  The parts follow each other and are the whole text; each
is a run of blanks, or it is without blanks and spells one token or one unknown piece.  So the text
without its blanks is made of the spellings of its pieces, and of its tokens if nothing is unknown.
Tokens that are spelt with a blank between any two of them are read back. -/
theorem scan_lossless :
    (∀ text : String,
      (parts text).flatten = text.toList ∧
      (∀ part ∈ parts text, part ≠ [] ∧ StandsFor part (pieceOf? part)) ∧
      scan text = (((parts text).filterMap pieceOf?).filterMap Piece.token?,
        ((parts text).filterMap pieceOf?).filterMap Piece.unknown?) ∧
      (∃ spellings, List.Forall₂ Piece.Spells ((parts text).filterMap pieceOf?) spellings ∧
        spellings.flatten = text.toList.filter fun c => !isBlank c) ∧
      ((scan text).2 = [] → ∃ spellings, List.Forall₂ Spells (scan text).1 spellings ∧
        spellings.flatten = text.toList.filter fun c => !isBlank c)) ∧
    ∀ (ts : List Token) (spellings : List (List Char)), List.Forall₂ Spells ts spellings →
      scan (String.ofList ([' '].intercalate spellings)) = (ts, []) := by
  constructor
  · intro text
    have covers : (parts text).flatten = text.toList := flatten_lexemes (le_refl _)
    have kinds : ∀ part ∈ parts text, Kind part := fun part member => kind_of_mem_lexemes member
    have spellings := exists_spellings fun part member => (kinds part member).standsFor
    rw [covers] at spellings
    refine ⟨covers, fun part member => ⟨(kinds part member).ne_nil, (kinds part member).standsFor⟩,
      scan_eq text, spellings, fun known => ?_⟩
    obtain ⟨texts, spelt, joined⟩ := spellings
    have tokens : (scan text).1.map .token = (parts text).filterMap pieceOf? := map_token_scan known
    rw [← tokens, List.forall₂_map_left_iff] at spelt
    exact ⟨texts, spelt, joined⟩
  · intro ts spellings spelt
    obtain ⟨read, -⟩ := pieces_intercalate spelt
    rw [scan_eq, String.toList_ofList, read]
    rw [List.filterMap_map, List.filterMap_map]
    simp [Function.comp_def, Piece.token?, Piece.unknown?]

/-- Points at either end, a power of ten, both names of the remainder operation and a digit that is not
ASCII. -/
theorem scan_lossless_written :
    scan "1. mod .5e+5 % ٣" = ([.number "1.", .operator .mod, .number ".5e+5", .operator .mod,
      .number "٣"], []) := by
  have digits {ds : List Char} (all : ds.all isDigit = true) : AllDigits ds :=
    List.all_eq_true.mp all
  have pointed : IsNumber "1.".toList :=
    ⟨_, _, @IsMantissa.pointed ['1'] [] (by simp) (digits (by decide)) (digits (by decide)),
      .absent, rfl⟩
  have power : IsNumber ".5e+5".toList :=
    ⟨_, _, @IsMantissa.fraction ['5'] (by simp) (digits (by decide)),
      @IsPower.present 'e' ['+'] ['5'] (.inl rfl) (.inr (.inl rfl)) (by simp) (digits (by decide)),
      rfl⟩
  have arabic : IsNumber "٣".toList :=
    ⟨_, _, @IsMantissa.whole ['٣'] (by simp) (digits (by decide)), .absent, rfl⟩
  exact scan_lossless.2 _ _ (.cons (.number pointed) (.cons (.operator .mod)
    (.cons (.number power) (.cons .remainder (.cons (.number arabic) .nil)))))

end Token

end PrimeSearch
