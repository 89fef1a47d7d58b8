/-
Module: PrimeSearch.Proofs.Expr.RoundTrip
Purpose: The canonical text of an expression is read back as the expression, up to its reduction
  nodes, which become remainder operations of the same value.
Main exports: Expr.FiniteConstants, Expr.ModFree, Expr.tokens, splits_text, derives_tokens,
  parse_text
-/
import PrimeSearch.Expr.Eval
import PrimeSearch.Proofs.Expr.Parsing
import PrimeSearch.Proofs.Expr.Scanning
import PrimeSearch.Proofs.Number.Order
import PrimeSearch.Proofs.Number.Reading

namespace PrimeSearch

open Binary64

/-!
The text is split into tokens that are given along the tree (`Expr.tokens`), and these are
derived by the grammar with the lowered tree as what they denote.  An operation is in parentheses
wherever it is an operand, so that every operand is an atom and no rule is needed twice.
-/

/-! ### Constants -/

namespace Constant

/-- The tokens of a constant. -/
def tokens (v : Float) : List Token :=
  match NamedConstant.ofValue? v with
  | some c => [.constant c]
  | none =>
      if isNegative v then
        [.openParen, .operator .sub, .number (magnitudeText v.abs), .closeParen]
      else [.number (magnitudeText v.abs)]

theorem eq_of_ofValue? {v : Float} {c : NamedConstant} (named : NamedConstant.ofValue? v = some c) :
    v = c.value := by
  have equal : (v == c.value) = true :=
    List.find?_some (p := fun c : NamedConstant => v == c.value) named
  apply eq_of_beq equal
  cases c <;> decide

theorem isNegative_eq {v : Float} {negative : Bool} {mantissa : Nat} {exponent : Int}
    (finite : decode v = .finite negative mantissa exponent) : isNegative v = negative := by
  rw [decode_eq, valueOfBits] at finite
  unfold isNegative
  split at finite
  · split at finite <;> cases finite
  · split at finite <;> cases finite <;> rfl

/-- The magnitude of a finite constant is written as a number and read back. -/
theorem exists_literal {v : Float} (finite : v.isFinite = true) :
    ∃ l : Literal, l.chars = (magnitudeText v.abs).toList ∧
      Numeral.ofLiteral (magnitudeText v.abs) = v.abs := by
  obtain ⟨negative, mantissa, exponent, shape⟩ := (isFinite_iff v).mp finite
  have magnitude : decode v.abs = .finite false mantissa exponent := by
    rw [decode_abs, shape]
    rfl
  exact exists_literal_of_magnitudeText magnitude

theorem isFinite_magnitude {v : Float} (finite : v.isFinite = true) :
    (Numeral.ofLiteral (magnitudeText v.abs)).isFinite = true := by
  obtain ⟨-, -, value⟩ := exists_literal finite
  obtain ⟨negative, mantissa, exponent, shape⟩ := (isFinite_iff v).mp finite
  rw [value, isFinite_iff, decode_abs, shape]
  exact ⟨_, _, _, rfl⟩

theorem neg_abs {v : Float} (finite : v.isFinite = true) (negative : isNegative v = true) :
    -v.abs = v := by
  obtain ⟨sign, mantissa, exponent, shape⟩ := (isFinite_iff v).mp finite
  obtain rfl : sign = true := (isNegative_eq shape).symm.trans negative
  apply decode_inj
  rw [decode_neg, decode_abs, shape]
  rfl

theorem abs_eq {v : Float} (finite : v.isFinite = true) (positive : isNegative v = false) :
    v.abs = v := by
  obtain ⟨sign, mantissa, exponent, shape⟩ := (isFinite_iff v).mp finite
  obtain rfl : sign = false := (isNegative_eq shape).symm.trans positive
  apply decode_inj
  rw [decode_abs, shape]
  rfl

/-- The tokens of a finite constant denote the constant. -/
theorem derives_tokens {v : Float} (finite : v.isFinite = true) :
    Derives .atom (tokens v) (.const v) := by
  obtain ⟨l, -, value⟩ := exists_literal finite
  unfold tokens
  split
  next c named =>
    rw [eq_of_ofValue? named]
    exact .constant c
  next =>
    split
    next negative =>
      have operand :
          Derives .signed [.operator .sub, .number (magnitudeText v.abs)] (.const v) := by
        have magnitude := Derives.number (magnitudeText v.abs)
        have number := Derives.minusConstant (magnitude.loosen (by decide))
        rwa [value, neg_abs finite negative] at number
      exact .group (operand.loosen (by decide))
    next positive =>
      have read := value.trans (abs_eq finite (by simpa using positive))
      have number := Derives.number (magnitudeText v.abs)
      rwa [read] at number

end Constant

namespace Modulus

/-- A modulus as a double is the whole number that it is. -/
theorem toFloat_exact (m : Modulus) :
    m.toFloat.isFinite = true ∧ isNegative m.toFloat = false ∧ isInteger m.toFloat = true ∧
      truncate? m.toFloat = some (m.val : Int) := by
  have table : ∀ n ∈ List.range (maxModulus + 1), (UInt64.ofNat n).toFloat.isFinite = true ∧
      isNegative (UInt64.ofNat n).toFloat = false ∧ isInteger (UInt64.ofNat n).toFloat = true ∧
      truncate? (UInt64.ofNat n).toFloat = some (n : Int) := by
    decide +kernel
  exact table m.val (List.mem_range.mpr (Nat.lt_succ_of_le m.le_max))

/-- A modulus is read back as the double that it is. -/
theorem ofLiteral_ofNat (m : Modulus) : Numeral.ofLiteral (Numeral.ofNat m.val) = m.toFloat := by
  obtain ⟨finite, positive, integral, truncated⟩ := m.toFloat_exact
  obtain ⟨sign, mantissa, exponent, shape⟩ := (isFinite_iff _).mp finite
  obtain rfl : sign = false := (Constant.isNegative_eq shape).symm.trans positive
  exact PrimeSearch.ofLiteral_ofNat shape integral truncated

end Modulus

/-! ### Tokens of an expression -/

namespace Expr

/-- Every constant is a finite double. -/
def FiniteConstants : Expr → Prop
  | .const v => v.isFinite = true
  | .var => True
  | .mod child _ | .unary _ child => child.FiniteConstants
  | .binary _ left right => left.FiniteConstants ∧ right.FiniteConstants

instance decidableFiniteConstants : (t : Expr) → Decidable t.FiniteConstants
  | .const v => inferInstanceAs (Decidable (v.isFinite = true))
  | .var => .isTrue trivial
  | .mod child _ => decidableFiniteConstants child
  | .unary _ child => decidableFiniteConstants child
  | .binary _ left right =>
      @instDecidableAnd _ _ (decidableFiniteConstants left) (decidableFiniteConstants right)

/-- There are no reduction nodes. -/
def ModFree : Expr → Prop
  | .const _ | .var => True
  | .mod _ _ => False
  | .unary _ child => child.ModFree
  | .binary _ left right => left.ModFree ∧ right.ModFree

/-- The tokens of an operand. -/
def operandTokens (isOperation : Bool) (ts : List Token) : List Token :=
  if isOperation then .openParen :: ts ++ [.closeParen] else ts

/-- The tokens of the canonical text. -/
def tokens : Expr → List Token
  | .const v => Constant.tokens v
  | .var => [.variable]
  | .mod child m =>
      .openParen :: (operandTokens child.isBinary child.tokens ++
        .operator .mod :: [.number (Numeral.ofNat m.val)]) ++ [.closeParen]
  | .unary op child => .function op :: .openParen :: child.tokens ++ [.closeParen]
  | .binary op left right =>
      operandTokens left.isBinary left.tokens ++
        .operator op :: operandTokens right.isBinary right.tokens

/-- What follows an expression in a text: nothing, a blank or a closing parenthesis. -/
def Boundary (rest : List Char) : Prop := ∀ c ∈ rest.head?, c = ' ' ∨ c = ')'

theorem Boundary.ends {rest : List Char} (boundary : Boundary rest) : Literal.Ends rest := by
  intro c member
  rcases boundary c member with rfl | rfl <;> decide

theorem Boundary.stops {rest : List Char} (boundary : Boundary rest) :
    Stops Token.isName rest := by
  intro c member
  rcases boundary c member with rfl | rfl <;> decide

theorem boundary_blank (rest : List Char) : Boundary (' ' :: rest) := by
  intro c member
  cases member
  exact .inl rfl

theorem boundary_close (rest : List Char) : Boundary (')' :: rest) := by
  intro c member
  cases member
  exact .inr rfl

/-- A text is split into tokens, whatever follows it. -/
def SplitsInto (text : String) (ts : List Token) : Prop :=
  ∀ rest, Boundary rest →
    Token.pieces (text.toList ++ rest) = ts.map .token ++ Token.pieces rest ∧
      Stops isBlank (text.toList ++ rest)

theorem stops_cons {inside : Char → Bool} {c : Char} (outside : inside c = false)
    (rest : List Char) : Stops inside (c :: rest) := by
  intro d member
  cases member
  exact outside

/-- A word that names a token is that token. -/
theorem pieces_name {name : String} {t : Token} {rest : List Char}
    (proper : Token.isWord name.toList = true) (named : Token.ofName? name = some t)
    (stops : Stops Token.isName rest) :
    Token.pieces (name.toList ++ rest) = .token t :: Token.pieces rest ∧
      Stops isBlank (name.toList ++ rest) := by
  have plain := Token.isBlank_of_isWord proper
  rw [← String.ofList_toList (s := name)] at named
  refine ⟨Token.pieces_word proper named stops, ?_⟩
  cases h : name.toList with
  | nil =>
      rw [h] at proper
      cases proper
  | cons c cs =>
      rw [h] at plain
      exact stops_cons (plain c rfl) _

theorem splits_name {name : String} {t : Token} (proper : Token.isWord name.toList = true)
    (named : Token.ofName? name = some t) : SplitsInto name [t] :=
  fun _ boundary => pieces_name proper named boundary.stops

theorem isWord_constant (c : NamedConstant) : Token.isWord c.name.toList = true := by
  cases c <;> decide

theorem ofName?_constant (c : NamedConstant) : Token.ofName? c.name = some (.constant c) := by
  cases c <;> decide

theorem isWord_function (op : UnaryOp) : Token.isWord op.name.toList = true := by
  cases op <;> decide

theorem ofName?_function (op : UnaryOp) : Token.ofName? op.name = some (.function op) := by
  cases op <;> decide

theorem splits_number {text : String} {l : Literal} (written : l.chars = text.toList) :
    SplitsInto text [.number text] := by
  intro rest boundary
  obtain ⟨w, ws, whole⟩ := List.exists_cons_of_ne_nil l.whole_ne_nil
  rw [← written]
  constructor
  · rw [Token.pieces_number (Token.isNumber_literal l) boundary.ends, written, String.ofList_toList]
    rfl
  · rw [Literal.chars, whole]
    apply stops_cons
    have digit := l.whole_digits w (by rw [whole]; exact List.mem_cons_self)
    obtain ⟨low, high⟩ := Char.isDigit_iff_toNat.mp digit
    simp only [Char.reduceToNat] at low high
    simp only [isBlank, Bool.or_eq_false_iff, Bool.and_eq_false_iff, decide_eq_false_iff_not,
      beq_eq_false_iff_ne]
    omega

theorem splits_parenthesized {text : String} {ts : List Token} (inner : SplitsInto text ts) :
    SplitsInto (parenthesized text) (.openParen :: ts ++ [.closeParen]) := by
  intro rest boundary
  obtain ⟨split, -⟩ := inner (')' :: rest) (boundary_close rest)
  have shape : (parenthesized text).toList ++ rest = '(' :: (text.toList ++ ')' :: rest) := by
    simp [parenthesized]
  rw [shape]
  refine ⟨?_, stops_cons (by decide) _⟩
  rw [Token.pieces_symbol (t := .openParen) rfl, split,
    Token.pieces_symbol (t := .closeParen) rfl]
  simp

theorem splits_operand (isOperation : Bool) {text : String} {ts : List Token}
    (inner : SplitsInto text ts) :
    SplitsInto (operand isOperation text) (operandTokens isOperation ts) := by
  cases isOperation with
  | false => exact inner
  | true => exact splits_parenthesized inner

/-- The sign of an operation is one character that is its token. -/
theorem exists_sign (op : BinaryOp) :
    ∃ c, op.sign.toList = [c] ∧ Token.ofSymbol? c = some (.operator op) ∧ isBlank c = false := by
  cases op
  · exact ⟨'+', rfl, rfl, by decide⟩
  · exact ⟨'-', rfl, rfl, by decide⟩
  · exact ⟨'*', rfl, rfl, by decide⟩
  · exact ⟨'/', rfl, rfl, by decide⟩
  · exact ⟨'%', rfl, rfl, by decide⟩
  · exact ⟨'^', rfl, rfl, by decide⟩

/-- Two texts with a sign between blanks. -/
theorem splits_operation {one two : String} {ts us : List Token} (op : BinaryOp)
    (left : SplitsInto one ts) (right : SplitsInto two us) :
    SplitsInto (one ++ " " ++ op.sign ++ " " ++ two) (ts ++ .operator op :: us) := by
  intro rest boundary
  obtain ⟨c, sign, symbol, notBlank⟩ := exists_sign op
  have shape : (one ++ " " ++ op.sign ++ " " ++ two).toList ++ rest =
      one.toList ++ ' ' :: c :: ' ' :: (two.toList ++ rest) := by
    simp [sign]
  obtain ⟨splitLeft, plain⟩ := left _ (boundary_blank (c :: ' ' :: (two.toList ++ rest)))
  obtain ⟨splitRight, plainRight⟩ := right rest boundary
  rw [shape]
  refine ⟨?_, plain⟩
  rw [splitLeft, Token.pieces_blank (stops_cons notBlank _), Token.pieces_symbol symbol,
    Token.pieces_blank plainRight, splitRight]
  simp

/-- A minus sign and a text in parentheses. -/
theorem splits_negative {text : String} {ts : List Token} (inner : SplitsInto text ts) :
    SplitsInto ("(-" ++ text ++ ")") (.openParen :: .operator .sub :: ts ++ [.closeParen]) := by
  intro rest boundary
  obtain ⟨split, -⟩ := inner (')' :: rest) (boundary_close rest)
  have shape : ("(-" ++ text ++ ")").toList ++ rest =
      '(' :: '-' :: (text.toList ++ ')' :: rest) := by
    simp
  rw [shape]
  refine ⟨?_, stops_cons (by decide) _⟩
  rw [Token.pieces_symbol (t := .openParen) rfl, Token.pieces_symbol (t := .operator .sub) rfl,
    split, Token.pieces_symbol (t := .closeParen) rfl]
  simp

/-- A function and its argument in parentheses. -/
theorem splits_call {text : String} {ts : List Token} (op : UnaryOp)
    (inner : SplitsInto text ts) :
    SplitsInto (op.name ++ parenthesized text)
      (.function op :: .openParen :: ts ++ [.closeParen]) := by
  intro rest boundary
  obtain ⟨split, -⟩ := splits_parenthesized inner rest boundary
  have shape : (parenthesized text).toList ++ rest = '(' :: (text.toList ++ ')' :: rest) := by
    simp [parenthesized]
  have stops : Stops Token.isName ((parenthesized text).toList ++ rest) := by
    rw [shape]
    exact stops_cons (by decide) _
  have name := pieces_name (isWord_function op) (ofName?_function op) stops
  rw [String.toList_append, List.append_assoc]
  refine ⟨?_, name.2⟩
  rw [name.1, split]
  rfl

theorem splits_constant {v : Float} (finite : v.isFinite = true) :
    SplitsInto (Constant.text v) (Constant.tokens v) := by
  obtain ⟨l, written, -⟩ := Constant.exists_literal finite
  have number := splits_number written
  unfold Constant.text Constant.tokens
  cases NamedConstant.ofValue? v with
  | some c => exact splits_name (isWord_constant c) (ofName?_constant c)
  | none =>
      dsimp only
      split
      · exact splits_negative number
      · exact number

theorem remainder_sign (one two : String) :
    one ++ " % " ++ two = one ++ " " ++ BinaryOp.mod.sign ++ " " ++ two := by
  apply String.toList_inj.mp
  simp [BinaryOp.sign]

/-- The text of an expression is split into its tokens. -/
theorem splits_text {t : Expr} (finite : t.FiniteConstants) : SplitsInto t.text t.tokens := by
  induction t with
  | const v => exact splits_constant finite
  | var => exact splits_name (t := .variable) (by decide) (by decide)
  | mod child m ih =>
      have written : (Literal.ofNat m.val).chars = (Numeral.ofNat m.val).toList := by
        rw [Literal.chars_ofNat, Numeral.ofNat, String.toList_ofList]
      have inner := splits_operation .mod (splits_operand child.isBinary (ih finite))
        (splits_number written)
      rw [← remainder_sign] at inner
      exact splits_parenthesized inner
  | unary op child ih => exact splits_call op (ih finite)
  | binary op left right ihLeft ihRight =>
      exact splits_operation op (splits_operand _ (ihLeft finite.1))
        (splits_operand _ (ihRight finite.2))

/-! ### Derivation of the lowered expression -/

/-- An operand is derived as an atom. -/
theorem derives_operand {isOperation : Bool} {ts : List Token} {t : Expr}
    (whole : Derives .sum ts t) (atom : isOperation = false → Derives .atom ts t) :
    Derives .atom (operandTokens isOperation ts) t := by
  cases isOperation with
  | false => exact atom rfl
  | true => exact .group whole

/-- The tokens of an expression denote its lowered form; without an operation at the root they
are an atom. -/
theorem derives_tokens {t : Expr} (finite : t.FiniteConstants) :
    Derives .sum t.tokens t.lower ∧ (t.isBinary = false → Derives .atom t.tokens t.lower) := by
  induction t with
  | const v =>
      have atom := Constant.derives_tokens finite
      exact ⟨atom.loosen (by decide), fun _ => atom⟩
  | var => exact ⟨Derives.variable.loosen (by decide), fun _ => .variable⟩
  | mod child m ih =>
      obtain ⟨whole, atom⟩ := ih finite
      have left := @Derives.loosen _ .product _ _ (by decide) (derives_operand whole atom)
      have right := @Derives.loosen _ .signed _ _ (by decide)
        (Derives.number (Numeral.ofNat m.val))
      rw [m.ofLiteral_ofNat] at right
      have group := Derives.group ((Derives.binary .mod left right).loosen (by decide))
      exact ⟨group.loosen (by decide), fun _ => group⟩
  | unary op child ih =>
      have call := Derives.call op (ih finite).1
      exact ⟨call.loosen (by decide), fun _ => call⟩
  | binary op left right ihLeft ihRight =>
      obtain ⟨wholeLeft, atomLeft⟩ := ihLeft finite.1
      obtain ⟨wholeRight, atomRight⟩ := ihRight finite.2
      have operation := Derives.binary op
        ((derives_operand wholeLeft atomLeft).loosen (by cases op <;> decide))
        ((derives_operand wholeRight atomRight).loosen (by cases op <;> decide))
      refine ⟨operation.loosen (by cases op <;> decide), fun operand => ?_⟩
      cases operand

theorem mem_operandTokens {isOperation : Bool} {ts : List Token} {text : String}
    (member : .number text ∈ operandTokens isOperation ts) : .number text ∈ ts := by
  unfold operandTokens at member
  split at member
  · simpa using member
  · exact member

/-- Every number in the tokens of an expression is finite. -/
theorem finite_tokens {t : Expr} (finite : t.FiniteConstants) (text : String)
    (member : .number text ∈ t.tokens) : (Numeral.ofLiteral text).isFinite = true := by
  induction t with
  | const v =>
      have magnitude := Constant.isFinite_magnitude finite
      rw [tokens, Constant.tokens] at member
      split at member
      · simp at member
      · split at member
        · obtain rfl : text = Constant.magnitudeText v.abs := by simpa using member
          exact magnitude
        · obtain rfl : text = Constant.magnitudeText v.abs := by simpa using member
          exact magnitude
  | var => simp [tokens] at member
  | mod child m ih =>
      simp only [tokens, List.cons_append, List.mem_cons, List.mem_append, reduceCtorEq,
        List.not_mem_nil, false_or, or_false, Token.number.injEq] at member
      rcases member with operand | rfl
      · exact ih finite (mem_operandTokens operand)
      · rw [m.ofLiteral_ofNat]
        exact m.toFloat_exact.1
  | unary op child ih =>
      simp only [tokens, List.cons_append, List.mem_cons, List.mem_append, reduceCtorEq,
        List.not_mem_nil, false_or, or_false] at member
      exact ih finite member
  | binary op left right ihLeft ihRight =>
      simp only [tokens, List.mem_append, List.mem_cons, reduceCtorEq, false_or] at member
      rcases member with operand | operand
      · exact ihLeft finite.1 (mem_operandTokens operand)
      · exact ihRight finite.2 (mem_operandTokens operand)

theorem scan_text {t : Expr} (finite : t.FiniteConstants) : Token.scan t.text = (t.tokens, []) := by
  obtain ⟨split, -⟩ := splits_text finite [] (by intro c member; cases member)
  rw [List.append_nil, Token.pieces_nil, List.append_nil, Token.pieces] at split
  simp only [Token.scan, split, List.filterMap_map, Prod.mk.injEq]
  constructor
  · exact List.filterMap_some
  · simp

/-- Lowering keeps an expression without reduction nodes. -/
theorem lower_eq_self {t : Expr} (free : t.ModFree) : t.lower = t := by
  induction t with
  | const v => rfl
  | var => rfl
  | mod child m ih => exact absurd free id
  | unary op child ih => rw [lower, ih free]
  | binary op left right ihLeft ihRight => rw [lower, ihLeft free.1, ihRight free.2]

/-- Lowering keeps the value. -/
theorem eval_lower (t : Expr) (n : Float) : t.lower.eval n = t.eval n := by
  induction t with
  | const v => rfl
  | var => rfl
  | mod child m ih => simp only [lower, eval, ih, BinaryOp.apply]
  | unary op child ih => simp only [lower, eval, ih]
  | binary op left right ihLeft ihRight => simp only [lower, eval, ihLeft, ihRight]

/-- The text of an expression with finite constants is read back as the lowered expression. -/
theorem parse_text_eq_lower {t : Expr} (finite : t.FiniteConstants) :
    parse t.text = .ok t.lower := by
  have derived := (derives_tokens finite).1
  have noneHuge := (findSome?_huge_eq_none_iff t.tokens).mpr (finite_tokens finite)
  have read := ofTokens_of_derives derived
  rw [noneHuge] at read
  obtain ⟨first, rest, shape⟩ := List.exists_cons_of_ne_nil derived.ne_nil
  rw [parse, scan_text finite]
  rw [shape] at read ⊢
  exact read

/-- The text of an expression with finite constants is read back as the lowered expression, which
is the expression itself if there are no reduction nodes, and has the same value everywhere. -/
theorem parse_text (t : Expr) (finite : t.FiniteConstants) :
    parse t.text = .ok t.lower ∧ (t.ModFree → t.lower = t) ∧ ∀ n, t.lower.eval n = t.eval n :=
  ⟨parse_text_eq_lower finite, lower_eq_self, eval_lower t⟩

/-- Reduction nodes, the negative zero, a named, a negative and a power-of-ten constant. -/
theorem parse_text_nested :
    parse (text (.binary .pow (.mod (.unary .sqrt (.const (-0.0))) ⟨7, by decide, by decide⟩)
        (.binary .sub (.const 3.141592653589793) (.binary .mul (.const (-1e17)) .var)))) =
      .ok (.binary .pow (.binary .mod (.unary .sqrt (.const (-0.0))) (.const 7.0))
        (.binary .sub (.const 3.141592653589793) (.binary .mul (.const (-1e17)) .var))) := by
  have seven : (⟨7, by decide, by decide⟩ : Modulus).toFloat = 7.0 := by decide
  have read := (parse_text (.binary .pow
    (.mod (.unary .sqrt (.const (-0.0))) ⟨7, by decide, by decide⟩)
    (.binary .sub (.const 3.141592653589793) (.binary .mul (.const (-1e17)) .var)))
    (by decide)).1
  simp only [lower, seven] at read
  exact read

end Expr

end PrimeSearch
