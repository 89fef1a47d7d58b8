/-
Module: PrimeSearch.Proofs.Fitness.Complexity
Purpose: What the complexity of an expression's text counts along the tree.
Main exports: Expr.operations, Constant.marks, operatorCount_text, complexity_text
-/
import PrimeSearch.Expr.Mutation
import PrimeSearch.Fitness.Complexity
import PrimeSearch.Proofs.Expr.RoundTrip
import PrimeSearch.Proofs.Number.Notation
import PrimeSearch.Proofs.Text.Cutting

namespace PrimeSearch

open Binary64

/-!
Occurrences are counted in the text, and they are counted part by part: no operator and no function
name has a blank or a parenthesis in it, so no occurrence reaches over one.  In this way every
operation counts once and so does every function with a counted name in its own.  What is left are
the constants, in whose spelling signs and the name of a function may stand as well.
-/

/-! ### Occurrences in parts of a text -/

section
variable {pattern cs : List Char} {c : Char}

/-- No occurrence begins with a character that is not in the pattern. -/
theorem countFrom_cons_outside (outside : c ∉ pattern) (nonempty : pattern ≠ []) :
    countFrom pattern 0 (c :: cs) = countFrom pattern 0 cs := by
  obtain ⟨p, ps, rfl⟩ := List.exists_cons_of_ne_nil nonempty
  have differ : (p == c) = false := by
    simp only [List.mem_cons, not_or] at outside
    simpa using Ne.symm outside.1
  simp [countFrom, startsWith, differ]

/-- A pattern starts a text within the part before a character that is not in the pattern. -/
theorem startsWith_append_outside (outside : c ∉ pattern) (front back : List Char) :
    startsWith pattern (front ++ c :: back) = startsWith pattern front := by
  induction pattern generalizing front with
  | nil => cases front <;> rfl
  | cons p ps ih =>
      simp only [List.mem_cons, not_or] at outside
      cases front with
      | nil => simp [startsWith, Ne.symm outside.1]
      | cons d front => simp [startsWith, ih outside.2 front]

theorem length_le_of_startsWith (starts : startsWith pattern cs = true) :
    pattern.length ≤ cs.length := by
  fun_induction startsWith pattern cs with
  | case1 => exact Nat.zero_le _
  | case2 => contradiction
  | case3 p ps c cs ih =>
      simp only [Bool.and_eq_true] at starts
      exact Nat.succ_le_succ (ih starts.2)

/-- Occurrences are counted on either side of a character that is not in the pattern. -/
theorem countFrom_append_outside (outside : c ∉ pattern) (nonempty : pattern ≠ []) (skip : Nat)
    (front back : List Char) (within : skip ≤ front.length) :
    countFrom pattern skip (front ++ c :: back) =
      countFrom pattern skip front + countFrom pattern 0 back := by
  induction front generalizing skip with
  | nil =>
      obtain rfl : skip = 0 := by simpa using within
      rw [List.nil_append, countFrom_cons_outside outside nonempty, countFrom, Nat.zero_add]
  | cons d front ih =>
      cases skip with
      | succ skip => exact ih skip (Nat.le_of_succ_le_succ within)
      | zero =>
          have same := startsWith_append_outside outside (d :: front) back
          rw [List.cons_append] at same ⊢
          rw [countFrom, countFrom, same]
          split
          next starts =>
            -- What is left of the occurrence does not reach the character.
            have short := length_le_of_startsWith starts
            rw [List.length_cons] at short
            rw [ih (pattern.length - 1) (by omega), Nat.add_assoc]
          next => exact ih 0 (Nat.zero_le _)

end

/-- Number of occurrences of operators and functions in a list of characters. -/
def tokenCount (cs : List Char) : Nat :=
  (complexityTokens.map fun token => countFrom token.toList 0 cs).sum

theorem tokenCount_nil : tokenCount [] = 0 := rfl

/-- A character of no operator and of no function name. -/
def Outside (c : Char) : Prop := ∀ token ∈ complexityTokens, c ∉ token.toList

instance : DecidablePred Outside := fun c =>
  inferInstanceAs (Decidable (∀ token ∈ complexityTokens, c ∉ token.toList))

theorem outside_of_isDigit {c : Char} (digit : c.isDigit = true) : Outside c := by
  intro token member inside
  have found : token.toList.any Char.isDigit = true := List.any_eq_true.mpr ⟨c, inside, digit⟩
  have digitless : ∀ token ∈ complexityTokens, token.toList.any Char.isDigit = false := by decide
  rw [digitless token member] at found
  contradiction

section
variable {c : Char}

/-- Occurrences are counted on either side of a character outside. -/
theorem tokenCount_append (outside : Outside c) (front back : List Char) :
    tokenCount (front ++ c :: back) = tokenCount front + tokenCount back := by
  have nonempty : ∀ token ∈ complexityTokens, token.toList ≠ [] := by decide
  rw [tokenCount, tokenCount, tokenCount, ← List.sum_map_add]
  refine congrArg List.sum (List.map_congr_left fun token member => ?_)
  exact countFrom_append_outside (outside token member) (nonempty token member) 0 front back
    (Nat.zero_le _)

theorem tokenCount_cons (outside : Outside c) (back : List Char) :
    tokenCount (c :: back) = tokenCount back := by
  simpa [tokenCount, countFrom] using tokenCount_append outside [] back

theorem tokenCount_digits {ds : List Char} (all : Digits ds) : tokenCount ds = 0 := by
  induction ds with
  | nil => rfl
  | cons d ds ih =>
      obtain ⟨first, others⟩ := List.forall_mem_cons.mp all
      rw [tokenCount_cons (outside_of_isDigit first), ih others]

/-- The sign of an operation is one occurrence, whatever follows. -/
theorem tokenCount_sign (op : BinaryOp) (rest : List Char) :
    tokenCount (op.sign.toList ++ rest) = tokenCount rest + 1 := by
  cases op <;>
    simp [tokenCount, complexityTokens, countFrom, startsWith, BinaryOp.sign, BinaryOp.name] <;>
    omega

theorem tokenCount_parenthesized (text : String) :
    tokenCount (Expr.parenthesized text).toList = tokenCount text.toList := by
  have shape : (Expr.parenthesized text).toList = '(' :: (text.toList ++ [')']) := by
    simp [Expr.parenthesized]
  rw [shape, tokenCount_cons (by decide), tokenCount_append (by decide), tokenCount_nil,
    Nat.add_zero]

theorem tokenCount_operand (isOperation : Bool) (text : String) :
    tokenCount (Expr.operand isOperation text).toList = tokenCount text.toList := by
  cases isOperation with
  | false => rfl
  | true => exact tokenCount_parenthesized text

end

/-! ### Constants -/

namespace Constant

/-- Signs and function names in the spelling of a constant: the root in `sqrt2`, the sign of a
negative number, and the sign of a power of ten. -/
def marks (v : Float) : Nat :=
  match NamedConstant.ofValue? v with
  | some c => if c = .sqrt2 then 1 else 0
  | none => (isNegative v).toNat + (hasPower v.abs).toNat

end Constant

section
variable {v : Float} {mantissa : Nat} {exponent : Int}

/-- A power of ten is one occurrence, that of its sign. -/
theorem tokenCount_exponentText {front : List Char} (e : Int) :
    tokenCount (front ++ (Numeral.exponentText Numeral.exact e).toList) = tokenCount front + 1 := by
  obtain ⟨⟨negative, ds⟩, ⟨-, all⟩, written, -⟩ := exists_power_of_exponentText e
  have sign : tokenCount ((if negative then '-' else '+') :: ds) = tokenCount ds + 1 := by
    cases negative
    · exact tokenCount_sign .add ds
    · exact tokenCount_sign .sub ds
  rw [written, Literal.powerChars, tokenCount_append (by decide), sign, tokenCount_digits all]

theorem tokenCount_pointed {ds es : List Char} (whole : Digits ds) (fraction : Digits es) :
    tokenCount (ds ++ '.' :: es) = 0 := by
  rw [tokenCount_append (by decide), tokenCount_digits whole, tokenCount_digits fraction]

/-- In the digits of a positive decimal there is an occurrence only if there is a power of ten. -/
theorem tokenCount_layout {d : Decimal} (positive : 0 < d.coefficient) :
    tokenCount (Numeral.layout Numeral.exact d).toList =
      if Numeral.exact.leastPositional ≤ d.leading ∧ d.leading < Numeral.exact.firstScientific
      then 0 else 1 := by
  obtain ⟨c, e⟩ := d
  have nonzero : c ≠ 0 := positive.ne'
  have all : Digits (Decimal.digits c) := .ofNat c
  have nonempty : Decimal.digits c ≠ [] := Nat.toDigits_ne_nil
  unfold Numeral.layout Decimal.leading
  simp only [if_neg nonzero]
  generalize Decimal.digits c = ds at *
  split
  next positional =>
    split
    next up =>
      simpa [Numeral.exact] using tokenCount_pointed (all.append (.zeros e.toNat)) (.zeros 1)
    next down =>
      split
      next inside =>
        have whole := all.sublist (List.take_sublist (e + ds.length - 1 + 1).toNat ds)
        have fraction := all.sublist (List.drop_sublist (e + ds.length - 1 + 1).toNat ds)
        simpa using tokenCount_pointed whole fraction
      next below =>
        simpa using tokenCount_pointed (.zeros 1)
          ((Digits.zeros (-(e + ds.length - 1) - 1).toNat).append all)
  next scientific =>
    obtain ⟨first, rest, rfl⟩ := List.exists_cons_of_ne_nil nonempty
    rw [String.toList_append, tokenCount_exponentText]
    cases rest with
    | nil => simpa using tokenCount_digits all
    | cons second rest =>
        obtain ⟨one, others⟩ := List.forall_mem_cons.mp all
        have leading : Digits [first] := by simpa [Digits] using one
        simpa using tokenCount_pointed leading others

/-- In the shortest form of a magnitude there is an occurrence only if there is a power of ten. -/
theorem tokenCount_shortest (magnitude : decode v = .finite false mantissa exponent) :
    tokenCount (Numeral.shortest v).toList = (Constant.hasPower v).toNat := by
  have canonical := canonical_decode v
  rw [magnitude] at canonical
  rcases Nat.eq_zero_or_pos mantissa with rfl | positive
  · obtain rfl : exponent = minExponent := by
      obtain ⟨-, -, -, normal⟩ := canonical
      omega
    obtain rfl : v = 0.0 := decode_inj (magnitude.trans decode_zero.symm)
    decide
  · have coefficient := (Numeral.leading_bounds canonical positive
      (Decimal.shortest_contains canonical positive)).1
    have written : (Numeral.shortest v).toList =
        (Numeral.layout Numeral.exact (Decimal.shortest mantissa exponent)).toList := by
      simp [Numeral.shortest, Numeral.write, magnitude]
    rw [written, tokenCount_layout coefficient]
    simp only [Decimal.leading_shortest_iff magnitude positive]
    cases Constant.hasPower v <;> rfl

/-- In the digits of a magnitude there is an occurrence only if there is a power of ten. -/
theorem tokenCount_magnitudeText (magnitude : decode v = .finite false mantissa exponent) :
    tokenCount (Constant.magnitudeText v).toList = (Constant.hasPower v).toNat := by
  unfold Constant.magnitudeText
  split
  next n truncated =>
    split
    next whole =>
      simp only [Bool.and_eq_true, decide_eq_true_eq] at whole
      obtain ⟨k, equal, -⟩ := truncate?_of_isInteger magnitude whole.1
      obtain rfl := Option.some.inj (truncated.symm.trans equal)
      have sign : ¬ (k : Int) < 0 := by omega
      rw [Constant.hasPower_eq_false magnitude whole.1 whole.2, Numeral.ofInt, if_neg sign,
        Int.natAbs_natCast, Numeral.ofNat, String.toList_ofList, tokenCount_digits (.ofNat k)]
      rfl
    next => exact tokenCount_shortest magnitude
  next => exact tokenCount_shortest magnitude

/-- Of the named constants one has the name of a function in its own. -/
theorem tokenCount_namedConstant (c : NamedConstant) :
    tokenCount c.name.toList = if c = .sqrt2 then 1 else 0 := by
  cases c <;> decide

/-- The occurrences in the text of a constant are its marks. -/
theorem tokenCount_constant (finite : v.isFinite = true) :
    tokenCount (Constant.text v).toList = Constant.marks v := by
  obtain ⟨negative, mantissa, exponent, shape⟩ := (isFinite_iff v).mp finite
  have magnitude : decode v.abs = .finite false mantissa exponent := by
    rw [decode_abs, shape]
    rfl
  have digits := tokenCount_magnitudeText magnitude
  unfold Constant.text Constant.marks
  cases NamedConstant.ofValue? v with
  | some c => exact tokenCount_namedConstant c
  | none =>
      dsimp only
      split
      next minus =>
        have parts : ("(-" ++ Constant.magnitudeText v.abs ++ ")").toList =
            '(' :: (BinaryOp.sub.sign.toList ++
              ((Constant.magnitudeText v.abs).toList ++ [')'])) := by
          simp [BinaryOp.sign, BinaryOp.name]
        rw [parts, tokenCount_cons (by decide), tokenCount_sign, tokenCount_append (by decide),
          tokenCount_nil, digits, minus, Nat.add_zero]
        exact Nat.add_comm _ 1
      next plus =>
        rw [digits, Bool.eq_false_of_not_eq_true plus, Bool.toNat_false, Nat.zero_add]

end

/-! ### Expressions -/

/-- Whether the name of a function is counted. -/
def UnaryOp.isCounted (op : UnaryOp) : Bool :=
  op ∈ [.sin, .cos, .sind, .cosd, .sqrt, .log, .abs]

theorem tokenCount_name (op : UnaryOp) : tokenCount op.name.toList = op.isCounted.toNat := by
  cases op <;> decide

namespace Expr

/-- Number of nodes that are an operation, a reduction or a counted function. -/
def operations : Expr → Nat
  | .const _ | .var => 0
  | .mod child _ => child.operations + 1
  | .unary op child => child.operations + op.isCounted.toNat
  | .binary _ left right => left.operations + right.operations + 1

/-- Number of signs and function names in the spelling of the constants. -/
def marks (t : Expr) : Nat := (t.constants.map Constant.marks).sum

theorem tokenCount_operation (op : BinaryOp) (one two : String) :
    tokenCount (one ++ " " ++ op.sign ++ " " ++ two).toList =
      tokenCount one.toList + tokenCount two.toList + 1 := by
  have parts : (one ++ " " ++ op.sign ++ " " ++ two).toList =
      one.toList ++ ' ' :: (op.sign.toList ++ ' ' :: two.toList) := by
    simp
  rw [parts, tokenCount_append (by decide), tokenCount_sign, tokenCount_cons (by decide),
    Nat.add_assoc]

/-- In the text of an expression there is one occurrence for each operation and each counted
function, and besides them there are the marks of the constants. -/
theorem tokenCount_text {t : Expr} (finite : t.FiniteConstants) :
    tokenCount t.text.toList = t.operations + t.marks := by
  induction t with
  | const v => simp [text, operations, marks, constants, tokenCount_constant finite]
  | var => decide
  | mod child m ih =>
      have number : tokenCount (Numeral.ofNat m.val).toList = 0 := by
        rw [Numeral.ofNat, String.toList_ofList]
        exact tokenCount_digits (.ofNat m.val)
      rw [text, tokenCount_parenthesized, remainder_sign, tokenCount_operation, tokenCount_operand,
        number, ih finite]
      simp only [operations, marks, constants]
      omega
  | unary op child ih =>
      have parts : (op.name ++ parenthesized child.text).toList =
          op.name.toList ++ '(' :: (child.text.toList ++ [')']) := by
        simp [parenthesized]
      rw [text, parts, tokenCount_append (by decide), tokenCount_name,
        tokenCount_append (by decide), tokenCount_nil, ih finite]
      simp only [operations, marks, constants]
      omega
  | binary op left right ihLeft ihRight =>
      rw [text, tokenCount_operation, tokenCount_operand, tokenCount_operand, ihLeft finite.1,
        ihRight finite.2]
      simp only [operations, marks, constants, List.map_append, List.sum_append]
      omega

/-! ### Length -/

/-- Whether a fixed text is ASCII can be computed. -/
theorem ascii_of_isAscii {text : String} (ascii : isAscii text = true) :
    ∀ c ∈ text.toList, Ascii c := forall_mem_of_all ascii

theorem ascii_append {one two : String} (left : ∀ c ∈ one.toList, Ascii c)
    (right : ∀ c ∈ two.toList, Ascii c) : ∀ c ∈ (one ++ two).toList, Ascii c := by
  rw [String.toList_append]
  exact List.forall_mem_append.mpr ⟨left, right⟩

theorem ascii_digits {ds : List Char} (all : Digits ds) : ∀ c ∈ ds, Ascii c := by
  intro c member
  have digit := all c member
  simp only [Char.isDigit, Bool.and_eq_true, decide_eq_true_eq] at digit
  exact lt_of_le_of_lt (show c.toNat ≤ '9'.toNat from digit.2) (by decide)

theorem ascii_literal (l : Literal) : ∀ c ∈ l.chars, Ascii c := by
  have fraction : ∀ c ∈ Literal.fractionChars l.fraction, Ascii c := by
    cases shape : l.fraction with
    | none => simp [Literal.fractionChars]
    | some ds =>
        exact List.forall_mem_cons.mpr ⟨by decide, ascii_digits (l.fraction_digits ds shape)⟩
  have power : ∀ c ∈ Literal.powerChars l.power, Ascii c := by
    cases shape : l.power with
    | none => simp [Literal.powerChars]
    | some p =>
        refine List.forall_mem_cons.mpr ⟨by decide, List.forall_mem_cons.mpr ⟨?_, ?_⟩⟩
        · split <;> decide
        · exact ascii_digits (l.power_digits p shape).2
  exact List.forall_mem_append.mpr
    ⟨ascii_digits l.whole_digits, List.forall_mem_append.mpr ⟨fraction, power⟩⟩

theorem ascii_constant {v : Float} (finite : v.isFinite = true) :
    ∀ c ∈ (Constant.text v).toList, Ascii c := by
  obtain ⟨l, written, -⟩ := Constant.exists_literal finite
  have magnitude := ascii_literal l
  rw [written] at magnitude
  have name : ∀ c : NamedConstant, ∀ d ∈ c.name.toList, Ascii d := by
    intro c
    cases c <;> exact ascii_of_isAscii rfl
  unfold Constant.text
  cases NamedConstant.ofValue? v with
  | some c => exact name c
  | none =>
      dsimp only
      split
      · exact ascii_append (ascii_append (ascii_of_isAscii rfl) magnitude) (ascii_of_isAscii rfl)
      · exact magnitude

theorem ascii_parenthesized {text : String} (inner : ∀ c ∈ text.toList, Ascii c) :
    ∀ c ∈ (parenthesized text).toList, Ascii c :=
  ascii_append (ascii_append (ascii_of_isAscii rfl) inner) (ascii_of_isAscii rfl)

theorem ascii_operand (isOperation : Bool) {text : String} (inner : ∀ c ∈ text.toList, Ascii c) :
    ∀ c ∈ (operand isOperation text).toList, Ascii c := by
  cases isOperation with
  | false => exact inner
  | true => exact ascii_parenthesized inner

/-- The text of an expression is ASCII. -/
theorem ascii_text {t : Expr} (finite : t.FiniteConstants) : ∀ c ∈ t.text.toList, Ascii c := by
  induction t with
  | const v => exact ascii_constant finite
  | var => exact ascii_of_isAscii rfl
  | mod child m ih =>
      have number : ∀ c ∈ (Numeral.ofNat m.val).toList, Ascii c := by
        rw [Numeral.ofNat, String.toList_ofList]
        exact ascii_digits (.ofNat m.val)
      have sign : ∀ c ∈ " % ".toList, Ascii c := ascii_of_isAscii rfl
      exact ascii_parenthesized
        (ascii_append (ascii_append (ascii_operand _ (ih finite)) sign) number)
  | unary op child ih =>
      have name : ∀ c ∈ op.name.toList, Ascii c := by
        cases op <;> exact ascii_of_isAscii rfl
      exact ascii_append name (ascii_parenthesized (ih finite))
  | binary op left right ihLeft ihRight =>
      have sign : ∀ c ∈ op.sign.toList, Ascii c := by
        cases op <;> exact ascii_of_isAscii rfl
      have blank : ∀ c ∈ " ".toList, Ascii c := ascii_of_isAscii rfl
      have front := ascii_append (ascii_operand left.isBinary (ihLeft finite.1)) blank
      exact ascii_append (ascii_append (ascii_append front sign) blank)
        (ascii_operand right.isBinary (ihRight finite.2))

end Expr

/-! ### Complexity -/

/-- The complexity of an expression's text is one, and one more for each operation, each counted
function and each mark of a constant, and a hundredth for each character. -/
theorem complexity_text (t : Expr) (finite : t.FiniteConstants) :
    complexity t.text =
      1.0 + countToFloat (t.operations + t.marks) + 0.01 * countToFloat t.text.length := by
  have characters : characterCount t.text.toList = t.text.length := by
    rw [characterCount, characters_ascii (Expr.ascii_text finite), List.length_map,
      String.length_toList]
  have occurrences : operatorCount t.text = t.operations + t.marks := Expr.tokenCount_text finite
  rw [complexity, characters, occurrences]

/-- Four nodes that count; and the name of the root and the sign of a number, which do as well. -/
theorem complexity_text_marked :
    ∃ t : Expr, t.FiniteConstants ∧ t.text = "(sqrt2 * n) - (sind((-3)) % 7)" ∧ t.operations = 4 ∧
      t.marks = 2 ∧ complexity t.text =
        1.0 + countToFloat (t.operations + t.marks) + 0.01 * countToFloat t.text.length :=
  ⟨.binary .sub (.binary .mul (.const NamedConstant.sqrt2.value) .var)
      (.mod (.unary .sind (.const (-3.0))) ⟨7, by decide, by decide⟩),
    by decide, by decide +kernel, by decide, by decide +kernel, complexity_text _ (by decide)⟩

/-- The name of a constant counts as if the root were taken. -/
theorem complexity_of_name :
    (Expr.const NamedConstant.sqrt2.value).FiniteConstants ∧
      (Expr.const NamedConstant.sqrt2.value).operations = 0 ∧
      complexity (Expr.const NamedConstant.sqrt2.value).text ≠
        1.0 + countToFloat (Expr.const NamedConstant.sqrt2.value).operations +
          0.01 * countToFloat (Expr.const NamedConstant.sqrt2.value).text.length := by
  decide +kernel

end PrimeSearch
