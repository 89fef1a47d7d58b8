/-
Module: PrimeSearch.Proofs.Search.Keys
Purpose: The key of a candidate is read back as the candidate, up to its reduction nodes, so
  candidates that share a key cannot be told apart by what they do.
Main exports: Candidate.lower, Candidate.FiniteConstants, parse_key_eq, ofJson_toJson_eq,
  Candidate.key_identifies
-/
import PrimeSearch.Proofs.Expr.RoundTrip
import PrimeSearch.Proofs.Search.Modes
import PrimeSearch.Proofs.Text.Cutting

namespace PrimeSearch

/-!
A key lists its functions with a comma between them, and no function has a comma in its text.
So the key falls apart into its functions again, each of them behind its label.  Reading gives
lowered functions, and what a candidate does depends on its lowered functions and their texts
only.
-/

/-! ### Texts of functions -/

theorem Digits.comma_not_mem {cs : List Char} (all : Digits cs) : ',' ∉ cs := by
  intro member
  have digit := all ',' member
  contradiction

theorem Literal.comma_not_mem_chars (l : Literal) : ',' ∉ l.chars := by
  obtain ⟨whole, -, wholeDigits, fraction, fractionDigits, power, powerDigits⟩ := l
  intro member
  rcases List.mem_append.mp member with inWhole | inRest
  · exact wholeDigits.comma_not_mem inWhole
  rcases List.mem_append.mp inRest with inFraction | inPower
  · cases fraction with
    | none => cases inFraction
    | some ds =>
        rcases List.mem_cons.mp inFraction with point | inDigits
        · contradiction
        · exact (fractionDigits ds rfl).comma_not_mem inDigits
  · cases power with
    | none => cases inPower
    | some p =>
        obtain ⟨negative, ds⟩ := p
        rcases List.mem_cons.mp inPower with marker | inRest
        · contradiction
        rcases List.mem_cons.mp inRest with sign | inDigits
        · cases negative <;> contradiction
        · exact (powerDigits _ rfl).2.comma_not_mem inDigits

theorem Constant.comma_not_mem_text {v : Float} (finite : v.isFinite = true) :
    ',' ∉ (Constant.text v).toList := by
  obtain ⟨l, written, -⟩ := Constant.exists_literal finite
  have magnitude : ',' ∉ (Constant.magnitudeText v.abs).toList := written ▸ l.comma_not_mem_chars
  have names (c : NamedConstant) : ',' ∉ c.name.toList := by cases c <;> decide
  unfold Constant.text
  cases NamedConstant.ofValue? v with
  | some c => exact names c
  | none =>
      dsimp only
      split
      · simpa using magnitude
      · exact magnitude

namespace Expr

theorem comma_not_mem_operand (isOperation : Bool) {text : String} (absent : ',' ∉ text.toList) :
    ',' ∉ (operand isOperation text).toList := by
  cases isOperation with
  | false => exact absent
  | true => simpa [operand, parenthesized] using absent

/-- A function is written without a comma. -/
theorem comma_not_mem_text {t : Expr} (finite : t.FiniteConstants) : ',' ∉ t.text.toList := by
  induction t with
  | const v => exact Constant.comma_not_mem_text finite
  | var => decide
  | mod child m ih =>
      have left := comma_not_mem_operand child.isBinary (ih finite)
      have right : ',' ∉ (Numeral.ofNat m.val).toList := by
        rw [Numeral.ofNat, String.toList_ofList]
        exact (Digits.ofNat m.val).comma_not_mem
      simp [text, parenthesized, left, right]
  | unary op child ih =>
      have name : ',' ∉ op.name.toList := by cases op <;> decide
      simp [text, parenthesized, name, ih finite]
  | binary op left right ihLeft ihRight =>
      have sign : ',' ∉ op.sign.toList := by cases op <;> decide
      have first := comma_not_mem_operand left.isBinary (ihLeft finite.1)
      have second := comma_not_mem_operand right.isBinary (ihRight finite.2)
      simp [text, sign, first, second]

/-- A function is written without a blank in front. -/
theorem stops_text {t : Expr} (finite : t.FiniteConstants) : Stops isBlank t.text.toList := by
  have stops := (splits_text finite [] (by intro c member; cases member)).2
  rwa [List.append_nil] at stops

end Expr

namespace Candidate

/-! ### Labels -/

/-- A label in front of a function, as a list of characters. -/
def labelChars (name : Char) (body : List Char) : List Char :=
  name :: '(' :: 'n' :: ')' :: ' ' :: '=' :: ' ' :: body

theorem withoutLabel_labelChars {name : Char} (label : name = 'f' ∨ name = 'g')
    {margin body : List Char} (blank : ∀ c ∈ margin, isBlank c = true)
    (stops : Stops isBlank body) : withoutLabel (margin ++ labelChars name body) = body := by
  have plain : isBlank '(' = false ∧ isBlank 'n' = false ∧ isBlank ')' = false ∧
      isBlank '=' = false ∧ isBlank ' ' = true := by decide
  have name_plain : isBlank name = false := by rcases label with rfl | rfl <;> decide
  have body_plain : body.dropWhile isBlank = body := by
    have cut := congrArg Prod.snd (span_of_stops stops)
    rwa [List.span_eq_takeWhile_dropWhile] at cut
  have start : (margin ++ labelChars name body).dropWhile isBlank = labelChars name body := by
    rw [List.dropWhile_append_of_pos blank]
    simp [labelChars, name_plain]
  unfold withoutLabel
  rw [start]
  rcases label with rfl | rfl <;>
    simp [labelChars, afterSymbol, plain, body_plain]

theorem labelled_f (t : Expr) : (labelled "f" t).toList = labelChars 'f' t.text.toList := by
  simp [labelled, labelChars]

theorem labelled_g (t : Expr) : (labelled "g" t).toList = labelChars 'g' t.text.toList := by
  simp [labelled, labelChars]

theorem comma_not_mem_labelChars {name : Char} (label : name = 'f' ∨ name = 'g')
    {body : List Char} (absent : ',' ∉ body) : ',' ∉ labelChars name body := by
  rcases label with rfl | rfl <;> simpa [labelChars] using absent

/-- A part of a key is not blank, and without its label it is the text of its function. -/
theorem part_labelChars {name : Char} (label : name = 'f' ∨ name = 'g') {t : Expr}
    (finite : t.FiniteConstants) (margin : List Char) (blank : ∀ c ∈ margin, isBlank c = true) :
    (margin ++ labelChars name t.text.toList).all isBlank = false ∧
      withoutLabel (margin ++ labelChars name t.text.toList) = t.text.toList := by
  have plain : isBlank '(' = false := by decide
  refine ⟨?_, withoutLabel_labelChars label blank (Expr.stops_text finite)⟩
  simp [labelChars, plain]

/-! ### Reading a key -/

/-- Every constant is a finite double. -/
def FiniteConstants : Candidate → Prop
  | .single f => f.FiniteConstants
  | .pair f g => f.FiniteConstants ∧ g.FiniteConstants

instance decidableFiniteConstants : (c : Candidate) → Decidable c.FiniteConstants
  | .single f => inferInstanceAs (Decidable f.FiniteConstants)
  | .pair f g => inferInstanceAs (Decidable (f.FiniteConstants ∧ g.FiniteConstants))

/-- The candidate with remainder operations instead of reduction nodes. -/
def lower : Candidate → Candidate
  | .single f => .single f.lower
  | .pair f g => .pair f.lower g.lower

theorem functionTexts_key {c : Candidate} (finite : c.FiniteConstants) :
    functionTexts c.key = c.trees.map Expr.text := by
  cases c with
  | single f =>
      have absent := comma_not_mem_labelChars (.inl rfl) (Expr.comma_not_mem_text finite)
      obtain ⟨visible, label⟩ := part_labelChars (.inl rfl) finite [] (by simp)
      rw [List.nil_append] at visible label
      have split : parts (key (.single f)) = [labelChars 'f' f.text.toList] := by
        simp [parts, key, labelled_f, splitAtChar_of_not_mem absent, visible]
      simp [functionTexts, trees, split, label]
  | pair f g =>
      obtain ⟨finite_f, finite_g⟩ := finite
      have absent_f := comma_not_mem_labelChars (.inl rfl) (Expr.comma_not_mem_text finite_f)
      have absent_g := comma_not_mem_labelChars (.inr rfl) (Expr.comma_not_mem_text finite_g)
      have absent : ',' ∉ ' ' :: labelChars 'g' g.text.toList := by simpa using absent_g
      obtain ⟨visible_f, label_f⟩ := part_labelChars (.inl rfl) finite_f [] (by simp)
      have blank : ∀ c ∈ [' '], isBlank c = true := List.forall_mem_singleton.mpr (by decide)
      obtain ⟨visible_g, label_g⟩ := part_labelChars (.inr rfl) finite_g [' '] blank
      rw [List.nil_append] at visible_f label_f
      rw [List.singleton_append] at visible_g label_g
      have shape : (key (.pair f g)).toList =
          labelChars 'f' f.text.toList ++ ',' :: ' ' :: labelChars 'g' g.text.toList := by
        simp [key, labelled_f, labelled_g]
      have split : parts (key (.pair f g)) =
          [labelChars 'f' f.text.toList, ' ' :: labelChars 'g' g.text.toList] := by
        rw [parts, shape, splitAtChar_append absent_f, splitAtChar_of_not_mem absent]
        simp only [List.filter_cons, visible_f, visible_g, Bool.not_false, if_true,
          List.filter_nil]
      simp [functionTexts, trees, split, label_f, label_g]

theorem parseTree_text {t : Expr} (finite : t.FiniteConstants) :
    parseTree t.text = .ok t.lower := by
  rw [parseTree, (Expr.parse_text t finite).1]

theorem parse_key_eq {c : Candidate} (finite : c.FiniteConstants) :
    parse c.key = .ok c.lower := by
  have texts := functionTexts_key finite
  cases c with
  | single f =>
      rw [trees, List.map_singleton] at texts
      rw [parse, texts]
      simp only [parseTree_text finite]
      rfl
  | pair f g =>
      rw [trees, List.map_cons, List.map_singleton] at texts
      rw [parse, texts]
      simp only [parseTree_text finite.1, parseTree_text finite.2]
      rfl

theorem ofJson_toJson_eq {c : Candidate} (finite : c.FiniteConstants) :
    ofJson c.toJson = .ok c.lower := by
  cases c with
  | single f =>
      change (do
        let f ← parseTree f.text
        return Candidate.single f) = Except.ok (Candidate.single f.lower)
      rw [parseTree_text finite]
      rfl
  | pair f g =>
      change (do
        let f ← parseTree f.text
        let g ← parseTree g.text
        return Candidate.pair f g) = Except.ok (Candidate.pair f.lower g.lower)
      rw [parseTree_text finite.1, parseTree_text finite.2]
      rfl

end Candidate

/-! ### Candidates that are alike

The scoring of one function looks at its values and at its text, and the scoring of two at their
values.
-/

/-- Functions with the same values and the same text. -/
structure Expr.Same (f g : Expr) : Prop where
  eval : f.eval = g.eval
  text : f.text = g.text

/-- Functions that are lowered to one function have its values. -/
theorem Expr.eval_eq_of_lower_eq {f g : Expr} (lowered : f.lower = g.lower) :
    f.eval = g.eval := by
  funext n
  rw [← f.eval_lower, lowered, g.eval_lower]

theorem PrimeShare.score_same (share : PrimeShare) {f g : Expr} (same : f.Same g) :
    share.score f = share.score g := by
  unfold PrimeShare.score PrimeShare.values PrimeShare.sequence
  rw [same.eval, same.text]

theorem FoldTest.score_same (fold : FoldTest) {f f' g g' : Expr} (first : f.Same f')
    (second : g.Same g') : fold.score f g = fold.score f' g' := by
  unfold FoldTest.score FoldTest.scoreClouds FoldTest.image imagePoints
  rw [first.eval, second.eval]

namespace Candidate

/-- As many functions, each the same as its counterpart. -/
inductive Alike : Candidate → Candidate → Prop where
  | single {f f' : Expr} (first : f.Same f') : Alike (.single f) (.single f')
  | pair {f f' g g' : Expr} (first : f.Same f') (second : g.Same g') :
      Alike (.pair f g) (.pair f' g')

/-- Candidates with one key are read back as one candidate. -/
theorem alike_of_key_eq {c d : Candidate} (finite : c.FiniteConstants)
    (finite' : d.FiniteConstants) (same : c.key = d.key) : c.Alike d := by
  have lowered : c.lower = d.lower := by
    have read := parse_key_eq finite
    rw [same, parse_key_eq finite'] at read
    exact (Except.ok.inj read).symm
  have texts : c.trees.map Expr.text = d.trees.map Expr.text := by
    rw [← functionTexts_key finite, same, functionTexts_key finite']
  cases c with
  | single f =>
      cases d with
      | single f' =>
          simp only [lower, Candidate.single.injEq] at lowered
          simp only [trees, List.map_cons, List.map_nil, List.cons.injEq, and_true] at texts
          exact .single ⟨Expr.eval_eq_of_lower_eq lowered, texts⟩
      | pair f' g' => cases lowered
  | pair f g =>
      cases d with
      | single f' => cases lowered
      | pair f' g' =>
          simp only [lower, Candidate.pair.injEq] at lowered
          simp only [trees, List.map_cons, List.map_nil, List.cons.injEq, and_true] at texts
          apply Alike.pair
          · exact ⟨Expr.eval_eq_of_lower_eq lowered.1, texts.1⟩
          · exact ⟨Expr.eval_eq_of_lower_eq lowered.2, texts.2⟩

namespace Alike

variable {c d : Candidate}

theorem mode_eq (alike : c.Alike d) : c.mode = d.mode := by
  cases alike with
  | single _ => rfl
  | pair _ _ => rfl

/-- What is the same for functions that are the same is the same along the functions. -/
theorem map_trees_eq {β : Type} {measure : Expr → β} (alike : c.Alike d)
    (same : ∀ f g : Expr, f.Same g → measure f = measure g) :
    c.trees.map measure = d.trees.map measure := by
  cases alike with
  | single first => simp only [trees, List.map_cons, List.map_nil, same _ _ first]
  | pair first second =>
      simp only [trees, List.map_cons, List.map_nil, same _ _ first, same _ _ second]

theorem share_score_eq (alike : c.Alike d) (share : PrimeShare) :
    share.evaluator.score c = share.evaluator.score d := by
  have first : c.f.Same d.f := by
    cases alike with
    | single first => exact first
    | pair first _ => exact first
  unfold PrimeShare.evaluator
  simp only [share.score_same first]

theorem fold_score_eq {σ : Type} (alike : c.Alike d) (fold : FoldTest) :
    (fold.evaluator (σ := σ)).score c = fold.evaluator.score d := by
  cases alike with
  | single _ => rfl
  | pair first second =>
      unfold FoldTest.evaluator
      simp only [fold.score_same first second]

/-- Whatever the settings of a search, its evaluator does not tell the candidates apart. -/
theorem evaluate_eq (alike : c.Alike d) {fitness : FitnessConfig} {mode : Mode} {size : Quantity}
    {w v : Surroundings Oracle} {e : Evaluator Oracle}
    (made : (makeEvaluator fitness mode size).run.run w = (.ok e, v)) :
    e.evaluate c = e.evaluate d := by
  have scores : e.score c = e.score d := by
    rcases (makeEvaluator_eq_ok made).2 with ⟨share, rfl⟩ | rfl | ⟨fold, rfl⟩
    · exact alike.share_score_eq share
    · rfl
    · exact alike.fold_score_eq fold
  unfold Evaluator.evaluate
  rw [alike.mode_eq, scores]

end Alike

/-- The key of a candidate and its saved form are read back as the candidate with remainder
operations instead of reduction nodes.  So candidates with the same key have as many functions
and the same values, and they are scored alike, in every part of the score. -/
theorem key_identifies (c : Candidate) (finite : c.FiniteConstants) :
    parse c.key = .ok c.lower ∧ ofJson c.toJson = .ok c.lower ∧
      ∀ d : Candidate, d.FiniteConstants → c.key = d.key →
        c.trees.length = d.trees.length ∧ c.trees.map Expr.eval = d.trees.map Expr.eval ∧
          (∀ share : PrimeShare, c.trees.map share.score = d.trees.map share.score) ∧
            ∀ fitness mode size w e v,
              (makeEvaluator fitness mode size).run.run w = (.ok e, v) →
                e.evaluate c = e.evaluate d := by
  refine ⟨parse_key_eq finite, ofJson_toJson_eq finite, ?_⟩
  intro d finite' same
  have alike := alike_of_key_eq finite finite' same
  have values := alike.map_trees_eq fun _ _ same => same.eval
  have count := congrArg List.length values
  rw [List.length_map, List.length_map] at count
  refine ⟨count, values, ?_, ?_⟩
  · intro share
    exact alike.map_trees_eq fun _ _ same => share.score_same same
  · intro fitness mode size w e v made
    exact alike.evaluate_eq made

/-- Two candidates with one key, one of them with a reduction node. -/
theorem key_identifies_reduction :
    let c : Candidate := .pair (.binary .add (.mod (.const (-0.5)) ⟨7, by decide, by decide⟩) .var) .var
    let d : Candidate := .pair (.binary .add (.binary .mod (.const (-0.5)) (.const 7.0)) .var) .var
    parse c.key = .ok d ∧ ofJson c.toJson = .ok d ∧
      c.trees.map Expr.eval = d.trees.map Expr.eval := by
  intro c d
  have finite : c.FiniteConstants := by decide
  have finite' : d.FiniteConstants := by decide
  have seven : (⟨7, by decide, by decide⟩ : Modulus).toFloat = 7.0 := by decide
  have lowered : c.lower = d := by simp only [c, d, lower, Expr.lower, seven]
  have same : c.key = d.key := by decide +kernel
  obtain ⟨read, saved, alike⟩ := key_identifies c finite
  rw [lowered] at read saved
  exact ⟨read, saved, (alike d finite' same).2.1⟩

end Candidate

end PrimeSearch
