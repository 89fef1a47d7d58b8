/-
Module: PrimeSearch.Proofs.Search.Safety
Purpose: A search only holds and scores lawful candidates of its mode, so none of the checks of its
  operators and of its evaluator ever fails.
Main exports: Operators.Faultless, Operators.faultless, Candidate.Lawful, Plan.reached_lawful
-/
import PrimeSearch.Proofs.Expr.Checks
import PrimeSearch.Proofs.Search.Modes

namespace PrimeSearch

variable {σ α β : Type}

/-! ### Operators with all their checks

The operators on candidates, spelled out over the checking operators on expressions.  A candidate is
made from a list of functions, which may be too long or too short, and its second function may be
missing.
-/

namespace Checked

/-- From every source both succeed, with the same result and the same numbers left. -/
def Follows (m : Checked α) (t : Trial α) : Prop :=
  ∀ source, ∃ a rest, m.run.run source = (.ok a, rest) ∧ t.run.run source = (.ok a, rest)

namespace Follows

variable {m : Checked α} {t : Trial α}

theorem pure (a : α) : Follows (Pure.pure a) (Pure.pure a) := fun source => ⟨a, source, rfl, rfl⟩

theorem of_passes {d : Draw α} (passes : m.Passes d) : m.Follows (liftM d) :=
  fun source => ⟨_, _, passes source, rfl⟩

theorem draw (d : Draw α) : Follows (liftM d) (liftM d) := .of_passes (.draw d)

theorem bind {f : α → Checked β} {g : α → Trial β} (first : m.Follows t)
    (rest : ∀ a, (f a).Follows (g a)) : (m >>= f).Follows (t >>= g) := by
  intro source
  obtain ⟨a, middle, checked, tried⟩ := first source
  rw [ExceptT.run_bind, StateT.run_bind, checked, ExceptT.run_bind, StateT.run_bind, tried]
  exact rest a middle

theorem ite {c : Prop} [Decidable c] {n : Checked α} {u : Trial α} (yes : c → m.Follows t)
    (no : ¬c → n.Follows u) : Follows (if c then m else n) (if c then t else u) := by
  split
  next holds => exact yes holds
  next fails => exact no fails

end Follows

end Checked

open Checked (Passes Follows)

namespace Operators

/-- The candidate with the given functions. -/
def make (trees : List Expr) : Checked Candidate :=
  match Candidate.ofTrees trees with
  | .ok c => return c
  | .error e => throw (.candidate e)

/-- A function and its image under a random transform. -/
def symmetricCandidateChecked (f : Expr) : Checked Candidate := do
  let p ← SymmetricPair.deriveChecked f
  make [p.f, p.g]

theorem symmetricCandidate_passes (f : Expr) :
    (symmetricCandidateChecked f).Passes (symmetricCandidate f) :=
  .bind (SymmetricPair.derive_passes f) fun _ => .pure _

/-- A random candidate. -/
def randomChecked (o : Operators) : Checked Candidate := do
  let f ← Expr.randomChecked o.maxDepth
  match o.mode with
  | .primeGen => make [f]
  | .primeFold =>
      if o.symmetric then symmetricCandidateChecked f
      else
        let g ← Expr.randomChecked o.maxDepth
        make [f, g]

theorem random_passes (o : Operators) : o.randomChecked.Passes o.random := by
  refine .bind (Expr.random_passes _) fun f => ?_
  cases o.mode with
  | primeGen => exact .pure _
  | primeFold =>
      refine .ite (fun _ => symmetricCandidate_passes f) fun _ => ?_
      exact .bind (Expr.random_passes _) fun g => .pure _

/-- The second function of a candidate. -/
def partnerChecked (c : Candidate) : Checked Expr :=
  match c.g with
  | .ok g => return g
  | .error e => throw (.noPartner e)

theorem partner_follows {c : Candidate} (two : c.mode = .primeFold) :
    (partnerChecked c).Follows (partner c) := by
  cases c with
  | single f => cases two
  | pair f g => exact .pure g

/-- A random change of one function. -/
def mutateTreeChecked (o : Operators) (t : Expr) : Checked Expr := t.mutateChecked o.maxDepth

theorem mutateTree_follows (o : Operators) (t : Expr) :
    (o.mutateTreeChecked t).Follows (liftM (o.mutateTree t)) :=
  .of_passes (t.mutate_passes o.maxDepth)

/-- Change both functions by one transform. -/
def symmetricMutationChecked (c : Candidate) : Checked Candidate := do
  let g ← partnerChecked c
  let p ← SymmetricPair.mutateChecked c.f g
  make [p.f, p.g]

theorem symmetricMutation_follows {c : Candidate} (two : c.mode = .primeFold) :
    (symmetricMutationChecked c).Follows (symmetricMutation c) :=
  .bind (partner_follows two) fun g =>
    .bind (.of_passes (SymmetricPair.mutate_passes c.f g)) fun _ => .pure _

/-- A random change of a candidate. -/
def mutateChecked (o : Operators) (c : Candidate) (rate : Float) (both : Bool) :
    Checked Candidate := do
  match o.mode with
  | .primeGen => make [← o.mutateTreeChecked c.f]
  | .primeFold =>
      if o.symmetric then
        let f ← o.mutateTreeChecked c.f
        symmetricCandidateChecked f
      else
        let together ← Draw.below rate
        if together then symmetricMutationChecked c
        else if both then
          let f ← o.mutateTreeChecked c.f
          let g ← o.mutateTreeChecked (← partnerChecked c)
          make [f, g]
        else
          let first ← Draw.below 0.5
          if first then
            let f ← o.mutateTreeChecked c.f
            make [f, ← partnerChecked c]
          else
            let g ← o.mutateTreeChecked (← partnerChecked c)
            make [c.f, g]

theorem mutate_follows (o : Operators) {c : Candidate} (inMode : c.mode = o.mode) (rate : Float)
    (both : Bool) : (o.mutateChecked c rate both).Follows (o.mutate c rate both) := by
  unfold mutateChecked mutate
  cases mode : o.mode with
  | primeGen => exact .bind (o.mutateTree_follows _) fun f => .pure _
  | primeFold =>
      have two : c.mode = .primeFold := inMode.trans mode
      refine .ite (fun _ => ?_) fun _ => ?_
      · exact .bind (o.mutateTree_follows _) fun f => .of_passes (symmetricCandidate_passes f)
      refine .bind (.draw _) fun together => .ite (fun _ => symmetricMutation_follows two) fun _ => ?_
      refine .ite (fun _ => ?_) fun _ => .bind (.draw _) fun first => .ite (fun _ => ?_) fun _ => ?_
      · exact .bind (o.mutateTree_follows _) fun f => .bind (partner_follows two) fun _ =>
          .bind (o.mutateTree_follows _) fun g => .pure _
      · exact .bind (o.mutateTree_follows _) fun f => .bind (partner_follows two) fun g => .pure _
      · exact .bind (partner_follows two) fun _ => .bind (o.mutateTree_follows _) fun g => .pure _

/-- Two children that share the parts of two candidates. -/
def crossoverChecked (o : Operators) (first second : Candidate) :
    Checked (Candidate × Candidate) := do
  match o.mode with
  | .primeGen =>
      let (a, b) ← Expr.crossoverChecked first.f second.f
      return (← make [a], ← make [b])
  | .primeFold =>
      if o.symmetric then
        let (a, b) ← Expr.crossoverChecked first.f second.f
        let a ← symmetricCandidateChecked a
        let b ← symmetricCandidateChecked b
        return (a, b)
      else
        let exchange ← Draw.below 0.5
        if exchange then
          let g ← partnerChecked second
          let h ← partnerChecked first
          return (← make [first.f, g], ← make [second.f, h])
        else
          let (a, b) ← Expr.crossoverChecked first.f second.f
          let (c, d) ← Expr.crossoverChecked (← partnerChecked first) (← partnerChecked second)
          return (← make [a, c], ← make [b, d])

theorem crossover_follows (o : Operators) {first second : Candidate}
    (inMode : first.mode = o.mode) (inMode' : second.mode = o.mode) :
    (o.crossoverChecked first second).Follows (o.crossover first second) := by
  unfold crossoverChecked crossover
  have exchanged (f g : Expr) : (f.crossoverChecked g).Follows (liftM (f.crossover g)) :=
    .of_passes (f.crossover_passes g)
  cases mode : o.mode with
  | primeGen => exact .bind (exchanged _ _) fun (a, b) => .pure _
  | primeFold =>
      have two := inMode.trans mode
      have two' := inMode'.trans mode
      refine .ite (fun _ => ?_) fun _ => .bind (.draw _) fun exchange => .ite (fun _ => ?_) fun _ => ?_
      · refine .bind (exchanged _ _) fun (a, b) => ?_
        refine .bind (.of_passes (symmetricCandidate_passes a)) fun c => ?_
        exact .bind (.of_passes (symmetricCandidate_passes b)) fun d => .pure _
      · exact .bind (partner_follows two') fun g => .bind (partner_follows two) fun h => .pure _
      · refine .bind (exchanged _ _) fun (a, b) => ?_
        refine .bind (partner_follows two) fun f => .bind (partner_follows two') fun g => ?_
        exact .bind (exchanged _ _) fun (c, d) => .pure _

/-- On candidates of the mode no check of an operator fails, whatever the source. -/
structure Faultless (o : Operators) : Prop where
  random : o.randomChecked.Passes o.random
  mutate : ∀ c, c.mode = o.mode → ∀ rate both,
    (o.mutateChecked c rate both).Follows (o.mutate c rate both)
  crossover : ∀ c d, c.mode = o.mode → d.mode = o.mode →
    (o.crossoverChecked c d).Follows (o.crossover c d)
  transform : ∀ c, c.mode = .primeFold →
    (symmetricMutationChecked c).Follows (symmetricMutation c)

theorem faultless (o : Operators) : o.Faultless where
  random := o.random_passes
  mutate _ inMode rate both := o.mutate_follows inMode rate both
  crossover _ _ inMode inMode' := o.crossover_follows inMode inMode'
  transform _ two := symmetricMutation_follows two

end Operators

/-! ### Lawful candidates -/

/-- A node is made with an operator that there is, and with a modulus within bounds. -/
def Expr.LawfulNode : Expr → Prop
  | .const _ | .var => True
  | .mod _ m => 2 ≤ m.val ∧ m.val ≤ 101
  | .unary op _ => op ∈ UnaryOp.all
  | .binary op _ _ => op ∈ BinaryOp.all

theorem Expr.lawfulNode (t : Expr) : t.LawfulNode := by
  have functions (op : UnaryOp) : op ∈ UnaryOp.all := by cases op <;> decide
  have operations (op : BinaryOp) : op ∈ BinaryOp.all := by cases op <;> decide
  cases t with
  | const v => trivial
  | var => trivial
  | mod child m => exact ⟨m.min_le, m.le_max⟩
  | unary op child => exact functions op
  | binary op left right => exact operations op

/-- A candidate of a mode has as many functions as the mode asks for, and all their nodes are
lawful. -/
structure Candidate.Lawful (mode : Mode) (c : Candidate) : Prop where
  inMode : c.mode = mode
  arity : c.trees.length = mode.arity
  nodes : ∀ t ∈ c.trees, ∀ place ∈ t.positions, place.2.LawfulNode

theorem Candidate.Lawful.of_mode {mode : Mode} {c : Candidate} (inMode : c.mode = mode) :
    c.Lawful mode := by
  subst inMode
  refine ⟨rfl, ?_, fun t _ place _ => place.2.lawfulNode⟩
  cases c with
  | single f => rfl
  | pair f g => rfl

/-! ### Searches -/

/-- What keeps a search from taking any step is a number that cannot be counted out. -/
theorem Strategy.stepFault_eq_some {config : SearchConfig} {e : SearchError}
    (fault : stepFault config = some e) : e = .misfit (.notCountable "float") := by
  have counted {least : Nat} {c : Count least} (fault : countFault c = some e) :
      e = .misfit (.notCountable "float") := by
    unfold countFault at fault
    split at fault
    · cases fault
    · exact (Option.some.inj fault).symm
  unfold stepFault at fault
  split at fault
  · exact counted fault
  · exact counted fault
  · exact counted fault

/-- A search whose evaluator is of its mode, as those are that are made for it, only ever holds lawful
candidates of its mode and scores no others, also in steps that fail.  On such candidates no check of
an operator fails.  So a search can be begun unless the length of its history does not fit, and a
step fails only where tries or places cannot be counted out, a rate was left open, or the temperature
is too hot to compute with: never because a candidate is of another mode than the evaluator or lacks a
second function.  With proper settings no step fails. -/
theorem Plan.reached_lawful (p : Plan σ) (fits : p.Fits) (w : Surroundings σ) :
    (∀ fitness size u e v, (makeEvaluator fitness p.config.mode size).run.run u = (.ok e, v) →
        Plan.Fits ⟨p.config, e⟩) ∧
      p.config.operators.Faultless ∧
      (∀ e, (Strategy.begin p w).1 = .error e → e = .misfit .notALength ∨ e = .misfit .tooLong) ∧
      (∀ call ∈ (Strategy.begin p.logged (w.withCalls [])).2.memory.2,
        call.1.Lawful p.config.mode) ∧
      ∀ steps s v, p.reached w steps = .ok (s, v) →
        p.logged.reached (w.withCalls []) steps = .ok (s, v.withCalls (p.calls w steps)) ∧
          (∀ c ∈ s.candidates, c.Lawful p.config.mode) ∧
          (∀ call ∈ p.calls w steps, call.1.Lawful p.config.mode) ∧
          (∀ e, (Strategy.step p s v).1 = .error e →
            e = .misfit (.notCountable "float") ∨ e = .openRate ∨
              p.config.isTooHot = true ∧ e = .misfit .numberTooLarge) ∧
          (p.config.Proper → ∃ r, (Strategy.step p s v).1 = .ok r) := by
  have closed := p.closed_inMode
  have none : CallsHold (fun c => c.mode = p.config.mode) (w.withCalls []).memory := by
    intro call listed
    cases listed
  refine ⟨fun _ _ _ _ _ made => (makeEvaluator_eq_ok made).1, Operators.faultless _, ?_, ?_, ?_⟩
  · intro e failed
    obtain ⟨-, -, reason⟩ := Strategy.begin_holds closed (w := w) trivial
    exact (reason e failed).resolve_left fits.not_mismatches
  · intro call listed
    exact .of_mode ((Strategy.begin_holds closed.logged none).1 call listed)
  · intro steps s v reached
    have held := (Plan.reached_holds closed trivial reached).1
    refine ⟨Plan.reached_logged reached, ?_, ?_, ?_, ?_⟩
    · intro c listed
      exact .of_mode (held c listed)
    · intro call listed
      exact .of_mode (Plan.calls_holds closed w steps call listed)
    · intro e failed
      obtain ⟨-, -, reason⟩ := Strategy.step_holds closed held (w := v) trivial
      cases reason e failed with
      | uncounted cause => exact .inl (Strategy.stepFault_eq_some cause)
      | openRate _ => exact .inr (.inl rfl)
      | tooHot hot => exact .inr (.inr ⟨hot, rfl⟩)
      | mismatch mismatch => exact absurd mismatch fits.not_mismatches
    · intro proper
      exact (Strategy.step_succeeds fits proper (Strategy.inMode_iff.mpr held) v).1

/-- Two steps of a genetic search for functions of one number. -/
theorem Plan.reached_lawful_leaves :
    let config : SearchConfig := {
      algorithm := .genetic, maxDepth := .ofNat 1, populationSize := .ofNat 2 }
    let w : Surroundings Oracle := ⟨⟨[0.1, 0.3, 0.0, 0.6], 7, 0⟩, .empty 1000⟩
    ∃ e s v, (makeEvaluator default config.mode (.whole 3)).run.run w = (.ok e, w) ∧
      Plan.reached ⟨config, e⟩ w 2 = .ok (s, v) ∧ s.candidates.length = 4 ∧
        (∀ c ∈ s.candidates, c.Lawful .primeGen) ∧
          ∃ r, (Strategy.step ⟨config, e⟩ s v).1 = .ok r := by
  intro config w
  have fits : Plan.Fits ⟨config, PrimeShare.evaluator ⟨3, 3.0⟩⟩ := rfl
  have begins : (Plan.reached ⟨config, PrimeShare.evaluator ⟨3, 3.0⟩⟩ w 2).toOption.map
      (fun x => x.1.candidates.length) = some 4 := by decide +kernel
  cases reached : Plan.reached ⟨config, PrimeShare.evaluator ⟨3, 3.0⟩⟩ w 2 with
  | error e =>
      rw [reached] at begins
      cases begins
  | ok x =>
      rw [reached] at begins
      obtain ⟨-, -, -, -, lawful⟩ := Plan.reached_lawful _ fits w
      obtain ⟨-, held, -, -, succeeds⟩ := lawful 2 x.1 x.2 reached
      exact ⟨_, x.1, x.2, rfl, reached, Option.some.inj begins, held, succeeds (by decide)⟩

end PrimeSearch
