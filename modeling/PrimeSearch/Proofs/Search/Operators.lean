/-
Module: PrimeSearch.Proofs.Search.Operators
Purpose: Making, changing and crossing candidates only takes numbers off the source.
Main exports: Trial.Advances, Trial.Yields, Operators.random_advances, Operators.mutate_advances,
  Operators.symmetricMutation_advances, Operators.crossover_advances
-/
import PrimeSearch.Search.Operators
import PrimeSearch.Proofs.Random.Stream

namespace PrimeSearch

open Draw

/-! ### Expressions -/

namespace Expr

theorem randomLeaf_advances : Advances randomLeaf := by
  refine .bind .unit fun r => .ite (fun _ => .pure _) fun _ => .ite (fun _ => ?_) fun _ => ?_
  · exact .bind (.choose _ _) fun _ => .pure _
  · exact .bind (.integer _ _ _) fun _ => .pure _

theorem randomUnaryOp_advances : Advances randomUnaryOp := .choose _ _

theorem randomBinaryOp_advances : Advances randomBinaryOp := .choose _ _

theorem randomModulus_advances : Advances randomModulus :=
  .bind (.index _ _) fun _ => .pure _

theorem random_advances (depth : Nat) : Advances (random depth) := by
  induction depth with
  | zero => exact randomLeaf_advances
  | succ depth ih =>
      refine .bind .unit fun r => .ite (fun _ => ?_) fun _ => .ite (fun _ => ?_) fun _ => ?_
      · exact .bind ih fun _ => .bind randomModulus_advances fun _ => .pure _
      · exact .bind randomUnaryOp_advances fun _ => .bind ih fun _ => .pure _
      · exact .bind randomBinaryOp_advances fun _ => .bind ih fun _ => .bind ih fun _ => .pure _

theorem randomPath_advances (t : Expr) : Advances t.randomPath := by
  induction t with
  | const v => exact .pure _
  | var => exact .pure _
  | mod child m ih =>
      refine .bind (.below _) fun _ => .ite (fun _ => .pure _) fun _ => ?_
      exact .bind (.index _ _) fun _ => .bind ih fun _ => .pure _
  | unary op child ih =>
      refine .bind (.below _) fun _ => .ite (fun _ => .pure _) fun _ => ?_
      exact .bind (.index _ _) fun _ => .bind ih fun _ => .pure _
  | binary op left right ihLeft ihRight =>
      refine .bind (.below _) fun _ => .ite (fun _ => .pure _) fun _ => ?_
      refine .bind (.index _ _) fun _ => .ite (fun _ => ?_) fun _ => ?_
      · exact .bind ihLeft fun _ => .pure _
      · exact .bind ihRight fun _ => .pure _

theorem perturbCoefficient_advances (value : Float) : Advances (perturbCoefficient value) := by
  refine .ite (fun _ => ?_) fun _ => ?_
  · refine .bind (.integer _ _ _) fun _ => .ite (fun _ => ?_) fun _ => .pure _
    exact .bind (.below _) fun _ => .pure _
  · refine .bind (.between _ _) fun _ => .ite (fun _ => ?_) fun _ => .pure _
    exact .bind (.below _) fun _ => .pure _

theorem perturb_advances (t : Expr) : Advances t.perturb := by
  unfold perturb
  split
  · exact .pure _
  · refine .bind (.choose _ _) fun _ => ?_
    exact .bind (perturbCoefficient_advances _) fun _ => .pure _

theorem mutateNode_advances (t : Expr) : Advances t.mutateNode := by
  induction t with
  | const v =>
      refine .ite (fun _ => ?_) fun _ => ?_
      · exact .bind (.integer _ _ _) fun _ => .pure _
      · exact .bind (.between _ _) fun _ => .pure _
  | var =>
      refine .bind (.below _) fun _ => .ite (fun _ => ?_) fun _ => .pure _
      exact .bind (.integer _ _ _) fun _ => .pure _
  | mod child m ih =>
      refine .bind (.below _) fun _ => .ite (fun _ => ?_) fun _ => ih
      exact .bind (.integer _ _ _) fun _ => .bind ih fun _ => .pure _
  | unary op child ih =>
      refine .bind (.below _) fun _ => .ite (fun _ => ?_) fun _ => ?_
      · exact .bind randomUnaryOp_advances fun _ => .pure _
      · refine .bind (.below _) fun _ => .ite (fun _ => ?_) fun _ => .pure _
        exact .bind ih fun _ => .pure _
  | binary op left right ihLeft ihRight =>
      refine .bind .unit fun _ => .ite (fun _ => ?_) fun _ => .ite (fun _ => ?_) fun _ => ?_
      · exact .bind ihLeft fun _ => .pure _
      · exact .bind ihRight fun _ => .pure _
      · exact .bind randomBinaryOp_advances fun _ => .pure _

theorem mutate_advances (t : Expr) (depth : Nat) : Advances (t.mutate depth) := by
  refine .bind .unit fun _ => .ite (fun _ => t.perturb_advances) fun _ =>
    .ite (fun _ => ?_) fun _ => .ite (fun _ => t.mutateNode_advances) fun _ => ?_
  · refine .bind t.randomPath_advances fun _ => ?_
    exact .bind (random_advances depth) fun _ => .pure _
  · split <;> exact .pure _

theorem crossover_advances (first second : Expr) : Advances (first.crossover second) :=
  .bind (.choose _ _) fun _ => .bind (.choose _ _) fun _ => .pure _

end Expr

/-! ### Related functions -/

theorem Transform.convertOne_advances (t : Transform) (e : Expr) (nodes : List (Path × Expr)) :
    Advances (t.convertOne e nodes) := by
  unfold Transform.convertOne
  split
  · exact .pure _
  · exact .bind (.choose _ _) fun _ => .pure _

namespace SymmetricPair

theorem derive_advances (base : Expr) : Advances (derive base) :=
  .bind (.choose _ _) fun _ => .pure _

theorem mutate_advances (f g : Expr) : Advances (mutate f g) := by
  refine .bind (.choose _ _) fun t => .ite (fun _ => ?_) fun _ => ?_
  · exact .bind (.choose _ _) fun _ => .bind (Expr.random_advances _) fun _ => .pure _
  · refine .bind (t.convertOne_advances f _) fun _ => ?_
    exact .bind (t.convertOne_advances g _) fun _ => .pure _

end SymmetricPair

/-! ### Candidates -/

namespace Trial

variable {α β : Type}

/-- A computation that may fail only ever takes numbers off its source, also when it fails. -/
def Advances (t : Trial α) : Prop := Draw.Advances t.run

theorem Advances.pure (a : α) : Advances (Pure.pure a : Trial α) := Draw.Advances.pure _

theorem Advances.throw (e : NoPartner) : Advances (throw e : Trial α) := Draw.Advances.pure _

theorem Advances.draw {d : Draw α} (advances : Draw.Advances d) : Advances (liftM d : Trial α) :=
  .bind advances fun _ => .pure _

theorem Advances.bind {t : Trial α} {f : α → Trial β} (first : Advances t)
    (rest : ∀ a, Advances (f a)) : Advances (t >>= f) := by
  unfold Advances
  rw [ExceptT.run_bind]
  refine Draw.Advances.bind first fun outcome => ?_
  cases outcome with
  | ok a => exact rest a
  | error e => exact .pure _

theorem Advances.ite {c : Prop} [Decidable c] {t u : Trial α} (yes : c → Advances t)
    (no : ¬c → Advances u) : Advances (if c then t else u) := by
  split
  next holds => exact yes holds
  next fails => exact no fails

/-- Whatever the source, there is a result, and it is as `Q` says. -/
def Yields (t : Trial α) (Q : α → Prop) : Prop :=
  Draw.Yields t.run fun outcome => ∃ a, outcome = .ok a ∧ Q a

namespace Yields

variable {Q : α → Prop} {R : β → Prop}

theorem pure {a : α} (result : Q a) : (Pure.pure a : Trial α).Yields Q :=
  Draw.Yields.pure ⟨a, rfl, result⟩

theorem draw {d : Draw α} (drawn : d.Yields Q) : (liftM d : Trial α).Yields Q :=
  Draw.Yields.bind drawn fun a result => .pure ⟨a, rfl, result⟩

theorem any (d : Draw α) : (liftM d : Trial α).Yields fun _ => True := .draw (.any d)

theorem bind {t : Trial β} {f : β → Trial α} (first : t.Yields R)
    (rest : ∀ b, R b → (f b).Yields Q) : (t >>= f).Yields Q := by
  unfold Yields
  rw [ExceptT.run_bind]
  refine Draw.Yields.bind first fun outcome succeeds => ?_
  obtain ⟨b, rfl, result⟩ := succeeds
  exact rest b result

theorem ite {c : Prop} [Decidable c] {t u : Trial α} (yes : c → t.Yields Q)
    (no : ¬c → u.Yields Q) : (if c then t else u).Yields Q := by
  split
  next holds => exact yes holds
  next fails => exact no fails

end Yields

end Trial

namespace Operators

theorem symmetricCandidate_advances (f : Expr) : Draw.Advances (symmetricCandidate f) :=
  .bind (SymmetricPair.derive_advances f) fun _ => .pure _

theorem random_advances (o : Operators) : Draw.Advances o.random := by
  refine .bind (Expr.random_advances _) fun f => ?_
  cases o.mode with
  | primeGen => exact .pure _
  | primeFold =>
      refine .ite (fun _ => symmetricCandidate_advances f) fun _ => ?_
      exact .bind (Expr.random_advances _) fun _ => .pure _

theorem partner_advances (c : Candidate) : Trial.Advances (partner c) := by
  unfold partner
  split
  · exact .pure _
  · exact .throw _

theorem symmetricMutation_advances (c : Candidate) : Trial.Advances (symmetricMutation c) :=
  .bind (partner_advances c) fun _ =>
    .bind (.draw (SymmetricPair.mutate_advances _ _)) fun _ => .pure _

theorem mutateTree_advances (o : Operators) (t : Expr) :
    Trial.Advances (liftM (o.mutateTree t) : Trial Expr) :=
  .draw (t.mutate_advances o.maxDepth)

theorem mutate_advances (o : Operators) (c : Candidate) (rate : Float) (both : Bool) :
    Trial.Advances (o.mutate c rate both) := by
  unfold mutate
  cases o.mode with
  | primeGen => exact .bind (o.mutateTree_advances _) fun _ => .pure _
  | primeFold =>
      refine .ite (fun _ => ?_) fun _ => ?_
      · refine .bind (o.mutateTree_advances _) fun _ => ?_
        exact .draw (symmetricCandidate_advances _)
      refine .bind (.draw (.below _)) fun _ =>
        .ite (fun _ => symmetricMutation_advances c) fun _ => .ite (fun _ => ?_) fun _ => ?_
      · refine .bind (o.mutateTree_advances _) fun _ => .bind (partner_advances c) fun _ => ?_
        exact .bind (o.mutateTree_advances _) fun _ => .pure _
      · refine .bind (.draw (.below _)) fun _ => .ite (fun _ => ?_) fun _ => ?_
        · refine .bind (o.mutateTree_advances _) fun _ => ?_
          exact .bind (partner_advances c) fun _ => .pure _
        · refine .bind (partner_advances c) fun _ => ?_
          exact .bind (o.mutateTree_advances _) fun _ => .pure _

theorem crossover_advances (o : Operators) (first second : Candidate) :
    Trial.Advances (o.crossover first second) := by
  unfold crossover
  cases o.mode with
  | primeGen => exact .bind (.draw (Expr.crossover_advances _ _)) fun _ => .pure _
  | primeFold =>
      refine .ite (fun _ => ?_) fun _ => ?_
      · refine .bind (.draw (Expr.crossover_advances _ _)) fun _ => ?_
        refine .bind (.draw (symmetricCandidate_advances _)) fun _ => ?_
        exact .bind (.draw (symmetricCandidate_advances _)) fun _ => .pure _
      refine .bind (.draw (.below _)) fun _ => .ite (fun _ => ?_) fun _ => ?_
      · refine .bind (partner_advances second) fun _ => ?_
        exact .bind (partner_advances first) fun _ => .pure _
      · refine .bind (.draw (Expr.crossover_advances _ _)) fun _ => ?_
        refine .bind (partner_advances first) fun _ => .bind (partner_advances second) fun _ => ?_
        exact .bind (.draw (Expr.crossover_advances _ _)) fun _ => .pure _

end Operators

end PrimeSearch
