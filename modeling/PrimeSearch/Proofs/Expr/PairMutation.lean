/-
Module: PrimeSearch.Proofs.Expr.PairMutation
Purpose: What a random change of two related functions does to each of them.
Main exports: Transform.Occurs, Transform.Converted, Transform.Edited, Transform.convertOne_yields,
  SymmetricPair.fresh_yields, SymmetricPair.mutate_local
-/
import PrimeSearch.Proofs.Expr.Growth
import PrimeSearch.Proofs.Expr.Skeleton
import PrimeSearch.Proofs.Expr.Transforms

namespace PrimeSearch

open PrimeSearch.Expr

namespace Transform

/-!
One node of the source function is converted, where there is one.  A conversion puts another function
at the place of the node or makes it larger, so the skeleton of the expression changes, and the change
cannot be undone by constants that happen to be equal.
-/

variable {t : Transform} {e u argument : Expr} {path : Path}

/-- The expression has a node of the source function. -/
def Occurs (t : Transform) (e : Expr) : Prop :=
  ∃ path argument, (path, Expr.unary t.source.toUnaryOp argument) ∈ e.positions

/-- The node at the end of a path was one of the source function, it was converted, and no other node
changed: neither above nor below the path anything is lost or new, and the nodes on the way keep
their symbols. -/
structure Converted (t : Transform) (e u : Expr) (path : Path) (argument : Expr) : Prop where
  source : (path, .unary t.source.toUnaryOp argument) ∈ e.positions
  replaced : e.replace? path (t.convert argument) = some u
  found : (path, t.convert argument) ∈ u.positions
  elsewhere : ∀ other, ¬path <+: other → ¬other <+: path →
    ∀ node, (other, node) ∈ u.positions ↔ (other, node) ∈ e.positions
  above : ∀ other i rest, path = other ++ i :: rest →
    (u.get? other).map symbol = (e.get? other).map symbol

/-- One node of the source function was converted, if there is one. -/
def Edited (t : Transform) (e u : Expr) : Prop :=
  (t.Occurs e → ∃ path argument, t.Converted e u path argument) ∧ (¬t.Occurs e → u = e)

/-! ### Nodes of the source function -/

theorem mem_matching_iff {node : Expr} :
    (path, node) ∈ t.matching e ↔
      ∃ argument, node = .unary t.source.toUnaryOp argument ∧
        (path, .unary t.source.toUnaryOp argument) ∈ e.positions := by
  rw [matching, List.mem_filter]
  constructor
  · rintro ⟨listed, isSource⟩
    cases node <;> simp only [matchesNode, Bool.false_eq_true, beq_iff_eq] at isSource
    next op argument => exact ⟨argument, by rw [isSource], isSource ▸ listed⟩
  · rintro ⟨argument, rfl, listed⟩
    exact ⟨listed, beq_self_eq_true _⟩

theorem isEmpty_matching_iff : (t.matching e).isEmpty = true ↔ ¬t.Occurs e := by
  rw [List.isEmpty_iff, List.eq_nil_iff_forall_not_mem]
  constructor
  · rintro none ⟨path, argument, listed⟩
    exact none (path, _) (mem_matching_iff.mpr ⟨argument, rfl, listed⟩)
  · rintro absent ⟨path, node⟩ listed
    obtain ⟨argument, -, listed⟩ := mem_matching_iff.mp listed
    exact absent ⟨path, argument, listed⟩

/-! ### One conversion -/

theorem converted_convertAt (listed : (path, .unary t.source.toUnaryOp argument) ∈ e.positions) :
    t.Converted e (t.convertAt e path (.unary t.source.toUnaryOp argument)) path argument := by
  obtain ⟨fromLeft, leads⟩ := mem_positions_iff.mp listed
  have replaced := replace?_of_get? leads (t.convert argument)
  refine ⟨listed, replaced, mem_positions_iff.mpr ⟨fromLeft, get?_replace? replaced⟩, ?_, ?_⟩
  · intro other notAbove notBelow node
    rw [mem_positions_iff, mem_positions_iff]
    apply and_congr_right
    intro fromLeft'
    rw [convertAt, get?_replace?_eq fromLeft fromLeft' notAbove notBelow replaced]
  · rintro other i rest rfl
    exact symbol_get?_replace? replaced

/-- A converted node has another skeleton. -/
theorem skeleton_convert_ne (t : Transform) (argument : Expr) :
    (t.convert argument).skeleton ≠ (Expr.unary t.source.toUnaryOp argument).skeleton := by
  have larger {node : Expr} (grown : node.size = argument.size + 3) :
      node.skeleton ≠ (Expr.unary t.source.toUnaryOp argument).skeleton := by
    intro same
    have sizes := congrArg size same
    rw [skeleton, skeleton, size_mapConst, size_mapConst, grown, size] at sizes
    omega
  unfold convert
  cases kind : t.kind with
  | exchange =>
      intro same
      simp only [target, kind, skeleton, mapConst, Expr.unary.injEq] at same
      exact toUnaryOp_partner_ne t.source same.1
  | shift => exact larger (by simp only [size]; omega)
  | negation => exact larger (by simp only [negative, size]; omega)
  | reciprocal => exact larger (by simp only [inverse, size]; omega)

theorem Converted.skeleton_ne (converted : t.Converted e u path argument) :
    u.skeleton ≠ e.skeleton := by
  intro same
  have new := get?_of_mem_positions converted.found
  have old := get?_of_mem_positions converted.source
  have leads := congrArg (Expr.get? · path) same
  simp only [skeleton, get?_mapConst, new, old, Option.map_some, Option.some.injEq] at leads
  exact t.skeleton_convert_ne argument leads

theorem Edited.skeleton_ne (edited : t.Edited e u) (occurs : t.Occurs e) : u.skeleton ≠ e.skeleton := by
  obtain ⟨path, argument, converted⟩ := edited.1 occurs
  exact converted.skeleton_ne

/-- Whatever is drawn, one of the nodes of the source function is converted. -/
theorem convertOne_yields (t : Transform) (e : Expr) :
    (t.convertOne e (t.matching e)).Yields (t.Edited e) := by
  cases nodes : t.matching e with
  | nil =>
      have absent : ¬t.Occurs e := isEmpty_matching_iff.mp (by rw [nodes]; rfl)
      exact .pure ⟨fun occurs => absurd occurs absent, fun _ => rfl⟩
  | cons first rest =>
      refine .bind (.choose _ _) fun place listed => .pure ?_
      obtain ⟨path, node⟩ := place
      rw [← nodes] at listed
      obtain ⟨argument, rfl, position⟩ := mem_matching_iff.mp listed
      exact ⟨fun _ => ⟨path, argument, converted_convertAt position⟩,
        fun absent => absurd ⟨path, argument, position⟩ absent⟩

end Transform

namespace SymmetricPair

/-! ### Two functions at a time -/

/-- The pair is a node of the source function of its transform over a base whose leaves are all at
the given depth, and that node converted. -/
def StartsAfresh (pair : SymmetricPair) (levels : Nat) : Prop :=
  pair.transform ∈ Transform.all ∧
    ∃ base, base.LeavesAt levels ∧
      pair.f = .unary pair.transform.source.toUnaryOp base ∧ pair.g = pair.transform.convert base

theorem fresh_yields (depth : Nat) : (fresh depth).Yields (·.StartsAfresh (depth + 1)) := by
  refine .bind (.choose _ _) fun t listed => .bind (random_leavesAt depth) fun base leaves => ?_
  exact .pure ⟨listed, base, leaves, rfl, rfl⟩

/-- The transform converts one node of its source function in each of the two functions that has
one. -/
structure Follows (pair : SymmetricPair) (t : Transform) (f g : Expr) : Prop where
  transform : pair.transform = t
  first : t.Edited f pair.f
  second : t.Edited g pair.g

theorem convertBoth_yields (t : Transform) (f g : Expr) :
    (do let first ← t.convertOne f (t.matching f)
        let second ← t.convertOne g (t.matching g)
        return ⟨first, second, t⟩ : Draw SymmetricPair).Yields (·.Follows t f g) :=
  .bind (t.convertOne_yields f) fun _ first => .bind (t.convertOne_yields g) fun _ second =>
    .pure ⟨rfl, first, second⟩

/-- What is converted in one of the functions changes the skeletons of the two. -/
theorem Follows.skeleton_ne {pair : SymmetricPair} {t : Transform} {f g : Expr}
    (follows : pair.Follows t f g) (occurs : t.Occurs f ∨ t.Occurs g) :
    ¬(pair.f.skeleton = f.skeleton ∧ pair.g.skeleton = g.skeleton) := by
  rintro ⟨sameF, sameG⟩
  rcases occurs with inF | inG
  · exact follows.first.skeleton_ne inF sameF
  · exact follows.second.skeleton_ne inG sameG

/-- A random change of two functions is one local edit of each, and it always gets somewhere.  Where
one of the functions has a node of the source function of the transform that is drawn, each of the
two that has one is returned with exactly one such node converted, the other as it was.  The two that
are returned are never the two that were given, not even up to constants that are equal as numbers,
nor up to constants at all.  Where neither has such a node, a transform and a base are drawn, all of
whose paths from the root to a leaf have three nodes, and returned are the source function of that
transform over that base and this node converted. -/
theorem mutate_local (f g : Expr) (source : Source) :
    let t := (Transform.random.run source).1
    let pair := ((mutate f g).run source).1
    t ∈ Transform.all ∧
    (t.Occurs f ∨ t.Occurs g →
      pair.Follows t f g ∧ (pair.f, pair.g) ≠ (f, g) ∧
      ¬(f.agrees pair.f = true ∧ g.agrees pair.g = true) ∧
      ¬(pair.f.skeleton = f.skeleton ∧ pair.g.skeleton = g.skeleton)) ∧
    (¬t.Occurs f → ¬t.Occurs g → pair.StartsAfresh 3) := by
  intro t pair
  have drawn : pair = ((if (t.matching f).isEmpty && (t.matching g).isEmpty then fresh freshDepth
      else do
        let first ← t.convertOne f (t.matching f)
        let second ← t.convertOne g (t.matching g)
        return ⟨first, second, t⟩ : Draw SymmetricPair).run (Transform.random.run source).2).1 := rfl
  have none : ((t.matching f).isEmpty && (t.matching g).isEmpty) = true ↔
      ¬t.Occurs f ∧ ¬t.Occurs g := by
    rw [Bool.and_eq_true, Transform.isEmpty_matching_iff, Transform.isEmpty_matching_iff]
  refine ⟨Draw.Yields.choose _ _ source, ?_, ?_⟩
  · intro occurs
    have follows : pair.Follows t f g := by
      rw [drawn, if_neg (by rw [none]; tauto)]
      exact convertBoth_yields t f g _
    have skeletons := follows.skeleton_ne occurs
    refine ⟨follows, ?_, ?_, skeletons⟩
    · intro same
      obtain ⟨sameF, sameG⟩ := Prod.mk.inj same
      exact skeletons ⟨congrArg skeleton sameF, congrArg skeleton sameG⟩
    · rintro ⟨sameF, sameG⟩
      exact skeletons ⟨(skeleton_eq_of_agrees sameF).symm, (skeleton_eq_of_agrees sameG).symm⟩
  · intro absentF absentG
    rw [drawn, if_pos (none.mpr ⟨absentF, absentG⟩)]
    exact fresh_yields freshDepth _

/-- When the exchange of sine and cosine is drawn, `sin(n)` is changed and `n` beside it is not; in
the place of two functions without a sine a fresh pair is made. -/
theorem mutate_local_sine :
    let source : Source := ⟨[0.0], 0, 0⟩
    let sine : Expr := .unary .sin .var
    let pair := ((mutate sine .var).run source).1
    pair.transform = ⟨.exchange, .sin⟩ ∧ pair.f.skeleton ≠ sine.skeleton ∧ pair.g = .var ∧
      ((mutate .var .var).run source).1.StartsAfresh 3 := by
  intro source sine pair
  obtain ⟨-, edits, -⟩ := mutate_local sine .var source
  obtain ⟨-, -, afresh⟩ := mutate_local .var .var source
  have drawn : (Transform.random.run source).1 = ⟨.exchange, .sin⟩ := by decide
  rw [drawn] at edits afresh
  have occurs : Transform.Occurs ⟨.exchange, .sin⟩ sine := ⟨[], .var, mem_positions_nil.mpr rfl⟩
  have absent : ¬Transform.Occurs ⟨.exchange, .sin⟩ .var := by
    rintro ⟨path, argument, listed⟩
    simp at listed
  obtain ⟨follows, -, -, skeletons⟩ := edits (.inl occurs)
  have kept : pair.g = .var := follows.second.2 absent
  refine ⟨follows.transform, fun same => skeletons ⟨same, ?_⟩, kept, afresh absent absent⟩
  exact congrArg skeleton kept

end SymmetricPair

end PrimeSearch
