/-
Module: PrimeSearch.Proofs.Expr.Growth
Purpose: How large and how deep random expressions are, and how much a random change adds.
Main exports: Expr.Within, Expr.random_within, Expr.LeavesAt, Expr.random_leavesAt,
  Expr.mutateNode_within, Expr.mutate_within, Expr.mutateTimes, Expr.growth_bounded
-/
import PrimeSearch.Expr.Mutation
import PrimeSearch.Proofs.Expr.Addressing

namespace PrimeSearch.Expr

/-!
A random expression with `depth` operator levels is full at most: `2 ^ (depth + 1) - 1` nodes.  Where
it is grown it takes the place of at least one node, so a change adds two nodes less than
`2 ^ (depth + 1)`, and since its place is no deeper than a leaf, the depth grows by `depth` at most.
No other change makes anything larger or deeper.
-/

/-- At most so many nodes, and at most so many on a path. -/
structure Within (t : Expr) (nodes levels : Nat) : Prop where
  size : t.size ≤ nodes
  depth : t.depth ≤ levels

section
variable {t child left right : Expr} {n m d e : Nat}

theorem depth_pos (t : Expr) : 0 < t.depth := by
  cases t <;> simp only [Expr.depth] <;> omega

theorem Within.self (t : Expr) : t.Within t.size t.depth := ⟨Nat.le_refl _, Nat.le_refl _⟩

theorem Within.mono (within : t.Within n d) (nodes : n ≤ m) (levels : d ≤ e) : t.Within m e :=
  ⟨within.size.trans nodes, within.depth.trans levels⟩

/-- What is within bounds stays so in looser ones. -/
theorem Within.add (within : t.Within n d) : t.Within (m + n) (e + d) :=
  within.mono (Nat.le_add_left ..) (Nat.le_add_left ..)

theorem Within.const (v : Float) : (Expr.const v).Within 1 1 := ⟨Nat.le_refl _, Nat.le_refl _⟩

theorem Within.var : Expr.var.Within 1 1 := ⟨Nat.le_refl _, Nat.le_refl _⟩

theorem Within.mod (within : child.Within n d) (k : Modulus) :
    (Expr.mod child k).Within (1 + n) (1 + d) :=
  ⟨Nat.add_le_add_left within.size 1, Nat.add_le_add_left within.depth 1⟩

theorem Within.unary (within : child.Within n d) (op : UnaryOp) :
    (Expr.unary op child).Within (1 + n) (1 + d) :=
  ⟨Nat.add_le_add_left within.size 1, Nat.add_le_add_left within.depth 1⟩

theorem Within.binary (first : left.Within n d) (second : right.Within m e) (op : BinaryOp) :
    (Expr.binary op left right).Within (1 + (n + m)) (1 + max d e) := by
  constructor
  · exact Nat.add_le_add_left (Nat.add_le_add first.size second.size) 1
  · have deepest : max left.depth right.depth ≤ max d e := by
      have := first.depth
      have := second.depth
      omega
    exact Nat.add_le_add_left deepest 1

/-- A leaf is no larger than any expression. -/
theorem Within.leaf (within : child.Within 1 1) (t : Expr) : child.Within t.size t.depth :=
  within.mono t.size_pos t.depth_pos

end

/-! ### Random expressions -/

theorem randomLeaf_within : randomLeaf.Yields (·.Within 1 1) := by
  refine .bind (.any _) fun r _ => .ite (fun _ => .pure .var) fun _ => .ite (fun _ => ?_) fun _ => ?_
  · exact .bind (.any _) fun name _ => .pure (.const _)
  · exact .bind (.any _) fun n _ => .pure (.const _)

/-- A random expression is no larger than a full one. -/
theorem random_within (depth : Nat) :
    (random depth).Yields (·.Within (2 ^ (depth + 1) - 1) (depth + 1)) := by
  induction depth with
  | zero => exact randomLeaf_within
  | succ depth ih =>
      have full : 2 ^ (depth + 1 + 1) = 2 * 2 ^ (depth + 1) := Nat.pow_succ'
      have some : 0 < 2 ^ (depth + 1) := Nat.two_pow_pos _
      refine .bind (.any _) fun r _ => .ite (fun _ => ?_) fun _ => .ite (fun _ => ?_) fun _ => ?_
      · refine .bind ih fun child within => .bind (.any _) fun m _ => .pure ?_
        exact (within.mod m).mono (by omega) (by omega)
      · refine .bind (.any _) fun op _ => .bind ih fun child within => .pure ?_
        exact (within.unary op).mono (by omega) (by omega)
      · refine .bind (.any _) fun op _ => .bind ih fun left first => .bind ih fun right second => ?_
        exact .pure ((first.binary second op).mono (by omega) (by omega))

/-! ### Paths to the leaves -/

/-- Every path from the root to a leaf has so many nodes. -/
def LeavesAt (t : Expr) (levels : Nat) : Prop :=
  ∀ path node, (path, node) ∈ t.positions → node.children = [] → path.length + 1 = levels

theorem LeavesAt.leaf {t : Expr} (childless : t.children = []) : t.LeavesAt 1 := by
  intro path node listed _
  cases path with
  | nil => rfl
  | cons i rest =>
      obtain ⟨k, child, -, found, -⟩ := mem_positions_cons.mp listed
      rw [childless] at found
      cases found

/-- One node more on every path stands above subexpressions whose leaves are all as far. -/
theorem LeavesAt.above {t : Expr} {levels : Nat} (inner : t.children ≠ [])
    (each : ∀ child ∈ t.children, child.LeavesAt levels) : t.LeavesAt (levels + 1) := by
  intro path node listed childless
  cases path with
  | nil =>
      rw [mem_positions_nil.mp listed] at childless
      exact absurd childless inner
  | cons i rest =>
      obtain ⟨k, child, -, found, inside⟩ := mem_positions_cons.mp listed
      rw [List.length_cons]
      exact congrArg (· + 1) (each child (List.mem_of_getElem? found) rest node inside childless)

theorem randomLeaf_leavesAt : randomLeaf.Yields (·.LeavesAt 1) := by
  refine .bind (.any _) fun r _ => .ite (fun _ => .pure (.leaf rfl)) fun _ =>
    .ite (fun _ => ?_) fun _ => ?_
  · exact .bind (.any _) fun name _ => .pure (.leaf rfl)
  · exact .bind (.any _) fun n _ => .pure (.leaf rfl)

/-- The leaves of a random expression are all at its depth. -/
theorem random_leavesAt (depth : Nat) : (random depth).Yields (·.LeavesAt (depth + 1)) := by
  induction depth with
  | zero => exact randomLeaf_leavesAt
  | succ depth ih =>
      refine .bind (.any _) fun r _ => .ite (fun _ => ?_) fun _ => .ite (fun _ => ?_) fun _ => ?_
      · refine .bind ih fun child leaves => .bind (.any _) fun m _ => .pure (.above nofun ?_)
        exact List.forall_mem_singleton.mpr leaves
      · refine .bind (.any _) fun op _ => .bind ih fun child leaves => .pure (.above nofun ?_)
        exact List.forall_mem_singleton.mpr leaves
      · refine .bind (.any _) fun op _ => .bind ih fun left first => .bind ih fun right second => ?_
        have both : ∀ child ∈ [left, right], child.LeavesAt (depth + 1) :=
          List.forall_mem_cons.mpr ⟨first, List.forall_mem_singleton.mpr second⟩
        exact .pure (.above nofun both)

/-! ### Depth along a path -/

section
variable {t u node r : Expr} {path : Path}

theorem depth_le_iff {n : Nat} : t.depth ≤ n + 1 ↔ ∀ child ∈ t.children, child.depth ≤ n := by
  cases t <;> simp only [Expr.depth, children, List.forall_mem_cons, List.not_mem_nil] <;> grind

/-- A path to a node is a part of a path to a leaf. -/
theorem length_add_depth_le (leads : t.get? path = some node) :
    path.length + node.depth ≤ t.depth := by
  induction path generalizing t with
  | nil =>
      obtain rfl := Option.some.inj leads
      exact (Nat.zero_add _).le
  | cons i rest ih =>
      obtain ⟨k, child, names, below⟩ := get?_cons_eq_some_iff.mp leads
      obtain ⟨n, levels⟩ : ∃ n, t.depth = n + 1 := ⟨t.depth - 1, by have := t.depth_pos; omega⟩
      have lower := depth_le_iff.mp levels.le child (List.mem_of_getElem? names.found)
      have inside := ih below
      rw [List.length_cons]
      omega

/-- What is put in makes an expression no deeper than it reaches itself. -/
theorem depth_replace? {n : Nat} (replaced : t.replace? path r = some u) (levels : t.depth ≤ n)
    (reach : path.length + r.depth ≤ n) : u.depth ≤ n := by
  induction path generalizing t u n with
  | nil =>
      obtain rfl := Option.some.inj replaced
      rwa [List.length_nil, Nat.zero_add] at reach
  | cons i rest ih =>
      obtain ⟨k, child, new, names, below, put⟩ := replace?_cons_eq_some_iff.mp replaced
      rw [List.length_cons] at reach
      obtain ⟨m, rfl⟩ : ∃ m, n = m + 1 := ⟨n - 1, by omega⟩
      have lower := depth_le_iff.mp levels
      apply depth_le_iff.mpr
      intro other member
      rw [put.children] at member
      rcases List.mem_or_eq_of_mem_set member with old | rfl
      · exact lower other old
      · exact ih below (lower child (List.mem_of_getElem? names.found)) (by omega)

end

/-! ### Changes -/

/-- Constants for constants change nothing in size or depth. -/
theorem replaceMatching_within (t : Expr) (v w : Float) :
    (t.replaceMatching (.const v) (.const w)).Within t.size t.depth := by
  have matched {u other : Expr} (within : other.Within u.size u.depth) :
      (if u.agrees (.const v) then .const w else other).Within u.size u.depth := by
    split
    · exact (Within.const w).leaf u
    · exact within
  induction t with
  | const x => exact matched (.const x)
  | var => exact matched .var
  | mod child m ih =>
      rw [replaceMatching]
      exact matched (ih.mod m)
  | unary op child ih =>
      rw [replaceMatching]
      exact matched (ih.unary op)
  | binary op left right ihLeft ihRight =>
      rw [replaceMatching]
      exact matched (ihLeft.binary ihRight op)

theorem perturb_within (t : Expr) : t.perturb.Yields (·.Within t.size t.depth) := by
  unfold perturb
  split
  · exact .pure (.self t)
  · refine .bind (.any _) fun target _ => .bind (.any _) fun perturbed _ => .pure ?_
    exact t.replaceMatching_within target perturbed

/-- A local change makes nothing larger or deeper. -/
theorem mutateNode_within (t : Expr) : t.mutateNode.Yields (·.Within t.size t.depth) := by
  induction t with
  | const v =>
      refine .ite (fun _ => ?_) fun _ => ?_
      · exact .bind (.any _) fun step _ => .pure (.const _)
      · exact .bind (.any _) fun step _ => .pure (.const _)
  | var =>
      refine .bind (.any _) fun replace _ => .ite (fun _ => ?_) fun _ => .pure .var
      exact .bind (.any _) fun n _ => .pure (.const _)
  | mod child m ih =>
      refine .bind (.any _) fun keep _ => .ite (fun _ => ?_) fun _ => ?_
      · refine .bind (.any _) fun step _ => .bind ih fun new within => .pure ?_
        exact within.mod _
      · exact ih.mono fun new within => within.add
  | unary op child ih =>
      refine .bind (.any _) fun exchange _ => .ite (fun _ => ?_) fun _ => ?_
      · exact .bind (.any _) fun new _ => .pure ((Within.self child).unary new)
      · refine .bind (.any _) fun keep _ => .ite (fun _ => ?_) fun _ => ?_
        · exact .bind ih fun new within => .pure (within.unary op)
        · exact .pure (Within.self child).add
  | binary op left right ihLeft ihRight =>
      refine .bind (.any _) fun r _ => .ite (fun _ => ?_) fun _ => .ite (fun _ => ?_) fun _ => ?_
      · exact .bind ihLeft fun new within => .pure (within.binary (.self right) op)
      · exact .bind ihRight fun new within => .pure ((Within.self left).binary within op)
      · exact .bind (.any _) fun new _ => .pure ((Within.self left).binary (.self right) new)

/-- What is grown in the place of a node is the only thing that makes an expression larger. -/
theorem regrow_within (t : Expr) (depth : Nat) :
    (t.regrow depth).Yields (·.Within (t.size + (2 ^ (depth + 1) - 2)) (t.depth + depth)) := by
  refine .bind t.randomPath_yields fun path ends => ?_
  obtain ⟨node, listed⟩ := ends
  have leads := get?_of_mem_positions listed
  refine .bind (random_within depth) fun new within => .pure ?_
  have replaced := replace?_of_get? leads new
  constructor
  · have sizes := size_replace? leads replaced
    have gone := node.size_pos
    have grown := within.size
    omega
  · have place := length_add_depth_le leads
    have gone := node.depth_pos
    have grown := within.depth
    exact depth_replace? replaced (by omega) (by omega)

/-- A change adds no more than what it may grow. -/
theorem mutate_within (t : Expr) (depth : Nat) :
    (t.mutate depth).Yields (·.Within (t.size + (2 ^ (depth + 1) - 2)) (t.depth + depth)) := by
  have wide {u : Expr} (within : u.Within t.size t.depth) :
      u.Within (t.size + (2 ^ (depth + 1) - 2)) (t.depth + depth) :=
    within.mono (Nat.le_add_right ..) (Nat.le_add_right ..)
  refine .bind (.any _) fun action _ => .ite (fun _ => ?_) fun _ => .ite (fun _ => ?_) fun _ =>
    .ite (fun _ => ?_) fun _ => ?_
  · exact t.perturb_within.mono fun u => wide
  · exact t.regrow_within depth
  · exact t.mutateNode_within.mono fun u => wide
  · cases t with
    | const v => exact .pure (wide (.self _))
    | var => exact .pure (wide (.self _))
    | mod child m => exact .pure (wide (.self _))
    | unary op child => exact .pure (wide (Within.self child).add)
    | binary op left right =>
        refine .pure (wide ?_)
        split
        · exact ((Within.self right).binary (.self left) op).mono
            (by simp only [size]; omega) (by simp only [Expr.depth]; omega)
        · exact .self _

/-- Several random changes, one after the other. -/
def mutateTimes (depth : Nat) : Nat → Expr → Draw Expr
  | 0, t => return t
  | k + 1, t => do
      let u ← t.mutate depth
      mutateTimes depth k u

theorem mutateTimes_within (depth k : Nat) (t : Expr) :
    (mutateTimes depth k t).Yields
      (·.Within (t.size + k * (2 ^ (depth + 1) - 2)) (t.depth + k * depth)) := by
  induction k generalizing t with
  | zero => exact .pure ((Within.self t).mono (by omega) (by omega))
  | succ k ih =>
      refine .bind (t.mutate_within depth) fun u first => ?_
      refine (ih u).mono fun v rest => rest.mono ?_ ?_
      · have added := first.size
        rw [Nat.succ_mul]
        omega
      · have added := first.depth
        rw [Nat.succ_mul]
        omega

/-- Whatever is drawn, a local change makes an expression neither larger nor deeper; a random change
with `depth` operator levels adds at most `2 ^ (depth + 1) - 2` nodes and `depth` levels; any number
of such changes, one after the other, adds at most so much each; and a random descent ends at one of
the listed places. -/
theorem growth_bounded (t : Expr) (depth : Nat) :
    (t.mutateNode.Yields fun u => u.size ≤ t.size ∧ u.depth ≤ t.depth) ∧
    ((t.mutate depth).Yields fun u =>
      u.size ≤ t.size + 2 ^ (depth + 1) - 2 ∧ u.depth ≤ t.depth + depth) ∧
    (∀ k, (mutateTimes depth k t).Yields fun u =>
      u.size ≤ t.size + k * (2 ^ (depth + 1) - 2) ∧ u.depth ≤ t.depth + k * depth) ∧
    t.randomPath.Yields fun path => ∃ node, (path, node) ∈ t.positions := by
  have full : 2 ≤ 2 ^ (depth + 1) := by
    have some := Nat.two_pow_pos depth
    rw [Nat.pow_succ']
    omega
  refine ⟨?_, ?_, ?_, t.randomPath_yields⟩
  · exact t.mutateNode_within.mono fun u within => ⟨within.size, within.depth⟩
  · refine (t.mutate_within depth).mono fun u within => ⟨?_, within.depth⟩
    rw [Nat.add_sub_assoc full]
    exact within.size
  · intro k
    exact (mutateTimes_within depth k t).mono fun u within => ⟨within.size, within.depth⟩

/-- The bounds are reached: a sum grows in the place of a leaf, and another one in the place of its
first operand. -/
example :
    let source : Source := ⟨[0.2, 0.9, 0.0, 0.0, 0.0, 0.2, 0.9, 0.0, 0.9, 0.0, 0.0, 0.0], 0, 0⟩
    let grown := ((Expr.var.mutate 1 >>= (mutate · 1)).run source).1
    grown.size = 1 + 2 * (2 ^ 2 - 2) ∧ grown.depth = 1 + 2 * 1 := by
  decide

end PrimeSearch.Expr
