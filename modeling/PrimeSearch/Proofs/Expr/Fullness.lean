/-
Module: PrimeSearch.Proofs.Expr.Fullness
Purpose: Random expressions are full to the depth that is asked for, and what they are made of.
Main exports: Expr.LeavesAt.size_bounds, Expr.Seed, Expr.Branch, Expr.Grown, Expr.random_grown,
  Expr.random_full
-/
import PrimeSearch.Proofs.Expr.Growth

namespace PrimeSearch.Expr

/-!
In a random expression all leaves are at one depth.  That alone bounds the number of nodes from both
sides, whatever is drawn: a chain of nodes has the fewest, and a tree in which every inner node has two
children the most.
-/

section
variable {t child : Expr} {levels : Nat}

/-! ### Sizes of full expressions -/

/-- Below a node the leaves are one level nearer. -/
theorem LeavesAt.below (leaves : t.LeavesAt (levels + 1)) (member : child ∈ t.children) :
    child.LeavesAt levels := by
  intro path node listed childless
  obtain ⟨k, found⟩ := List.mem_iff_getElem?.mp member
  have deeper : ((k : Int) :: path, node) ∈ t.positions :=
    mem_positions_cons.mpr ⟨k, child, rfl, found, listed⟩
  exact Nat.succ.inj (leaves _ node deeper childless)

theorem exists_leaf (t : Expr) : ∃ path node, (path, node) ∈ t.positions ∧ node.children = [] := by
  have deeper {t child : Expr} (first : t.children[0]? = some child)
      (below : ∃ path node, (path, node) ∈ child.positions ∧ node.children = []) :
      ∃ path node, (path, node) ∈ t.positions ∧ node.children = [] := by
    obtain ⟨path, node, listed, childless⟩ := below
    exact ⟨0 :: path, node, mem_positions_cons.mpr ⟨0, child, rfl, first, listed⟩, childless⟩
  induction t with
  | const v => exact ⟨[], .const v, mem_positions_nil.mpr rfl, rfl⟩
  | var => exact ⟨[], .var, mem_positions_nil.mpr rfl, rfl⟩
  | mod child m ih => exact deeper rfl ih
  | unary op child ih => exact deeper rfl ih
  | binary op left right ihLeft _ => exact deeper rfl ihLeft

theorem LeavesAt.levels_pos (leaves : t.LeavesAt levels) : ∃ above, levels = above + 1 := by
  obtain ⟨path, node, listed, childless⟩ := t.exists_leaf
  exact ⟨path.length, (leaves path node listed childless).symm⟩

/-- With all leaves on one level an expression has a node on every level, and at most twice as many as
on the level above. -/
theorem LeavesAt.size_bounds (leaves : t.LeavesAt levels) : levels ≤ t.size ∧ t.size < 2 ^ levels := by
  induction t generalizing levels with
  | const v =>
      obtain rfl : 1 = levels := leaves [] (.const v) (mem_positions_nil.mpr rfl) rfl
      exact ⟨Nat.le_refl 1, Nat.one_lt_two⟩
  | var =>
      obtain rfl : 1 = levels := leaves [] .var (mem_positions_nil.mpr rfl) rfl
      exact ⟨Nat.le_refl 1, Nat.one_lt_two⟩
  | mod child m ih =>
      obtain ⟨above, rfl⟩ := leaves.levels_pos
      obtain ⟨least, most⟩ := ih (leaves.below List.mem_cons_self)
      rw [size, Nat.pow_succ]
      omega
  | unary op child ih =>
      obtain ⟨above, rfl⟩ := leaves.levels_pos
      obtain ⟨least, most⟩ := ih (leaves.below List.mem_cons_self)
      rw [size, Nat.pow_succ]
      omega
  | binary op left right ihLeft ihRight =>
      obtain ⟨above, rfl⟩ := leaves.levels_pos
      obtain ⟨least, most⟩ := ihLeft (leaves.below List.mem_cons_self)
      obtain ⟨least', most'⟩ := ihRight (leaves.below (List.mem_cons_of_mem left List.mem_cons_self))
      rw [size, Nat.pow_succ]
      omega

end

/-! ### Nodes of random expressions -/

/-- What grows at the ends: the variable, a named constant, a whole number from 1 to 10. -/
inductive Seed : Expr → Prop where
  | var : Seed .var
  | named {c : NamedConstant} (listed : c ∈ NamedConstant.all) : Seed (.const c.value)
  | whole {n : Int} (low : 1 ≤ n) (high : n ≤ 10) : Seed (ofInt n)

/-- What grows in between: a reduction by a modulus within bounds, a function or an operation. -/
inductive Branch : Expr → Prop where
  | mod {child : Expr} {m : Modulus} (low : minModulus ≤ m.val) (high : m.val ≤ maxModulus) :
      Branch (.mod child m)
  | unary {op : UnaryOp} {child : Expr} (listed : op ∈ UnaryOp.all) : Branch (.unary op child)
  | binary {op : BinaryOp} {left right : Expr} (listed : op ∈ BinaryOp.all) :
      Branch (.binary op left right)

/-- Every node without children is a seed and every other one a branch. -/
def Grown (t : Expr) : Prop :=
  ∀ path node, (path, node) ∈ t.positions →
    (node.children = [] → node.Seed) ∧ (node.children ≠ [] → node.Branch)

theorem Grown.seed {t : Expr} (seed : t.Seed) : t.Grown := by
  have childless : t.children = [] := by
    cases seed <;> rfl
  intro path node listed
  cases path with
  | nil =>
      obtain rfl := mem_positions_nil.mp listed
      exact ⟨fun _ => seed, fun inner => absurd childless inner⟩
  | cons i rest =>
      obtain ⟨k, child, -, found, -⟩ := mem_positions_cons.mp listed
      rw [childless] at found
      cases found

theorem Grown.branch {t : Expr} (branch : t.Branch) (each : ∀ child ∈ t.children, child.Grown) :
    t.Grown := by
  have inner : t.children ≠ [] := by
    cases branch <;> exact List.cons_ne_nil _ _
  intro path node listed
  cases path with
  | nil =>
      obtain rfl := mem_positions_nil.mp listed
      exact ⟨fun childless => absurd childless inner, fun _ => branch⟩
  | cons i rest =>
      obtain ⟨k, child, -, found, inside⟩ := mem_positions_cons.mp listed
      exact each child (List.mem_of_getElem? found) rest node inside

theorem randomLeaf_grown : randomLeaf.Yields Grown := by
  refine .bind (.any _) fun r _ => .ite (fun _ => .pure (.seed .var)) fun _ =>
    .ite (fun _ => ?_) fun _ => ?_
  · exact .bind (.choose _ _) fun c listed => .pure (.seed (.named listed))
  · refine .bind (.integer 1 10 _) fun n bounds => .pure (.seed (.whole bounds.1 ?_))
    exact Int.lt_add_one_iff.mp bounds.2

theorem random_grown (depth : Nat) : (random depth).Yields Grown := by
  induction depth with
  | zero => exact randomLeaf_grown
  | succ depth ih =>
      refine .bind (.any _) fun r _ => .ite (fun _ => ?_) fun _ => .ite (fun _ => ?_) fun _ => ?_
      · refine .bind ih fun child grown => .bind (.any _) fun m _ => .pure ?_
        exact .branch (.mod m.min_le m.le_max) (List.forall_mem_singleton.mpr grown)
      · refine .bind (.choose _ _) fun op listed => .bind ih fun child grown => .pure ?_
        exact .branch (.unary listed) (List.forall_mem_singleton.mpr grown)
      · refine .bind (.choose _ _) fun op listed => .bind ih fun left first => ?_
        refine .bind ih fun right second => .pure (.branch (.binary listed) ?_)
        exact List.forall_mem_cons.mpr ⟨first, List.forall_mem_singleton.mpr second⟩

/-- Whatever is drawn, a random expression is full to the depth that is asked for, a negative one
counting as zero: on every path from the root to a leaf there is one node more than levels of operators.
Its leaves are the variable, named constants and whole numbers from 1 to 10, all other nodes reductions
by a modulus within bounds, functions and operations, and the number of nodes lies between that of a
chain and that of a tree in which every inner node has two children. -/
theorem random_full (maxDepth : Int) :
    (random maxDepth.toNat).Yields fun t =>
      t.LeavesAt (maxDepth.toNat + 1) ∧ t.Grown ∧
        maxDepth.toNat + 1 ≤ t.size ∧ t.size ≤ 2 ^ (maxDepth.toNat + 1) - 1 := by
  intro source
  have leaves := random_leavesAt maxDepth.toNat source
  obtain ⟨least, most⟩ := leaves.size_bounds
  exact ⟨leaves, random_grown maxDepth.toNat source, least, Nat.le_sub_one_of_lt most⟩

/-- A sum of the variable and a named constant. -/
theorem random_full_sum :
    let t := ((random 1).run ⟨[0.9, 0.0, 0.0, 0.5, 0.0], 0, 0⟩).1
    t = .binary .add .var (.const NamedConstant.pi.value) ∧ t.Branch ∧
      (Expr.const NamedConstant.pi.value).Seed ∧ t.size = 2 ^ 2 - 1 := by
  intro t
  have drawn : t = .binary .add .var (.const NamedConstant.pi.value) := by
    decide
  obtain ⟨leaves, grown, least, most⟩ := random_full 1 ⟨[0.9, 0.0, 0.0, 0.5, 0.0], 0, 0⟩
  have root : ([], t) ∈ t.positions := mem_positions_nil.mpr rfl
  have last : ([1], Expr.const NamedConstant.pi.value) ∈ t.positions := by
    rw [drawn]
    simp
  refine ⟨drawn, (grown [] t root).2 ?_, (grown _ _ last).1 rfl, ?_⟩ <;> rw [drawn]
  · exact List.cons_ne_nil _ _
  · rfl

end PrimeSearch.Expr
