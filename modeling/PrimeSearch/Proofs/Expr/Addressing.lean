/-
Module: PrimeSearch.Proofs.Expr.Addressing
Purpose: A path leads to one node, and a replacement at its end changes that node and nothing else.
Main exports: Expr.Symbol, Expr.symbols, Expr.replace?_cons_eq_some_iff, Expr.mem_positions_iff,
  Expr.symbols_replace?, Expr.fetch, Expr.store, Expr.addressing_lawful
-/
import Mathlib.Algebra.BigOperators.Group.List.Basic
import Mathlib.Algebra.Order.Group.Multiset
import PrimeSearch.Expr.Random
import PrimeSearch.Proofs.Random.Stream

namespace PrimeSearch.Expr

/-!
A node is its symbol and its children.  Looking up goes down along a path from child to child, and
replacing puts one new child into every node on the way.  So each law of addressing is a law of lists
at one node, and an induction on the path carries it to the root.
-/

/-! ### Nodes -/

/-- What a node is apart from its subexpressions: its kind, and its operator, modulus or value. -/
inductive Symbol where
  | const (value : Float)
  | var
  | mod (modulus : Modulus)
  | unary (op : UnaryOp)
  | binary (op : BinaryOp)
deriving DecidableEq

/-- Symbol at the root. -/
def symbol : Expr → Symbol
  | .const v => .const v
  | .var => .var
  | .mod _ m => .mod m
  | .unary op _ => .unary op
  | .binary op _ _ => .binary op

/-- A node is its symbol and its children. -/
theorem eq_of_symbol_of_children {t u : Expr} (symbols : t.symbol = u.symbol)
    (children : t.children = u.children) : t = u := by
  cases t <;> cases u <;> simp_all [symbol, Expr.children]

/-- As many children as there were can be put in their place, and the symbol stays. -/
theorem exists_withChildren (t : Expr) {children : List Expr}
    (as : children.length = t.children.length) :
    ∃ u, t.withChildren children = .ok u ∧ u.symbol = t.symbol ∧ u.children = children := by
  cases t with
  | const | var =>
      rw [List.length_eq_zero_iff.mp as]
      exact ⟨_, rfl, rfl, rfl⟩
  | mod | unary =>
      obtain ⟨new, rfl⟩ := List.length_eq_one_iff.mp as
      exact ⟨_, rfl, rfl, rfl⟩
  | binary =>
      obtain ⟨new, new', rfl⟩ := List.length_eq_two.mp as
      exact ⟨_, rfl, rfl, rfl⟩

/-- An index names a child, at a place among the children. -/
structure Names (t : Expr) (i : Int) (k : Nat) (child : Expr) : Prop where
  place : place? t.children.length i = some k
  found : t.children[k]? = some child

/-- The second expression is the first with another child at one place. -/
structure WithChild (t : Expr) (k : Nat) (new u : Expr) : Prop where
  symbol : u.symbol = t.symbol
  children : u.children = t.children.set k new

section
variable {t u v w child child' new new' : Expr} {i j : Int} {k l : Nat}

theorem Names.unique (names : t.Names i k child) (names' : t.Names i l child') :
    k = l ∧ child = child' := by
  have place : k = l := Option.some.inj (names.place.symm.trans names'.place)
  subst place
  exact ⟨rfl, Option.some.inj (names.found.symm.trans names'.found)⟩

theorem Names.lt_length (names : t.Names i k child) : k < t.children.length := by
  obtain ⟨inside, -⟩ := List.getElem?_eq_some_iff.mp names.found
  exact inside

theorem WithChild.unique (one : t.WithChild k new u) (other : t.WithChild k new v) : u = v :=
  eq_of_symbol_of_children (one.symbol.trans other.symbol.symm)
    (one.children.trans other.children.symm)

theorem exists_withChild (t : Expr) (k : Nat) (new : Expr) : ∃ u, t.WithChild k new u := by
  obtain ⟨u, -, symbol, children⟩ := t.exists_withChildren (List.length_set (i := k) (a := new))
  exact ⟨u, symbol, children⟩

/-- Rebuilding a node with one child replaced always succeeds, and gives that node. -/
theorem withChildren_set_iff :
    t.withChildren (t.children.set k new) = .ok u ↔ t.WithChild k new u := by
  obtain ⟨v, rebuilt, symbol, children⟩ :=
    t.exists_withChildren (List.length_set (i := k) (a := new))
  have put : t.WithChild k new v := ⟨symbol, children⟩
  rw [rebuilt, Except.ok.injEq]
  constructor
  · intro same
    rwa [← same]
  · intro put'
    exact put.unique put'

/-- The new child is found where it was put. -/
theorem Names.put (names : t.Names i k child) (put : t.WithChild k new u) : u.Names i k new := by
  constructor
  · rw [put.children, List.length_set]
    exact names.place
  · rw [put.children]
    exact List.getElem?_set_self names.lt_length

/-- The other children are found where they were. -/
theorem Names.put_other (names : t.Names i k child) (put : t.WithChild l new u) (other : l ≠ k) :
    u.Names i k child := by
  constructor
  · rw [put.children, List.length_set]
    exact names.place
  · rw [put.children, List.getElem?_set_ne other]
    exact names.found

/-- Putting the child that is there changes nothing. -/
theorem Names.put_same (names : t.Names i k child) : t.WithChild k child t := by
  obtain ⟨inside, found⟩ := List.getElem?_eq_some_iff.mp names.found
  refine ⟨rfl, ?_⟩
  rw [← found]
  exact (List.set_getElem_self inside).symm

/-- Of two children put at one place the second stays. -/
theorem WithChild.again (first : t.WithChild k new u) (second : t.WithChild k new' v) :
    u.WithChild k new' v := by
  refine ⟨second.symbol.trans first.symbol.symm, ?_⟩
  rw [second.children, first.children, List.set_set]

/-- Children put at two places are put there in either order. -/
theorem WithChild.swap (one : t.WithChild k new u) (other : t.WithChild l new' v)
    (both : u.WithChild l new' w) (apart : k ≠ l) : v.WithChild k new w := by
  refine ⟨both.symbol.trans (one.symbol.trans other.symbol.symm), ?_⟩
  rw [both.children, one.children, other.children, List.set_comm _ _ apart]

/-- An index from the left names the child at that place. -/
theorem names_iff (fromLeft : 0 ≤ i) :
    t.Names i k child ↔ i = k ∧ t.children[k]? = some child := by
  have placed (count : Nat) : place? count i = some k ↔ i = k ∧ k < count := by
    unfold place?
    grind
  constructor
  · rintro ⟨place, found⟩
    exact ⟨((placed _).mp place).1, found⟩
  · rintro ⟨index, found⟩
    obtain ⟨inside, -⟩ := List.getElem?_eq_some_iff.mp found
    exact ⟨(placed _).mpr ⟨index, inside⟩, found⟩

/-- Two indices from the left name two places. -/
theorem Names.apart (names : t.Names i k child) (names' : t.Names j l child') (first : 0 ≤ i)
    (second : 0 ≤ j) (two : i ≠ j) : k ≠ l := by
  obtain ⟨index, -⟩ := (names_iff first).mp names
  obtain ⟨index', -⟩ := (names_iff second).mp names'
  rw [index, index'] at two
  exact fun same => two (congrArg _ same)

end

/-! ### One step of a path -/

section
variable {t u node replacement : Expr} {i : Int} {rest : Path}

/-- Below a node, a path leads where the rest of it leads from the child. -/
theorem get?_cons_eq_some_iff :
    t.get? (i :: rest) = some node ↔
      ∃ k child, t.Names i k child ∧ child.get? rest = some node := by
  rw [get?, child?, Option.bind_eq_some_iff]
  constructor
  · rintro ⟨child, named, leads⟩
    obtain ⟨k, place, found⟩ := Option.bind_eq_some_iff.mp named
    exact ⟨k, child, ⟨place, found⟩, leads⟩
  · rintro ⟨k, child, ⟨place, found⟩, leads⟩
    exact ⟨child, Option.bind_eq_some_iff.mpr ⟨k, place, found⟩, leads⟩

/-- Below a node, a replacement puts a new child into the node. -/
theorem replace?_cons_eq_some_iff :
    t.replace? (i :: rest) replacement = some u ↔
      ∃ k child new, t.Names i k child ∧ child.replace? rest replacement = some new ∧
        t.WithChild k new u := by
  have rebuilt (k : Nat) (new : Expr) :
      (t.withChildren (t.children.set k new)).toOption = some u ↔ t.WithChild k new u := by
    rw [← withChildren_set_iff]
    cases t.withChildren (t.children.set k new) <;> simp [Except.toOption]
  simp only [replace?, Option.bind_eq_bind, Option.bind_eq_some_iff, rebuilt]
  constructor
  · rintro ⟨k, place, child, found, new, replaced, put⟩
    exact ⟨k, child, new, ⟨place, found⟩, replaced, put⟩
  · rintro ⟨k, child, new, ⟨place, found⟩, replaced, put⟩
    exact ⟨k, place, child, found, new, replaced, put⟩

end

/-! ### Looking up and replacing -/

section
variable {t u v node r s : Expr} {p q : Path}

/-- Where a path leads to a node, the node can be replaced. -/
theorem exists_replace? (leads : t.get? p = some node) (r : Expr) :
    ∃ u, t.replace? p r = some u := by
  induction p generalizing t with
  | nil => exact ⟨r, rfl⟩
  | cons i rest ih =>
      obtain ⟨k, child, names, below⟩ := get?_cons_eq_some_iff.mp leads
      obtain ⟨new, replaced⟩ := ih below
      obtain ⟨u, put⟩ := t.exists_withChild k new
      exact ⟨u, replace?_cons_eq_some_iff.mpr ⟨k, child, new, names, replaced, put⟩⟩

/-- Where a node can be replaced, the path leads to one. -/
theorem exists_get? (replaced : t.replace? p r = some u) : ∃ node, t.get? p = some node := by
  induction p generalizing t u with
  | nil => exact ⟨t, rfl⟩
  | cons i rest ih =>
      obtain ⟨k, child, new, names, below, -⟩ := replace?_cons_eq_some_iff.mp replaced
      obtain ⟨node, leads⟩ := ih below
      exact ⟨node, get?_cons_eq_some_iff.mpr ⟨k, child, names, leads⟩⟩

theorem replace?_of_get? (leads : t.get? p = some node) (r : Expr) :
    t.replace? p r = some (t.replaceAt p r) := by
  obtain ⟨u, replaced⟩ := exists_replace? leads r
  rw [replaceAt, replaced, Option.getD_some]

/-- What was put in is found. -/
theorem get?_replace? (replaced : t.replace? p r = some u) : u.get? p = some r := by
  induction p generalizing t u with
  | nil =>
      obtain rfl := Option.some.inj replaced
      rfl
  | cons i rest ih =>
      obtain ⟨k, child, new, names, below, put⟩ := replace?_cons_eq_some_iff.mp replaced
      exact get?_cons_eq_some_iff.mpr ⟨k, new, names.put put, ih below⟩

/-- Putting in what is there changes nothing. -/
theorem replace?_get? (leads : t.get? p = some node) : t.replace? p node = some t := by
  induction p generalizing t with
  | nil => exact leads.symm
  | cons i rest ih =>
      obtain ⟨k, child, names, below⟩ := get?_cons_eq_some_iff.mp leads
      exact replace?_cons_eq_some_iff.mpr ⟨k, child, child, names, ih below, names.put_same⟩

/-- Of two replacements at one place the second stays. -/
theorem replace?_replace? (first : t.replace? p r = some u) (second : t.replace? p s = some v) :
    u.replace? p s = some v := by
  induction p generalizing t u v with
  | nil => exact second
  | cons i rest ih =>
      obtain ⟨k, child, new, names, below, put⟩ := replace?_cons_eq_some_iff.mp first
      obtain ⟨l, child', new', names', below', put'⟩ := replace?_cons_eq_some_iff.mp second
      obtain ⟨rfl, rfl⟩ := names.unique names'
      have again := ih below below'
      exact replace?_cons_eq_some_iff.mpr ⟨k, new, new', names.put put, again, put.again put'⟩

/-- A node that is neither above nor below a replacement stays where it is. -/
theorem get?_replace?_of_apart (fromLeft : ∀ i ∈ p, 0 ≤ i) (fromLeft' : ∀ i ∈ q, 0 ≤ i)
    (notAbove : ¬p <+: q) (notBelow : ¬q <+: p) (replaced : t.replace? p r = some u)
    (leads : t.get? q = some node) : u.get? q = some node := by
  induction p generalizing t u q with
  | nil => exact absurd List.nil_prefix notAbove
  | cons i rest ih =>
      cases q with
      | nil => exact absurd List.nil_prefix notBelow
      | cons j rest' =>
          obtain ⟨k, child, new, names, below, put⟩ := replace?_cons_eq_some_iff.mp replaced
          obtain ⟨l, child', names', leads'⟩ := get?_cons_eq_some_iff.mp leads
          obtain ⟨left, lefts⟩ := List.forall_mem_cons.mp fromLeft
          obtain ⟨left', lefts'⟩ := List.forall_mem_cons.mp fromLeft'
          apply get?_cons_eq_some_iff.mpr
          by_cases same : i = j
          · subst same
            obtain ⟨rfl, rfl⟩ := names.unique names'
            simp only [List.cons_prefix_cons, true_and] at notAbove notBelow
            exact ⟨k, new, names.put put, ih lefts lefts' notAbove notBelow below leads'⟩
          · have apart := names.apart names' left left' same
            exact ⟨l, child', names'.put_other put apart, leads'⟩

/-- Neither above nor below a replacement anything is lost or new. -/
theorem get?_replace?_eq (fromLeft : ∀ i ∈ p, 0 ≤ i) (fromLeft' : ∀ i ∈ q, 0 ≤ i)
    (notAbove : ¬p <+: q) (notBelow : ¬q <+: p) (replaced : t.replace? p r = some u) :
    u.get? q = t.get? q := by
  obtain ⟨old, leads⟩ := exists_get? replaced
  -- Putting the old node back is a replacement too.
  have undone : u.replace? p old = some t := replace?_replace? replaced (replace?_get? leads)
  cases found : t.get? q with
  | some node => exact get?_replace?_of_apart fromLeft fromLeft' notAbove notBelow replaced found
  | none =>
      cases found' : u.get? q with
      | none => rfl
      | some node =>
          have kept := get?_replace?_of_apart fromLeft fromLeft' notAbove notBelow undone found'
          rw [found] at kept
          cases kept

/-- Above a replacement the nodes keep their symbols. -/
theorem symbol_get?_replace? {i : Int} {rest : Path}
    (replaced : t.replace? (q ++ i :: rest) r = some u) :
    (u.get? q).map symbol = (t.get? q).map symbol := by
  induction q generalizing t u with
  | nil =>
      obtain ⟨k, child, new, -, -, put⟩ := replace?_cons_eq_some_iff.mp replaced
      exact congrArg some put.symbol
  | cons j above ih =>
      obtain ⟨k, child, new, names, below, put⟩ := replace?_cons_eq_some_iff.mp replaced
      have names' := names.put put
      have step {v w : Expr} (named : v.Names j k w) : v.get? (j :: above) = w.get? above := by
        rw [get?, child?, named.place, Option.bind_some, named.found, Option.bind_some]
      rw [step names, step names', ih below]

/-- Replacements at two places neither of which is above the other may be made in either order. -/
theorem replace?_comm (fromLeft : ∀ i ∈ p, 0 ≤ i) (fromLeft' : ∀ i ∈ q, 0 ≤ i)
    (notAbove : ¬p <+: q) (notBelow : ¬q <+: p) (one : t.replace? p r = some u)
    (other : t.replace? q s = some v) :
    ∃ w, u.replace? q s = some w ∧ v.replace? p r = some w := by
  induction p generalizing t u v q with
  | nil => exact absurd List.nil_prefix notAbove
  | cons i rest ih =>
      cases q with
      | nil => exact absurd List.nil_prefix notBelow
      | cons j rest' =>
          obtain ⟨k, child, new, names, below, put⟩ := replace?_cons_eq_some_iff.mp one
          obtain ⟨l, child', new', names', below', put'⟩ := replace?_cons_eq_some_iff.mp other
          obtain ⟨left, lefts⟩ := List.forall_mem_cons.mp fromLeft
          obtain ⟨left', lefts'⟩ := List.forall_mem_cons.mp fromLeft'
          by_cases same : i = j
          · subst same
            obtain ⟨rfl, rfl⟩ := names.unique names'
            simp only [List.cons_prefix_cons, true_and] at notAbove notBelow
            obtain ⟨both, again, again'⟩ := ih lefts lefts' notAbove notBelow below below'
            obtain ⟨w, whole⟩ := t.exists_withChild k both
            exact ⟨w,
              replace?_cons_eq_some_iff.mpr ⟨k, new, both, names.put put, again, put.again whole⟩,
              replace?_cons_eq_some_iff.mpr
                ⟨k, new', both, names.put put', again', put'.again whole⟩⟩
          · have apart := names.apart names' left left' same
            obtain ⟨w, whole⟩ := u.exists_withChild l new'
            exact ⟨w,
              replace?_cons_eq_some_iff.mpr
                ⟨l, child', new', names'.put_other put apart, below', whole⟩,
              replace?_cons_eq_some_iff.mpr
                ⟨k, child, new, names.put_other put' apart.symm, below, put.swap put' whole apart⟩⟩

end

/-! ### All nodes -/

/-- Nodes of a child, with their paths from its parent. -/
def under (i : Int) (places : List (Path × Expr)) : List (Path × Expr) :=
  places.map fun place => (i :: place.1, place.2)

theorem positionsFrom_eq_map (t : Expr) (path : Path) :
    t.positionsFrom path = t.positions.map fun place => (path ++ place.1, place.2) := by
  unfold positions
  induction t generalizing path with
  | const | var => simp [positionsFrom]
  | mod child m ih =>
      simp only [positionsFrom, ih (path ++ [0]), ih ([] ++ [0])]
      simp
  | unary op child ih =>
      simp only [positionsFrom, ih (path ++ [0]), ih ([] ++ [0])]
      simp
  | binary op left right ihLeft ihRight =>
      simp only [positionsFrom, ihLeft (path ++ [0]), ihRight (path ++ [1]),
        ihLeft ([] ++ [0]), ihRight ([] ++ [1])]
      simp [Function.comp_def]

@[simp] theorem positions_const (v : Float) : (Expr.const v).positions = [([], .const v)] := rfl

@[simp] theorem positions_var : Expr.var.positions = [([], .var)] := rfl

@[simp] theorem positions_mod (child : Expr) (m : Modulus) :
    (Expr.mod child m).positions = ([], .mod child m) :: under 0 child.positions := by
  rw [positions, positionsFrom, positionsFrom_eq_map]
  rfl

@[simp] theorem positions_unary (op : UnaryOp) (child : Expr) :
    (Expr.unary op child).positions = ([], .unary op child) :: under 0 child.positions := by
  rw [positions, positionsFrom, positionsFrom_eq_map]
  rfl

@[simp] theorem positions_binary (op : BinaryOp) (left right : Expr) :
    (Expr.binary op left right).positions =
      ([], .binary op left right) :: (under 0 left.positions ++ under 1 right.positions) := by
  rw [positions, positionsFrom, positionsFrom_eq_map, positionsFrom_eq_map]
  rfl

@[simp] theorem mem_under_nil {i : Int} {places : List (Path × Expr)} {node : Expr} :
    ([], node) ∉ under i places := by
  simp [under]

@[simp] theorem mem_under_cons {i j : Int} {places : List (Path × Expr)} {rest : Path}
    {node : Expr} : (j :: rest, node) ∈ under i places ↔ j = i ∧ (rest, node) ∈ places := by
  simp [under, eq_comm, and_comm]

theorem mem_positions_nil {t node : Expr} : ([], node) ∈ t.positions ↔ node = t := by
  cases t <;> simp

/-- The nodes below the root are those of the children. -/
theorem mem_positions_cons {t node : Expr} {i : Int} {rest : Path} :
    (i :: rest, node) ∈ t.positions ↔
      ∃ (k : Nat) (child : Expr),
        i = k ∧ t.children[k]? = some child ∧ (rest, node) ∈ child.positions := by
  have single (child : Expr) : (i = 0 ∧ (rest, node) ∈ child.positions) ↔
      ∃ (k : Nat) (c : Expr), i = k ∧ [child][k]? = some c ∧ (rest, node) ∈ c.positions := by
    constructor
    · rintro ⟨first, listed⟩
      exact ⟨0, child, first, rfl, listed⟩
    · rintro ⟨k, c, index, found, listed⟩
      cases k with
      | zero => exact ⟨index, Option.some.inj found ▸ listed⟩
      | succ k => cases found
  cases t with
  | const v => simp [children]
  | var => simp [children]
  | mod child m => simpa [children] using single child
  | unary op child => simpa [children] using single child
  | binary op left right =>
      simp only [positions_binary, List.mem_cons, List.mem_append, mem_under_cons, Prod.mk.injEq,
        reduceCtorEq, false_and, false_or, children]
      constructor
      · rintro (⟨first, listed⟩ | ⟨second, listed⟩)
        · exact ⟨0, left, first, rfl, listed⟩
        · exact ⟨1, right, second, rfl, listed⟩
      · rintro ⟨k, c, index, found, listed⟩
        match k with
        | 0 => exact .inl ⟨index, Option.some.inj found ▸ listed⟩
        | 1 => exact .inr ⟨index, Option.some.inj found ▸ listed⟩
        | k + 2 => cases found

/-- Listed are exactly the paths from the left that lead to a node, each with that node. -/
theorem mem_positions_iff {t node : Expr} {path : Path} :
    (path, node) ∈ t.positions ↔ (∀ i ∈ path, 0 ≤ i) ∧ t.get? path = some node := by
  induction path generalizing t with
  | nil =>
      rw [mem_positions_nil]
      simp [get?, eq_comm]
  | cons i rest ih =>
      rw [mem_positions_cons, List.forall_mem_cons, get?_cons_eq_some_iff]
      constructor
      · rintro ⟨k, child, rfl, found, listed⟩
        obtain ⟨fromLeft, leads⟩ := ih.mp listed
        have names := (names_iff (Int.natCast_nonneg k)).mpr ⟨rfl, found⟩
        exact ⟨⟨Int.natCast_nonneg k, fromLeft⟩, k, child, names, leads⟩
      · rintro ⟨⟨first, fromLeft⟩, k, child, names, leads⟩
        obtain ⟨index, found⟩ := (names_iff first).mp names
        exact ⟨k, child, index, found, ih.mpr ⟨fromLeft, leads⟩⟩

/-- Every listed path leads to the node that it is listed with. -/
theorem get?_of_mem_positions {t node : Expr} {path : Path} (listed : (path, node) ∈ t.positions) :
    t.get? path = some node :=
  (mem_positions_iff.mp listed).2

/-- In the order of the paths, a node comes before what is below it, and what is below an earlier
child before what is below a later one. -/
theorem positions_ordered (t : Expr) : (t.positions.map Prod.fst).Pairwise (· < ·) := by
  have below (i : Int) (places : List (Path × Expr))
      (ordered : (places.map Prod.fst).Pairwise (· < ·)) :
      ((under i places).map Prod.fst).Pairwise (· < ·) := by
    rw [List.pairwise_map] at ordered
    rw [under, List.map_map, List.pairwise_map]
    apply ordered.imp
    intro a b before
    exact List.cons_lt_cons_iff.mpr (.inr ⟨rfl, before⟩)
  have root (i : Int) (places : List (Path × Expr)) :
      ∀ path ∈ (under i places).map Prod.fst, [] < path := by
    intro path listed
    simp only [under, List.map_map, List.mem_map] at listed
    obtain ⟨place, -, rfl⟩ := listed
    exact List.nil_lt_cons _ _
  induction t with
  | const v => simp
  | var => simp
  | mod child m ih =>
      rw [positions_mod, List.map_cons, List.pairwise_cons]
      exact ⟨root 0 _, below 0 _ ih⟩
  | unary op child ih =>
      rw [positions_unary, List.map_cons, List.pairwise_cons]
      exact ⟨root 0 _, below 0 _ ih⟩
  | binary op left right ihLeft ihRight =>
      rw [positions_binary, List.map_cons, List.map_append, List.pairwise_cons,
        List.pairwise_append]
      refine ⟨?_, below 0 _ ihLeft, below 1 _ ihRight, ?_⟩
      · intro path listed
        rcases List.mem_append.mp listed with first | second
        · exact root 0 _ path first
        · exact root 1 _ path second
      · intro path first path' second
        simp only [under, List.map_map, List.mem_map] at first second
        obtain ⟨place, -, rfl⟩ := first
        obtain ⟨place', -, rfl⟩ := second
        exact List.cons_lt_cons_iff.mpr (.inl Int.zero_lt_one)

/-! ### Nodes as a collection -/

/-- The symbols of all nodes, each as often as it occurs. -/
def symbols (t : Expr) : Multiset Symbol := t.positions.map fun place => place.2.symbol

theorem card_symbols (t : Expr) : t.symbols.card = t.size := by
  rw [symbols, Multiset.coe_card, List.length_map]
  exact t.positionsFrom_length []

/-- The nodes are the root and those of the children. -/
theorem symbols_eq (t : Expr) : t.symbols = {t.symbol} + (t.children.map symbols).sum := by
  have below (i : Int) (child : Expr) :
      ((under i child.positions).map fun place => place.2.symbol) =
        child.positions.map fun place => place.2.symbol := by
    rw [under, List.map_map]
    rfl
  cases t <;> simp [symbols, children, below]

theorem sum_map_set {α M : Type} [AddCommMonoid M] (f : α → M) {xs : List α} {k : Nat} {x : α}
    (found : xs[k]? = some x) (y : α) :
    ((xs.set k y).map f).sum + f x = (xs.map f).sum + f y := by
  obtain ⟨inside, rfl⟩ := List.getElem?_eq_some_iff.mp found
  have before := ((List.getElem_cons_eraseIdx_perm inside).map f).sum_eq
  have after := ((List.set_perm_cons_eraseIdx inside y).map f).sum_eq
  rw [after, ← before]
  simp only [List.map_cons, List.sum_cons]
  ac_rfl

/-- A replacement takes away the nodes of what it replaces and brings its own. -/
theorem symbols_replace? {t u node r : Expr} {path : Path} (leads : t.get? path = some node)
    (replaced : t.replace? path r = some u) :
    u.symbols + node.symbols = t.symbols + r.symbols := by
  induction path generalizing t u with
  | nil =>
      obtain rfl := Option.some.inj leads
      obtain rfl := Option.some.inj replaced
      exact add_comm _ _
  | cons i rest ih =>
      obtain ⟨k, child, names, below⟩ := get?_cons_eq_some_iff.mp leads
      obtain ⟨l, child', new, names', below', put⟩ := replace?_cons_eq_some_iff.mp replaced
      obtain ⟨rfl, rfl⟩ := names.unique names'
      have inside := ih below below'
      have around := sum_map_set symbols names.found new
      rw [t.symbols_eq, u.symbols_eq, put.symbol, put.children]
      -- The child's nodes are on both sides, and may be taken off.
      apply add_right_cancel (b := child.symbols)
      calc _ = {t.symbol} + (((t.children.set k new).map symbols).sum + child.symbols) +
              node.symbols := by ac_rfl
        _ = {t.symbol} + ((t.children.map symbols).sum + new.symbols) + node.symbols := by
              rw [around]
        _ = {t.symbol} + (t.children.map symbols).sum + (new.symbols + node.symbols) := by ac_rfl
        _ = {t.symbol} + (t.children.map symbols).sum + (child.symbols + r.symbols) := by
              rw [inside]
        _ = _ := by ac_rfl

theorem size_replace? {t u node r : Expr} {path : Path} (leads : t.get? path = some node)
    (replaced : t.replace? path r = some u) : u.size + node.size = t.size + r.size := by
  have cards := congrArg Multiset.card (symbols_replace? leads replaced)
  simpa only [Multiset.card_add, card_symbols] using cards

/-- A random descent ends at a listed node. -/
theorem randomPath_yields (t : Expr) :
    t.randomPath.Yields fun path => ∃ node, (path, node) ∈ t.positions := by
  have root {u : Expr} :
      (pure [] : Draw Path).Yields fun path => ∃ node, (path, node) ∈ u.positions :=
    .pure ⟨u, mem_positions_nil.mpr rfl⟩
  have down {u child : Expr} {k : Nat} (found : u.children[k]? = some child)
      (inside : child.randomPath.Yields fun path => ∃ node, (path, node) ∈ child.positions) :
      (do let path ← child.randomPath; return (k : Int) :: path : Draw Path).Yields
        fun path => ∃ node, (path, node) ∈ u.positions := by
    refine .bind inside fun path ends => .pure ?_
    obtain ⟨node, listed⟩ := ends
    exact ⟨node, mem_positions_cons.mpr ⟨k, child, rfl, found, listed⟩⟩
  induction t with
  | const v => exact root
  | var => exact root
  | mod child m ih =>
      refine .bind (.any _) fun stop _ => .ite (fun _ => root) fun _ => ?_
      exact .bind (.any _) fun _ _ => down (k := 0) rfl ih
  | unary op child ih =>
      refine .bind (.any _) fun stop _ => .ite (fun _ => root) fun _ => ?_
      exact .bind (.any _) fun _ _ => down (k := 0) rfl ih
  | binary op left right ihLeft ihRight =>
      refine .bind (.any _) fun stop _ => .ite (fun _ => root) fun _ => ?_
      refine .bind (.any _) fun i _ => .ite (fun _ => ?_) fun _ => ?_
      · exact down (k := 0) rfl ihLeft
      · exact down (k := 1) rfl ihRight

/-! ### Paths that lead nowhere

Looking up fails at an index that names no child.  Replacing might fail for another reason, since it
rebuilds the nodes on the way from lists of children; here both are spelled out with their reasons.
-/

/-- Why a path cannot be followed, or a node on it not be rebuilt. -/
inductive PathFault where
  | noChild (index : Int)
  | arity (error : ArityMismatch)

/-- The child that an index names, or why there is none. -/
def fetchChild (t : Expr) (i : Int) : Except PathFault Expr :=
  match t.child? i with
  | some child => .ok child
  | none => .error (.noChild i)

/-- The node at the end of a path, or why there is none. -/
def fetch (t : Expr) : Path → Except PathFault Expr
  | [] => .ok t
  | i :: rest => do
      let child ← t.fetchChild i
      child.fetch rest

/-- The node rebuilt with another child in the place that an index names. -/
def storeChild (t : Expr) (i : Int) (new : Expr) : Except PathFault Expr :=
  match place? t.children.length i with
  | none => .error (.noChild i)
  | some k =>
      match t.withChildren (t.children.set k new) with
      | .ok u => .ok u
      | .error e => .error (.arity e)

/-- The expression with the node at the end of a path replaced, or why that cannot be. -/
def store (t : Expr) (path : Path) (replacement : Expr) : Except PathFault Expr :=
  match path with
  | [] => .ok replacement
  | i :: rest => do
      let child ← t.fetchChild i
      let new ← child.store rest replacement
      t.storeChild i new

section
variable {t u child new r : Expr} {i : Int} {p : Path}

theorem fetchChild_eq_ok_iff : t.fetchChild i = .ok child ↔ ∃ k, t.Names i k child := by
  have named : t.child? i = some child ↔ ∃ k, t.Names i k child := by
    rw [child?, Option.bind_eq_some_iff]
    exact ⟨fun ⟨k, place, found⟩ => ⟨k, place, found⟩, fun ⟨k, place, found⟩ => ⟨k, place, found⟩⟩
  rw [← named, fetchChild]
  cases t.child? i <;> simp

/-- Where an index names a child, another one can be put there. -/
theorem Names.storeChild_eq {k : Nat} (names : t.Names i k child) (put : t.WithChild k new u) :
    t.storeChild i new = .ok u := by
  rw [storeChild, names.place]
  dsimp only
  rw [withChildren_set_iff.mpr put]

theorem fetchChild_eq_error (nameless : t.child? i = none) :
    t.fetchChild i = .error (.noChild i) := by
  rw [fetchChild, nameless]

/-- What is fetched is what is found. -/
theorem toOption_fetch (t : Expr) (p : Path) : (t.fetch p).toOption = t.get? p := by
  induction p generalizing t with
  | nil => rfl
  | cons i rest ih =>
      rw [fetch, get?, fetchChild]
      cases t.child? i with
      | none => rfl
      | some child => exact ih child

/-- Fetching only fails at an index of the path that names no child. -/
theorem fetch_fault {e : PathFault} (fails : t.fetch p = .error e) : ∃ i ∈ p, e = .noChild i := by
  induction p generalizing t with
  | nil => cases fails
  | cons i rest ih =>
      cases named : t.child? i with
      | none =>
          rw [fetch, fetchChild_eq_error named] at fails
          exact ⟨i, List.mem_cons_self, (Except.error.inj fails).symm⟩
      | some child =>
          rw [fetch, fetchChild, named] at fails
          obtain ⟨j, below, fault⟩ := ih fails
          exact ⟨j, List.mem_cons_of_mem i below, fault⟩

theorem replace?_eq_map (t : Expr) (p : Path) (r : Expr) :
    t.replace? p r = (t.get? p).map fun _ => t.replaceAt p r := by
  cases leads : t.get? p with
  | some node => exact replace?_of_get? leads r
  | none =>
      cases replaced : t.replace? p r with
      | none => rfl
      | some u =>
          obtain ⟨node, leads'⟩ := exists_get? replaced
          rw [leads] at leads'
          cases leads'

/-- Storing fails exactly where fetching does, and for the same reason: the nodes on the way are
never rebuilt from too many or too few children. -/
theorem store_eq_map (t : Expr) (p : Path) (r : Expr) :
    t.store p r = (t.fetch p).map fun _ => t.replaceAt p r := by
  induction p generalizing t with
  | nil => rfl
  | cons i rest ih =>
      cases fetched : t.fetchChild i with
      | error e =>
          rw [store, fetch, fetched]
          rfl
      | ok child =>
          obtain ⟨k, names⟩ := fetchChild_eq_ok_iff.mp fetched
          have found := child.toOption_fetch rest
          rw [store, fetch, fetched]
          change child.store rest r >>= t.storeChild i = (child.fetch rest).map _
          rw [ih child]
          cases below : child.fetch rest with
          | error e => rfl
          | ok node =>
              rw [below] at found
              obtain ⟨u, put⟩ := t.exists_withChild k (child.replaceAt rest r)
              have replaced := replace?_cons_eq_some_iff.mpr
                ⟨k, child, _, names, replace?_of_get? found.symm r, put⟩
              have whole : t.replaceAt (i :: rest) r = u := by
                rw [replaceAt, replaced, Option.getD_some]
              rw [whole]
              exact names.storeChild_eq put

/-- What is stored is what a replacement gives. -/
theorem toOption_store (t : Expr) (p : Path) (r : Expr) :
    (t.store p r).toOption = t.replace? p r := by
  rw [store_eq_map, replace?_eq_map, ← toOption_fetch]
  cases t.fetch p <;> rfl

theorem store_eq_error_iff {e : PathFault} : t.store p r = .error e ↔ t.fetch p = .error e := by
  rw [store_eq_map]
  cases t.fetch p <;> simp [Except.map]

end

/-! ### The laws together -/

/-- Addressing obeys the laws of a lens.  All nodes are listed, each at its path from the left and
in the order of the paths: a node before what is below it, and an earlier child before a later one.
At every listed place a replacement is found where it was put, putting in what is there changes
nothing, the second of two replacements stays, and the sizes add up.  Replacements at two places
neither of which is above the other leave each other's node alone and may be made in either order.
A path of any indices can be replaced at exactly if it can be followed: the two fail at the same
index, and only at an index that names no child. -/
theorem addressing_lawful (t : Expr) :
    (∀ path node, (path, node) ∈ t.positions ↔
      (∀ i ∈ path, 0 ≤ i) ∧ t.get? path = some node) ∧
    (t.positions.map Prod.fst).Pairwise (· < ·) ∧
    t.positions.length = t.size ∧
    (∀ path node, (path, node) ∈ t.positions → ∀ r s, ∃ u, t.replace? path r = some u ∧
      u.get? path = some r ∧
      t.replace? path node = some t ∧
      u.replace? path s = t.replace? path s ∧
      u.size + node.size = t.size + r.size) ∧
    (∀ path node path' node', (path, node) ∈ t.positions → (path', node') ∈ t.positions →
      ¬path <+: path' → ¬path' <+: path → ∀ r s, ∃ u v w,
        t.replace? path r = some u ∧ u.get? path' = some node' ∧ u.replace? path' s = some w ∧
        t.replace? path' s = some v ∧ v.get? path = some node ∧ v.replace? path r = some w) ∧
    (∀ path r, (t.fetch path).toOption = t.get? path ∧
      (t.store path r).toOption = t.replace? path r ∧
      ∀ e, (t.store path r = .error e ↔ t.fetch path = .error e) ∧
        (t.fetch path = .error e → ∃ i ∈ path, e = .noChild i)) := by
  refine ⟨fun path node => mem_positions_iff, t.positions_ordered, t.positionsFrom_length [], ?_, ?_,
    ?_⟩
  · intro path node listed r s
    have leads := get?_of_mem_positions listed
    obtain ⟨u, replaced⟩ := exists_replace? leads r
    obtain ⟨v, replaced'⟩ := exists_replace? leads s
    have again : u.replace? path s = t.replace? path s := by
      rw [replaced', replace?_replace? replaced replaced']
    exact ⟨u, replaced, get?_replace? replaced, replace?_get? leads, again,
      size_replace? leads replaced⟩
  · intro path node path' node' listed listed' notAbove notBelow r s
    obtain ⟨fromLeft, leads⟩ := mem_positions_iff.mp listed
    obtain ⟨fromLeft', leads'⟩ := mem_positions_iff.mp listed'
    obtain ⟨u, one⟩ := exists_replace? leads r
    obtain ⟨v, other⟩ := exists_replace? leads' s
    obtain ⟨w, both, both'⟩ := replace?_comm fromLeft fromLeft' notAbove notBelow one other
    have kept' := get?_replace?_of_apart fromLeft fromLeft' notAbove notBelow one leads'
    have kept := get?_replace?_of_apart fromLeft' fromLeft notBelow notAbove other leads
    exact ⟨u, v, w, one, kept', both, other, kept, both'⟩
  · intro path r
    exact ⟨t.toOption_fetch path, t.toOption_store path r, fun e =>
      ⟨store_eq_error_iff, fetch_fault⟩⟩

/-- In `sin(n) + n * 3` the argument of the sine and the factor `3` are apart, and both may be
replaced in either order; a third child of the sum is neither found nor replaced. -/
theorem addressing_lawful_sum :
    let t : Expr := .binary .add (.unary .sin .var) (.binary .mul .var (.const 3.0))
    ([0, 0], .var) ∈ t.positions ∧ ([1, 1], .const 3.0) ∈ t.positions ∧
      (∃ u, t.replace? [0, 0] (.unary .abs .var) = some u ∧
        u.get? [0, 0] = some (.unary .abs .var) ∧ u.size = 7) ∧
      (∃ u v w, t.replace? [0, 0] (.const 1.0) = some u ∧ u.get? [1, 1] = some (.const 3.0) ∧
        u.replace? [1, 1] .var = some w ∧ t.replace? [1, 1] .var = some v ∧
        v.get? [0, 0] = some .var ∧ v.replace? [0, 0] (.const 1.0) = some w) ∧
      t.store [-3, 0] .var = .error (.noChild (-3)) := by
  intro t
  have laws := addressing_lawful t
  obtain ⟨listing, -, -, alone, apart, faults⟩ := laws
  have first : ([0, 0], .var) ∈ t.positions := (listing _ _).mpr ⟨by decide, rfl⟩
  have second : ([1, 1], .const 3.0) ∈ t.positions := (listing _ _).mpr ⟨by decide, rfl⟩
  refine ⟨first, second, ?_, apart _ _ _ _ first second (by decide) (by decide) _ _, ?_⟩
  · obtain ⟨u, replaced, found, -, -, sizes⟩ := alone _ _ first (.unary .abs .var) .var
    exact ⟨u, replaced, found, Nat.add_right_cancel sizes⟩
  · exact ((faults _ _).2.2 _).1.mpr rfl

end PrimeSearch.Expr
