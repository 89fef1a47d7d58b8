/-
Module: PrimeSearch.Proofs.Expr.Skeleton
Purpose: Other constants in an expression, and what is left of an expression without its constants.
Main exports: Expr.mapConst, Expr.positions_mapConst, Expr.get?_mapConst, Expr.layout,
  Expr.layout_mapConst, Expr.skeleton, Expr.skeleton_eq_of_agrees
-/
import PrimeSearch.Proofs.Expr.Addressing

namespace PrimeSearch.Expr

/-!
Other constants change neither the places of an expression nor what stands there, constants apart.
What stays is the skeleton: the expression with one and the same constant in the place of all.
Expressions that are equal as numbers go have the same skeleton, so different skeletons tell
expressions apart whatever equality of constants means.
-/

/-- The expression with other constants. -/
def mapConst (change : Float → Float) : Expr → Expr
  | .const v => .const (change v)
  | .var => .var
  | .mod child m => .mod (child.mapConst change) m
  | .unary op child => .unary op (child.mapConst change)
  | .binary op left right => .binary op (left.mapConst change) (right.mapConst change)

/-- The symbol with another constant. -/
def Symbol.mapConst (change : Float → Float) : Symbol → Symbol
  | .const v => .const (change v)
  | s => s

section
variable (change : Float → Float) (t : Expr)

@[simp] theorem symbol_mapConst : (t.mapConst change).symbol = t.symbol.mapConst change := by
  cases t <;> rfl

@[simp] theorem children_mapConst :
    (t.mapConst change).children = t.children.map (mapConst change) := by
  cases t <;> rfl

@[simp] theorem size_mapConst : (t.mapConst change).size = t.size := by
  induction t with
  | const | var => rfl
  | mod child m ih => rw [mapConst, size, size, ih]
  | unary op child ih => rw [mapConst, size, size, ih]
  | binary op left right ihLeft ihRight => rw [mapConst, size, size, ihLeft, ihRight]

/-- The nodes stay where they are, each with other constants. -/
theorem positions_mapConst :
    (t.mapConst change).positions =
      t.positions.map fun place => (place.1, place.2.mapConst change) := by
  have below (i : Int) (places : List (Path × Expr)) :
      under i (places.map fun place => (place.1, place.2.mapConst change)) =
        (under i places).map fun place => (place.1, place.2.mapConst change) := by
    simp [under, Function.comp_def]
  induction t with
  | const | var => rfl
  | mod child m ih => rw [mapConst, positions_mod, positions_mod, ih, below]; rfl
  | unary op child ih => rw [mapConst, positions_unary, positions_unary, ih, below]; rfl
  | binary op left right ihLeft ihRight =>
      rw [mapConst, positions_binary, positions_binary, ihLeft, ihRight, below, below,
        List.map_cons, List.map_append]
      rfl

/-- Every path leads to the node it led to, with other constants. -/
theorem get?_mapConst (path : Path) :
    (t.mapConst change).get? path = (t.get? path).map (mapConst change) := by
  induction path generalizing t with
  | nil => rfl
  | cons i rest ih =>
      rw [get?, get?, child?, child?, children_mapConst, List.length_map]
      cases place? t.children.length i with
      | none => rfl
      | some k =>
          rw [Option.bind_some, Option.bind_some, List.getElem?_map]
          cases t.children[k]? with
          | none => rfl
          | some child => exact ih child

end

/-- All paths, each with the symbol of the node that it leads to. -/
def layout (t : Expr) : List (Path × Symbol) :=
  t.positions.map fun place => (place.1, place.2.symbol)

/-- Other constants change the symbols of the constants and nothing else in the layout. -/
theorem layout_mapConst (change : Float → Float) (t : Expr) :
    (t.mapConst change).layout = t.layout.map fun place => (place.1, place.2.mapConst change) := by
  simp [layout, positions_mapConst, Function.comp_def]

/-! ### Skeletons -/

/-- The expression without its constants: zero stands in the place of each. -/
def skeleton (t : Expr) : Expr := t.mapConst fun _ => 0.0

/-- Expressions that are equal as numbers go have the same skeleton. -/
theorem skeleton_eq_of_agrees {t u : Expr} (same : t.agrees u = true) : t.skeleton = u.skeleton := by
  unfold skeleton
  induction t generalizing u with
  | const v =>
      cases u <;> simp only [agrees, Bool.false_eq_true] at same
      rfl
  | var =>
      cases u <;> simp only [agrees, Bool.false_eq_true] at same
      rfl
  | mod child m ih =>
      cases u <;> simp only [agrees, Bool.and_eq_true, beq_iff_eq, Bool.false_eq_true] at same
      rw [mapConst, mapConst, ih same.1, same.2]
  | unary op child ih =>
      cases u <;> simp only [agrees, Bool.and_eq_true, beq_iff_eq, Bool.false_eq_true] at same
      rw [mapConst, mapConst, same.1, ih same.2]
  | binary op left right ihLeft ihRight =>
      cases u <;> simp only [agrees, Bool.and_eq_true, beq_iff_eq, Bool.false_eq_true] at same
      rw [mapConst, mapConst, same.1.1, ihLeft same.1.2, ihRight same.2]

end PrimeSearch.Expr
