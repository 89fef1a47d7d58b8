/-
Module: PrimeSearch.Proofs.Expr.Checks
Purpose: The operators on expressions with every check that making, rebuilding or finding a node
  calls for, and the proof that no such check ever fails.
Main exports: Fault, Checked, Checked.Passes, Expr.random_passes, Expr.mutate_passes,
  Expr.crossover_passes, SymmetricPair.derive_passes, SymmetricPair.mutate_passes
-/
import PrimeSearch.Proofs.Expr.Addressing
import PrimeSearch.Proofs.Search.Operators

namespace PrimeSearch

variable {α β γ : Type}

/-!
The operators put nodes together from operators and moduli that exist, and they go only to places
that are there.  Here each operator is spelled out once more over names, numbers and paths.  A node
is made from a name or a number that is looked up, a node is found by a path that may lead nowhere,
and a node is rebuilt from a list of children that may be too long or too short.  All of this may
fail, and it never does.
-/

/-- Why a node cannot be made, rebuilt or found, or a candidate cannot be made or used. -/
inductive Fault where
  | modulus (given : Int)
  | function (name : String)
  | operation (name : String)
  | arity (error : ArityMismatch)
  | noNode (path : Path)
  /-- A node that is no function, where the argument of one is wanted. -/
  | noArgument
  | candidate (error : CandidateError)
  | noPartner (error : NoPartner)

/-- A computation that draws and checks. -/
abbrev Checked (α : Type) := ExceptT Fault Draw α

namespace Checked

/-- From every source all checks pass, and what is drawn and made is what is drawn and made without
them. -/
def Passes (m : Checked α) (d : Draw α) : Prop :=
  ∀ source, m.run.run source = (.ok (d.run source).1, (d.run source).2)

namespace Passes

variable {m : Checked α} {d : Draw α}

theorem pure (a : α) : Passes (Pure.pure a) (Pure.pure a) := fun _ => rfl

theorem draw (d : Draw α) : Passes (liftM d) d := fun _ => rfl

theorem ite {c : Prop} [Decidable c] {n : Checked α} {e : Draw α} (yes : c → m.Passes d)
    (no : ¬c → n.Passes e) : Passes (if c then m else n) (if c then d else e) := by
  split
  next holds => exact yes holds
  next fails => exact no fails

/-- What follows may rely on what the first part yields. -/
theorem bind_of {Q : α → Prop} {f : α → Checked β} {g : α → Draw β} (first : m.Passes d)
    (drawn : d.Yields Q) (rest : ∀ a, Q a → (f a).Passes (g a)) : (m >>= f).Passes (d >>= g) := by
  intro source
  have run : (m >>= f).run.run source = (f (d.run source).1).run.run (d.run source).2 := by
    rw [ExceptT.run_bind, StateT.run_bind, first source]
    rfl
  rw [run]
  exact rest _ (drawn source) _

theorem bind {f : α → Checked β} {g : α → Draw β} (first : m.Passes d)
    (rest : ∀ a, (f a).Passes (g a)) : (m >>= f).Passes (d >>= g) :=
  first.bind_of (.any d) fun a _ => rest a

/-- Both sides draw alike, and each makes something of its own of what is drawn. -/
theorem bind_make {δ : Type} {drawn : Draw γ} {f : γ → α} {g : γ → δ} {next : α → Checked β}
    {next' : δ → Draw β} (rest : ∀ c, (next (f c)).Passes (next' (g c))) :
    ((liftM (drawn >>= fun c => Pure.pure (f c)) : Checked α) >>= next).Passes
      ((drawn >>= fun c => Pure.pure (g c)) >>= next') := fun _ => rest _ _

/-- An option and what it is called are chosen alike. -/
theorem bind_choose {options : List γ} {f : γ → α} {some : 0 < options.length}
    {some' : 0 < (options.map f).length} {next : α → Checked β} {next' : γ → Draw β}
    (rest : ∀ c ∈ options, (next (f c)).Passes (next' c)) :
    ((liftM (Draw.choose (options.map f) some') : Checked α) >>= next).Passes
      (Draw.choose options some >>= next') := by
  intro source
  have chosen := Draw.Yields.choose options some source
  have named : (Draw.choose (options.map f) some').run source =
      (f ((Draw.choose options some).run source).1, ((Draw.choose options some).run source).2) := by
    refine Prod.ext ?_ rfl
    change (options.map f).get ⟨Draw.indexOf (options.map f).length source.next.1, _⟩ =
      f (options.get ⟨Draw.indexOf options.length source.next.1, _⟩)
    simp only [List.get_eq_getElem, List.getElem_map, List.length_map]
  have run : ((liftM (Draw.choose (options.map f) some') : Checked α) >>= next).run.run source =
      (next ((Draw.choose (options.map f) some').run source).1).run.run
        ((Draw.choose (options.map f) some').run source).2 := rfl
  rw [run, named]
  exact rest _ chosen _

end Passes

end Checked

open Checked (Passes)

namespace Expr

/-! ### Making, rebuilding and finding nodes -/

/-- A subexpression reduced modulo a number. -/
def makeReduction (child : Expr) (given : Int) : Checked Expr :=
  match Modulus.ofInt? given with
  | some m => return .mod child m
  | none => throw (.modulus given)

/-- The function of a name applied to a subexpression. -/
def makeCall (name : String) (child : Expr) : Checked Expr :=
  match UnaryOp.ofName? name with
  | some op => return .unary op child
  | none => throw (.function name)

/-- The operation of a name on two subexpressions. -/
def makeOperation (name : String) (left right : Expr) : Checked Expr :=
  match BinaryOp.ofName? name with
  | some op => return .binary op left right
  | none => throw (.operation name)

/-- The same node with other children. -/
def rebuild (t : Expr) (children : List Expr) : Checked Expr :=
  match t.withChildren children with
  | .ok t => return t
  | .error e => throw (.arity e)

/-- The node at the end of a path. -/
def find (t : Expr) (path : Path) : Checked Expr :=
  match t.get? path with
  | some node => return node
  | none => throw (.noNode path)

/-- The expression with the node at the end of a path replaced. -/
def put (t : Expr) (path : Path) (replacement : Expr) : Checked Expr :=
  match t.replace? path replacement with
  | some t => return t
  | none => throw (.noNode path)

theorem makeReduction_eq {given : Int} {m : Modulus} (fits : Modulus.ofInt? given = some m)
    (child : Expr) : child.makeReduction given = pure (.mod child m) := by
  rw [makeReduction, fits]

@[simp] theorem makeCall_name (op : UnaryOp) (child : Expr) :
    makeCall op.name child = pure (.unary op child) := by
  have found : UnaryOp.ofName? op.name = some op := by cases op <;> decide
  rw [makeCall, found]

@[simp] theorem makeOperation_name (op : BinaryOp) (left right : Expr) :
    makeOperation op.name left right = pure (.binary op left right) := by
  have found : BinaryOp.ofName? op.name = some op := by cases op <;> decide
  rw [makeOperation, found]

@[simp] theorem rebuild_mod (child new : Expr) (m : Modulus) :
    (Expr.mod child m).rebuild [new] = pure (.mod new m) := rfl

@[simp] theorem rebuild_unary (op : UnaryOp) (child new : Expr) :
    (Expr.unary op child).rebuild [new] = pure (.unary op new) := rfl

@[simp] theorem rebuild_binary (op : BinaryOp) (left right new new' : Expr) :
    (Expr.binary op left right).rebuild [new, new'] = pure (.binary op new new') := rfl

theorem find_eq {t node : Expr} {path : Path} (leads : t.get? path = some node) :
    t.find path = pure node := by
  rw [find, leads]

theorem put_eq {t node : Expr} {path : Path} (leads : t.get? path = some node)
    (replacement : Expr) : t.put path replacement = pure (t.replaceAt path replacement) := by
  rw [put, replace?_of_get? leads]

/-! ### Random expressions -/

/-- A random modulus is a random number, and one that a reduction can be made with. -/
theorem reduction_passes (child : Expr) :
    ((liftM (Draw.integer minModulus (maxModulus - minModulus + 1) (by decide)) : Checked Int) >>=
        child.makeReduction).Passes (do
      let modulus ← randomModulus
      return .mod child modulus) := by
  refine .bind_make fun i => ?_
  have bound := i.isLt
  simp only [minModulus, maxModulus] at bound
  have fits : Modulus.ofInt? ((minModulus : Int) + i.val) = some ⟨minModulus + i.val, _, _⟩ :=
    dif_pos (by simp only [minModulus, maxModulus]; omega)
  rw [makeReduction_eq fits]
  exact .pure _

/-- A random expression, every node of which is made from a name or a number. -/
def randomChecked : Nat → Checked Expr
  | 0 => randomLeaf
  | depth + 1 => do
      let r ← Draw.unit
      if r < 0.2 then
        let child ← randomChecked depth
        let modulus ← Draw.integer minModulus (maxModulus - minModulus + 1) (by decide)
        child.makeReduction modulus
      else if r < 0.5 then
        let name ← (Draw.choose (UnaryOp.all.map UnaryOp.name) (by decide) : Draw String)
        let child ← randomChecked depth
        makeCall name child
      else
        let name ← (Draw.choose (BinaryOp.all.map BinaryOp.name) (by decide) : Draw String)
        let left ← randomChecked depth
        let right ← randomChecked depth
        makeOperation name left right

theorem random_passes (depth : Nat) : (randomChecked depth).Passes (random depth) := by
  induction depth with
  | zero => exact .draw _
  | succ depth ih =>
      refine .bind (.draw _) fun r => .ite (fun _ => ?_) fun _ => .ite (fun _ => ?_) fun _ => ?_
      · exact .bind ih fun child => reduction_passes child
      · refine .bind_choose fun op _ => .bind ih fun child => ?_
        rw [makeCall_name]
        exact .pure _
      · refine .bind_choose fun op _ => .bind ih fun left => .bind ih fun right => ?_
        rw [makeOperation_name]
        exact .pure _

/-! ### Changes of one expression -/

/-- Replace every subexpression that agrees with a target, and rebuild the nodes above. -/
def replaceMatchingChecked (t target replacement : Expr) : Checked Expr :=
  if t.agrees target then return replacement
  else
    match t with
    | .const v => return .const v
    | .var => return .var
    | .mod child m => do
        let new ← child.replaceMatchingChecked target replacement
        (Expr.mod child m).rebuild [new]
    | .unary op child => do
        let new ← child.replaceMatchingChecked target replacement
        (Expr.unary op child).rebuild [new]
    | .binary op left right => do
        let first ← left.replaceMatchingChecked target replacement
        let second ← right.replaceMatchingChecked target replacement
        (Expr.binary op left right).rebuild [first, second]

theorem replaceMatchingChecked_eq (t target replacement : Expr) :
    t.replaceMatchingChecked target replacement =
      pure (t.replaceMatching target replacement) := by
  induction t with
  | const v =>
      rw [replaceMatchingChecked, replaceMatching]
      split <;> rfl
  | var =>
      rw [replaceMatchingChecked, replaceMatching]
      split <;> rfl
  | mod child m ih =>
      rw [replaceMatchingChecked, replaceMatching, ih, pure_bind, rebuild_mod]
      split <;> rfl
  | unary op child ih =>
      rw [replaceMatchingChecked, replaceMatching, ih, pure_bind, rebuild_unary]
      split <;> rfl
  | binary op left right ihLeft ihRight =>
      rw [replaceMatchingChecked, replaceMatching, ihLeft, ihRight, pure_bind, pure_bind,
        rebuild_binary]
      split <;> rfl

/-- Perturb one of the constants, wherever it occurs. -/
def perturbChecked (t : Expr) : Checked Expr :=
  match t.constants with
  | [] => return t
  | first :: rest => do
      let target ← (Draw.choose (first :: rest) (Nat.succ_pos _) : Draw Float)
      let perturbed ← perturbCoefficient target
      t.replaceMatchingChecked (.const target) (.const perturbed)

theorem perturb_passes (t : Expr) : t.perturbChecked.Passes t.perturb := by
  unfold perturbChecked perturb
  cases t.constants with
  | nil => exact .pure _
  | cons first rest =>
      refine .bind (.draw _) fun target => .bind (.draw _) fun perturbed => ?_
      rw [replaceMatchingChecked_eq]
      exact .pure _

/-- A local change at the root or further down; the new node is made from a name or a number. -/
def mutateNodeChecked : Expr → Checked Expr
  | .const v => (Expr.const v).mutateNode
  | .var => Expr.var.mutateNode
  | .mod child m => do
      let keep ← Draw.below 0.3
      if keep then
        let step ← Draw.integer (-5) 11 (by decide)
        let child ← child.mutateNodeChecked
        child.makeReduction (min maxModulus (max minModulus (m.val + step)))
      else
        child.mutateNodeChecked
  | .unary op child => do
      let exchange ← Draw.below 0.3
      if exchange then
        let name ← (Draw.choose (UnaryOp.all.map UnaryOp.name) (by decide) : Draw String)
        makeCall name child
      else
        let keep ← Draw.below 0.5
        if keep then
          let child ← child.mutateNodeChecked
          makeCall op.name child
        else
          return child
  | .binary op left right => do
      let r ← Draw.unit
      if r < 0.4 then
        let left ← left.mutateNodeChecked
        makeOperation op.name left right
      else if r < 0.8 then
        let right ← right.mutateNodeChecked
        makeOperation op.name left right
      else
        let name ← (Draw.choose (BinaryOp.all.map BinaryOp.name) (by decide) : Draw String)
        makeOperation name left right

theorem ofInt?_clamp (m : Int) :
    Modulus.ofInt? (min maxModulus (max minModulus m)) = some (Modulus.clamp m) := by
  rw [Modulus.ofInt?, dif_pos (by simp only [minModulus, maxModulus]; omega)]
  simp only [Modulus.clamp, minModulus, maxModulus, Option.some.injEq, Modulus.mk.injEq]
  omega

theorem mutateNode_passes (t : Expr) : t.mutateNodeChecked.Passes t.mutateNode := by
  induction t with
  | const v => exact .draw _
  | var => exact .draw _
  | mod child m ih =>
      refine .bind (.draw _) fun keep => .ite (fun _ => ?_) fun _ => ih
      refine .bind (.draw _) fun step => .bind ih fun child => ?_
      rw [makeReduction_eq (ofInt?_clamp _)]
      exact .pure _
  | unary op child ih =>
      refine .bind (.draw _) fun exchange => .ite (fun _ => ?_) fun _ => ?_
      · refine .bind_choose fun op _ => ?_
        rw [makeCall_name]
        exact .pure _
      · refine .bind (.draw _) fun keep => .ite (fun _ => .bind ih fun child => ?_) fun _ => .pure _
        rw [makeCall_name]
        exact .pure _
  | binary op left right ihLeft ihRight =>
      refine .bind (.draw _) fun r => .ite (fun _ => ?_) fun _ => .ite (fun _ => ?_) fun _ => ?_
      · refine .bind ihLeft fun left => ?_
        rw [makeOperation_name]
        exact .pure _
      · refine .bind ihRight fun right => ?_
        rw [makeOperation_name]
        exact .pure _
      · refine .bind_choose fun op _ => ?_
        rw [makeOperation_name]
        exact .pure _

/-- Replace a random subexpression by a fresh random one. -/
def regrowChecked (t : Expr) (depth : Nat) : Checked Expr := do
  let path ← t.randomPath
  let replacement ← randomChecked depth
  t.put path replacement

theorem regrow_passes (t : Expr) (depth : Nat) : (t.regrowChecked depth).Passes (t.regrow depth) := by
  refine .bind_of (.draw _) t.randomPath_yields fun path ends => ?_
  obtain ⟨node, listed⟩ := ends
  have leads := get?_of_mem_positions listed
  refine .bind (random_passes depth) fun replacement => ?_
  rw [put_eq leads]
  exact .pure _

/-- A random change. -/
def mutateChecked (t : Expr) (depth : Nat) : Checked Expr := do
  let action ← Draw.unit
  if action < 0.15 && t.isPolynomial then t.perturbChecked
  else if action < 0.35 then t.regrowChecked depth
  else if action < 0.70 then t.mutateNodeChecked
  else
    match t with
    | .binary op left right =>
        if action < 0.85 then makeOperation op.name right left else return .binary op left right
    | .unary _ child => return child
    | t => return t

/-- A change of an expression never fails. -/
theorem mutate_passes (t : Expr) (depth : Nat) : (t.mutateChecked depth).Passes (t.mutate depth) := by
  refine .bind (.draw _) fun action => .ite (fun _ => t.perturb_passes) fun _ =>
    .ite (fun _ => t.regrow_passes depth) fun _ => .ite (fun _ => t.mutateNode_passes) fun _ => ?_
  cases t with
  | binary op left right =>
      dsimp only
      rw [makeOperation_name]
      split
      · exact .pure _
      · exact .pure _
  | const v => exact .pure _
  | var => exact .pure _
  | mod child m => exact .pure _
  | unary op child => exact .pure _

/-! ### Exchange between two expressions -/

/-- The paths to all nodes. -/
def paths (t : Expr) : List Path := t.positions.map Prod.fst

theorem paths_length_pos (t : Expr) : 0 < t.paths.length := by
  rw [paths, List.length_map]
  exact t.positions_length_pos

/-- Exchange the nodes at the ends of two random paths. -/
def crossoverChecked (first second : Expr) : Checked (Expr × Expr) := do
  let firstPath ← (Draw.choose first.paths first.paths_length_pos : Draw Path)
  let secondPath ← (Draw.choose second.paths second.paths_length_pos : Draw Path)
  let secondPart ← second.find secondPath
  let one ← first.put firstPath secondPart
  let firstPart ← first.find firstPath
  let other ← second.put secondPath firstPart
  return (one, other)

/-- An exchange never fails. -/
theorem crossover_passes (first second : Expr) :
    (first.crossoverChecked second).Passes (first.crossover second) := by
  refine .bind_choose fun ⟨firstPath, firstPart⟩ listed => ?_
  refine .bind_choose fun ⟨secondPath, secondPart⟩ listed' => ?_
  have leads := get?_of_mem_positions listed
  have leads' := get?_of_mem_positions listed'
  simp only [find_eq leads, find_eq leads', put_eq leads, put_eq leads', pure_bind]
  exact .pure _

end Expr

/-! ### Related functions -/

namespace Transform

open PrimeSearch.Expr

/-- Convert a node of the source function with the given argument. -/
def convertChecked (t : Transform) (argument : Expr) : Checked Expr :=
  match t.kind with
  | .exchange => makeCall t.target.name argument
  | .shift => do
      let shifted ← makeOperation "+" argument (.const t.phase)
      makeCall t.target.name shifted
  | .negation => do
      let node ← makeCall t.target.name argument
      makeOperation "*" (.const (-1.0)) node
  | .reciprocal => do
      let node ← makeCall t.target.name argument
      makeOperation "/" (.const 1.0) node

theorem convertChecked_eq (t : Transform) (argument : Expr) :
    t.convertChecked argument = pure (t.convert argument) := by
  unfold convertChecked convert
  have call (child : Expr) : makeCall t.target.name child = pure (.unary t.target.toUnaryOp child) :=
    makeCall_name _ _
  cases t.kind with
  | exchange => exact call argument
  | shift =>
      have sum : makeOperation "+" argument (.const t.phase) = _ := makeOperation_name .add _ _
      dsimp only
      rw [sum, pure_bind, call]
  | negation =>
      dsimp only
      rw [call, pure_bind]
      exact makeOperation_name .mul _ _
  | reciprocal =>
      dsimp only
      rw [call, pure_bind]
      exact makeOperation_name .div _ _

/-- Rebuild an expression from its leaves; unless the whole of it is to be converted, convert every
node of the source function on the way. -/
def rewriteChecked (t : Transform) (whole : Bool) : Expr → Checked Expr
  | .const v => return .const v
  | .var => return .var
  | .mod child m => do
      let new ← t.rewriteChecked whole child
      (Expr.mod child m).rebuild [new]
  | .unary op child => do
      let new ← t.rewriteChecked whole child
      let node ← (Expr.unary op child).rebuild [new]
      if !whole && op == t.source.toUnaryOp then t.convertChecked new else return node
  | .binary op left right => do
      let first ← t.rewriteChecked whole left
      let second ← t.rewriteChecked whole right
      (Expr.binary op left right).rebuild [first, second]

theorem rewriteChecked_whole (t : Transform) (e : Expr) : t.rewriteChecked true e = pure e := by
  induction e with
  | const v => rfl
  | var => rfl
  | mod child m ih => simp [rewriteChecked, ih]
  | unary op child ih => simp [rewriteChecked, ih]
  | binary op left right ihLeft ihRight => simp [rewriteChecked, ihLeft, ihRight]

theorem rewriteChecked_nodes (t : Transform) (e : Expr) :
    t.rewriteChecked false e = pure (t.convertAll e) := by
  induction e with
  | const v => rfl
  | var => rfl
  | mod child m ih => simp [rewriteChecked, convertAll, ih]
  | unary op child ih =>
      rw [rewriteChecked, convertAll, ih, pure_bind, rebuild_unary, pure_bind, convertChecked_eq]
      split
      next isSource => rw [if_pos (by simpa using isSource)]
      next notSource => rw [if_neg (by simpa using notSource)]
  | binary op left right ihLeft ihRight => simp [rewriteChecked, convertAll, ihLeft, ihRight]

/-- Derive a related function. -/
def applyChecked (t : Transform) (e : Expr) : Checked Expr :=
  match t.kind with
  | .exchange | .shift => t.rewriteChecked false e
  | .negation => do
      let e ← t.rewriteChecked true e
      makeOperation "*" (.const (-1.0)) e
  | .reciprocal => do
      let e ← t.rewriteChecked true e
      makeOperation "/" (.const 1.0) e

theorem applyChecked_eq (t : Transform) (e : Expr) : t.applyChecked e = pure (t.apply e) := by
  unfold applyChecked apply
  cases t.kind with
  | exchange | shift => exact t.rewriteChecked_nodes e
  | negation =>
      dsimp only
      rw [rewriteChecked_whole, pure_bind]
      exact makeOperation_name .mul _ _
  | reciprocal =>
      dsimp only
      rw [rewriteChecked_whole, pure_bind]
      exact makeOperation_name .div _ _

/-- Convert a node, which has to be a function. -/
def convertNodeChecked (t : Transform) : Expr → Checked Expr
  | .unary _ argument => t.convertChecked argument
  | _ => throw .noArgument

/-- Convert the node at the end of one random path among some; without any, nothing changes. -/
def convertOneChecked (t : Transform) (e : Expr) (paths : List Path) : Checked Expr :=
  match paths with
  | [] => return e
  | first :: rest => do
      let path ← (Draw.choose (first :: rest) (Nat.succ_pos _) : Draw Path)
      let node ← e.find path
      let converted ← t.convertNodeChecked node
      e.put path converted

/-- The nodes of the source function are found and converted. -/
theorem convertOne_passes (t : Transform) (e : Expr) :
    (t.convertOneChecked e ((t.matching e).map Prod.fst)).Passes
      (t.convertOne e (t.matching e)) := by
  have each (place : Path × Expr) (listed : place ∈ t.matching e) : Passes (do
      let node ← e.find place.1
      let converted ← t.convertNodeChecked node
      e.put place.1 converted) (pure (t.convertAt e place.1 place.2)) := by
    obtain ⟨path, node⟩ := place
    obtain ⟨position, isSource⟩ := List.mem_filter.mp listed
    have leads := get?_of_mem_positions position
    cases node with
    | unary op argument =>
        simp only [find_eq leads, put_eq leads, convertNodeChecked, convertChecked_eq, pure_bind]
        exact .pure _
    | const v => cases isSource
    | var => cases isSource
    | mod child m => cases isSource
    | binary op left right => cases isSource
  cases nodes : t.matching e with
  | nil => exact .pure _
  | cons first rest =>
      rw [nodes] at each
      exact @Passes.bind_choose _ _ _ (first :: rest) Prod.fst _ _ _ _ each

end Transform

namespace SymmetricPair

open PrimeSearch.Expr

/-- An expression and its image under a random transform. -/
def deriveChecked (base : Expr) : Checked SymmetricPair := do
  let t ← Transform.random
  let g ← t.applyChecked base
  return ⟨base, g, t⟩

/-- A related function is always derived. -/
theorem derive_passes (base : Expr) : (deriveChecked base).Passes (derive base) := by
  refine .bind (.draw _) fun t => ?_
  rw [t.applyChecked_eq, pure_bind]
  exact .pure _

/-- A fresh pair. -/
def freshChecked (depth : Nat) : Checked SymmetricPair := do
  let t ← Transform.random
  let base ← randomChecked depth
  let f ← makeCall t.source.name base
  let g ← t.convertNodeChecked f
  return ⟨f, g, t⟩

theorem fresh_passes (depth : Nat) : (freshChecked depth).Passes (fresh depth) := by
  refine .bind (.draw _) fun t => .bind (random_passes depth) fun base => ?_
  have call : makeCall t.source.name base = pure (.unary t.source.toUnaryOp base) :=
    makeCall_name _ _
  rw [call, pure_bind, Transform.convertNodeChecked, t.convertChecked_eq, pure_bind]
  exact .pure _

/-- Convert one node in each of two functions, or start afresh. -/
def mutateChecked (f g : Expr) : Checked SymmetricPair := do
  let t ← Transform.random
  let inF := (t.matching f).map Prod.fst
  let inG := (t.matching g).map Prod.fst
  if inF.isEmpty && inG.isEmpty then freshChecked freshDepth
  else
    let f ← t.convertOneChecked f inF
    let g ← t.convertOneChecked g inG
    return ⟨f, g, t⟩

/-- A change of two functions by one transform never fails. -/
theorem mutate_passes (f g : Expr) : (mutateChecked f g).Passes (mutate f g) := by
  refine .bind (.draw _) fun t => ?_
  simp only [List.isEmpty_map]
  refine .ite (fun _ => fresh_passes _) fun _ => ?_
  refine .bind (t.convertOne_passes f) fun f => .bind (t.convertOne_passes g) fun g => ?_
  exact .pure _

end SymmetricPair

end PrimeSearch
