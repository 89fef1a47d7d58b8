/-
Module: PrimeSearch.Proofs.Search.Crossing
Purpose: Crossing moves nodes between expressions and candidates, and neither makes nor loses any.
Main exports: Expr.Exchanged, Expr.crossover_exchanges, Candidate.symbols,
  Operators.crossover_recombines, Operators.crossover_conserves
-/
import PrimeSearch.Proofs.Expr.Addressing
import PrimeSearch.Proofs.Search.Operators

namespace PrimeSearch

/-!
Two expressions are crossed by putting a node of each into the place of the other.  What one of them
loses the other one gains, so the nodes of both together stay the same.  Two pairs of functions are
crossed function by function, or exchange a whole function, and either way nothing is added or lost.
-/

namespace Expr

/-- Two expressions have become two others by an exchange of one node of each. -/
def Exchanged (first second : Expr) (children : Expr × Expr) : Prop :=
  ∃ path node path' node', (path, node) ∈ first.positions ∧ (path', node') ∈ second.positions ∧
    first.replace? path node' = some children.1 ∧ second.replace? path' node = some children.2

theorem crossover_exchanges (first second : Expr) :
    (first.crossover second).Yields (Exchanged first second) := by
  refine .bind (.choose _ _) fun place listed => .bind (.choose _ _) fun place' listed' => .pure ?_
  obtain ⟨path, node⟩ := place
  obtain ⟨path', node'⟩ := place'
  have one := replace?_of_get? (get?_of_mem_positions listed) node'
  have other := replace?_of_get? (get?_of_mem_positions listed') node
  exact ⟨path, node, path', node', listed, listed', one, other⟩

section
variable {first second : Expr} {children : Expr × Expr}

/-- An exchange conserves the nodes of both expressions together. -/
theorem Exchanged.symbols (exchanged : Exchanged first second children) :
    children.1.symbols + children.2.symbols = first.symbols + second.symbols := by
  obtain ⟨path, node, path', node', listed, listed', one, other⟩ := exchanged
  have here := symbols_replace? (get?_of_mem_positions listed) one
  have there := symbols_replace? (get?_of_mem_positions listed') other
  -- The two nodes that change places are on both sides, and may be taken off.
  apply add_right_cancel (b := node.symbols + node'.symbols)
  calc children.1.symbols + children.2.symbols + (node.symbols + node'.symbols)
      = (children.1.symbols + node.symbols) + (children.2.symbols + node'.symbols) := by ac_rfl
    _ = (first.symbols + node'.symbols) + (second.symbols + node.symbols) := by rw [here, there]
    _ = first.symbols + second.symbols + (node.symbols + node'.symbols) := by ac_rfl

theorem Exchanged.size (exchanged : Exchanged first second children) :
    children.1.size + children.2.size = first.size + second.size := by
  have cards := congrArg Multiset.card exchanged.symbols
  simpa only [Multiset.card_add, card_symbols] using cards

end

end Expr

/-- The symbols of all nodes of all functions of a candidate. -/
def Candidate.symbols (c : Candidate) : Multiset Expr.Symbol := (c.trees.map Expr.symbols).sum

@[simp] theorem Candidate.symbols_pair (f g : Expr) :
    (Candidate.pair f g).symbols = f.symbols + g.symbols := by
  simp [Candidate.symbols, Candidate.trees]

/-- Two pairs of functions have been crossed: either they have exchanged their second functions, or
a node of their first functions and a node of their second ones. -/
inductive Recombined (f g h k : Expr) : (whole : Bool) → Candidate × Candidate → Prop where
  | functions : Recombined f g h k true (.pair f k, .pair h g)
  | nodes {a b c d : Expr} (first : Expr.Exchanged f h (a, b))
      (second : Expr.Exchanged g k (c, d)) : Recombined f g h k false (.pair a c, .pair b d)

/-- However two pairs are crossed, the nodes of all four functions together are conserved. -/
theorem Recombined.symbols {f g h k : Expr} {whole : Bool} {children : Candidate × Candidate}
    (recombined : Recombined f g h k whole children) :
    children.1.symbols + children.2.symbols =
      (Candidate.pair f g).symbols + (Candidate.pair h k).symbols := by
  cases recombined with
  | functions =>
      simp only [Candidate.symbols_pair]
      ac_rfl
  | @nodes a b c d first second =>
      have firsts := first.symbols
      have seconds := second.symbols
      simp only [Candidate.symbols_pair]
      calc a.symbols + c.symbols + (b.symbols + d.symbols)
          = (a.symbols + b.symbols) + (c.symbols + d.symbols) := by ac_rfl
        _ = (f.symbols + h.symbols) + (g.symbols + k.symbols) := by rw [firsts, seconds]
        _ = f.symbols + g.symbols + (h.symbols + k.symbols) := by ac_rfl

/-- A trial that draws goes on from what is drawn. -/
theorem Trial.run_bind_draw {α β : Type} (d : Draw β) (f : β → Trial α) (source : Source) :
    ((liftM d : Trial β) >>= f).run.run source = (f (d.run source).1).run.run (d.run source).2 :=
  rfl

namespace Operators

section
variable {o : Operators} (two : o.mode = .primeFold) (free : o.symmetric = false)
include two free

/-- Without symmetry to keep, crossing two pairs recombines them, and the first number that is drawn
decides how. -/
theorem crossover_recombines (f g h k : Expr) (source : Source) :
    ∃ children, ((o.crossover (.pair f g) (.pair h k)).run.run source).1 = .ok children ∧
      Recombined f g h k (decide (source.next.1 < 0.5)) children := by
  have partner_pair (f g : Expr) : (partner (.pair f g)).Yields (· = g) := .pure rfl
  have drawn : (Draw.below 0.5).run source = (decide (source.next.1 < 0.5), source.next.2) := rfl
  unfold crossover
  rw [two]
  dsimp only
  rw [if_neg (by simp [free]), Trial.run_bind_draw, drawn]
  by_cases low : source.next.1 < 0.5
  · rw [if_pos (decide_eq_true low), decide_eq_true low]
    exact ⟨_, rfl, .functions⟩
  · rw [if_neg (by simpa using low), decide_eq_false low]
    refine (?_ : Trial.Yields _ (Recombined f g h k false)) source.next.2
    refine .bind (.draw (f.crossover_exchanges h)) fun (a, b) first => ?_
    refine .bind (partner_pair f g) fun _ same => .bind (partner_pair h k) fun _ same' => ?_
    rw [same, same']
    exact .bind (.draw (g.crossover_exchanges k)) fun (c, d) second => .pure (.nodes first second)

end

/-- Crossing conserves what it crosses, whatever is drawn.  Two expressions exchange one node each,
and their nodes together, each with its operator, modulus or value, are those of the two children.
Two pairs of functions without symmetry to keep give two pairs, by an exchange of whole functions or
of nodes as the first number that is drawn says, and in either case with the nodes of all four
functions together. -/
theorem crossover_conserves :
    (∀ first second : Expr, (first.crossover second).Yields fun children =>
      Expr.Exchanged first second children ∧
      children.1.symbols + children.2.symbols = first.symbols + second.symbols ∧
      children.1.size + children.2.size = first.size + second.size) ∧
    (∀ (maxDepth : Nat) (f g h k : Expr) (source : Source),
      let crossed := (new .primeFold maxDepth false).crossover (.pair f g) (.pair h k)
      ∃ children, (crossed.run.run source).1 = .ok children ∧
        Recombined f g h k (decide (source.next.1 < 0.5)) children ∧
        children.1.symbols + children.2.symbols =
          (Candidate.pair f g).symbols + (Candidate.pair h k).symbols) := by
  constructor
  · intro first second source
    have exchanged := first.crossover_exchanges second source
    exact ⟨exchanged, exchanged.symbols, exchanged.size⟩
  · intro maxDepth f g h k source crossed
    obtain ⟨children, made, recombined⟩ :=
      crossover_recombines (o := new .primeFold maxDepth false) rfl rfl f g h k source
    exact ⟨children, made, recombined, recombined.symbols⟩

end Operators

end PrimeSearch
