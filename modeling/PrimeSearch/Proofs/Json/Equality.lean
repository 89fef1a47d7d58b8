/-
Module: PrimeSearch.Proofs.Json.Equality
Purpose: Whether two structured values are one and the same can be decided.
Main exports: Json.same, Json.same_iff
-/
import PrimeSearch.Json.Reader

namespace PrimeSearch.Json

mutual

/-- Whether two values are the same, fields in the same order included. -/
def same : Json → Json → Bool
  | .null, .null => true
  | .bool a, .bool b => a == b
  | .int m, .int n => m == n
  | .real x, .real y => decide (x = y)
  | .str s, .str t => s == t
  | .arr xs, .arr ys => sameItems xs ys
  | .obj fs, .obj gs => sameFields fs gs
  | _, _ => false

/-- Whether items are the same one by one. -/
def sameItems : List Json → List Json → Bool
  | [], [] => true
  | x :: xs, y :: ys => same x y && sameItems xs ys
  | _, _ => false

/-- Whether fields are the same one by one. -/
def sameFields : List (String × Json) → List (String × Json) → Bool
  | [], [] => true
  | (name, value) :: fs, (name', value') :: gs =>
      name == name' && same value value' && sameFields fs gs
  | _, _ => false

end

mutual

theorem same_iff : ∀ (a b : Json), same a b = true ↔ a = b
  | .null, b => by cases b <;> simp [same]
  | .bool x, b => by cases b <;> simp [same]
  | .int n, b => by cases b <;> simp [same]
  | .real x, b => by cases b <;> simp [same]
  | .str s, b => by cases b <;> simp [same]
  | .arr xs, b => by
      cases b with
      | arr ys => simp [same, sameItems_iff xs ys]
      | null | bool | int | real | str | obj => simp [same]
  | .obj fs, b => by
      cases b with
      | obj gs => simp [same, sameFields_iff fs gs]
      | null | bool | int | real | str | arr => simp [same]

theorem sameItems_iff : ∀ (xs ys : List Json), sameItems xs ys = true ↔ xs = ys
  | [], ys => by cases ys <;> simp [sameItems]
  | x :: xs, ys => by
      cases ys with
      | nil => simp [sameItems]
      | cons y ys => simp [sameItems, same_iff x y, sameItems_iff xs ys]

theorem sameFields_iff : ∀ (fs gs : List (String × Json)), sameFields fs gs = true ↔ fs = gs
  | [], gs => by cases gs <;> simp [sameFields]
  | (name, value) :: fs, gs => by
      cases gs with
      | nil => simp [sameFields]
      | cons g gs =>
          obtain ⟨name', value'⟩ := g
          simp [sameFields, same_iff value value', sameFields_iff fs gs, and_assoc]

end

instance : DecidableEq Json := fun a b => decidable_of_iff (same a b = true) (same_iff a b)

end PrimeSearch.Json
