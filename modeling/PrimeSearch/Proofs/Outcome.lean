/-
Module: PrimeSearch.Proofs.Outcome
Purpose: Reasoning about computations that change a state and may break off, one part after another.
Main exports: run_bind_ok, run_bind_error, Concludes, Concludes.bind, Concludes.of_run,
  Concludes.of_failure
-/

namespace PrimeSearch

/-!
A computation concludes with a result in some state, or breaks off with an error in some state, and
what it changed before it broke off stays changed.  `Concludes` says what holds in either case; it is
proved along the parts of a computation.
-/

variable {ε σ α β : Type}

/-- A result that comes after a first part comes from the result of that part. -/
theorem bind_eq_ok {x : Except ε α} {f : α → Except ε β} {b : β} (done : x >>= f = .ok b) :
    ∃ a, x = .ok a ∧ f a = .ok b := by
  cases x with
  | ok a => exact ⟨a, rfl, done⟩
  | error e => cases done

theorem map_eq_ok {x : Except ε α} {f : α → β} {b : β} (done : x.map f = .ok b) :
    ∃ a, x = .ok a ∧ f a = b := by
  cases x with
  | ok a => exact ⟨a, rfl, Except.ok.inj done⟩
  | error e => cases done

section
variable {m : ExceptT ε (StateM σ) α} {f : α → ExceptT ε (StateM σ) β} {s t : σ} {a : α} {e : ε}

/-- A computation goes on from the result of its first part. -/
theorem run_bind_ok (run : m.run.run s = (.ok a, t)) :
    (m >>= f).run.run s = (f a).run.run t := by
  rw [ExceptT.run_bind, StateT.run_bind, run]
  rfl

/-- A computation breaks off where its first part does. -/
theorem run_bind_error (run : m.run.run s = (.error e, t)) :
    (m >>= f).run.run s = (.error e, t) := by
  rw [ExceptT.run_bind, StateT.run_bind, run]
  rfl

end

/-- Whether a result is a given value can be decided, whatever the errors are. -/
instance decidableEqOk [DecidableEq α] (r : Except ε α) (a : α) : Decidable (r = .ok a) :=
  match r with
  | .ok b => decidable_of_iff (b = a) ⟨congrArg _, Except.ok.inj⟩
  | .error _ => .isFalse nofun

/-- From a state, a computation concludes as `Q` says with its result, or breaks off as `E` says with
its error. -/
inductive Concludes (m : ExceptT ε (StateM σ) α) (s : σ) (Q : α → σ → Prop) (E : ε → σ → Prop) :
    Prop where
  | ok {a : α} {t : σ} (run : m.run.run s = (.ok a, t)) (result : Q a t)
  | error {e : ε} {t : σ} (run : m.run.run s = (.error e, t)) (failure : E e t)

namespace Concludes

variable {m : ExceptT ε (StateM σ) α} {f : α → ExceptT ε (StateM σ) β} {s t : σ} {a : α} {e : ε}
  {Q R : α → σ → Prop} {E E' : ε → σ → Prop}

theorem mono (concludes : Concludes m s R E) (result : ∀ a t, R a t → Q a t)
    (failure : ∀ e t, E e t → E' e t) : Concludes m s Q E' := by
  cases concludes with
  | ok run holds => exact .ok run (result _ _ holds)
  | error run why => exact .error run (failure _ _ why)

/-- What holds of a result and the state that comes with it. -/
theorem of_run (concludes : Concludes m s Q E) (run : m.run.run s = (.ok a, t)) : Q a t := by
  cases concludes with
  | ok run' result =>
      obtain ⟨same, rfl⟩ := Prod.mk.inj (run'.symm.trans run)
      exact Except.ok.inj same ▸ result
  | error run' => exact nomatch (Prod.mk.inj (run'.symm.trans run)).1

/-- What holds of an error and the state that comes with it. -/
theorem of_failure (concludes : Concludes m s Q E) (run : m.run.run s = (.error e, t)) :
    E e t := by
  cases concludes with
  | ok run' => exact nomatch (Prod.mk.inj (run'.symm.trans run)).1
  | error run' failure =>
      obtain ⟨same, rfl⟩ := Prod.mk.inj (run'.symm.trans run)
      exact Except.error.inj same ▸ failure

/-- What holds of the state in the end holds in either case. -/
theorem of_state {P : σ → Prop} (holds : P (m.run.run s).2) :
    Concludes m s (fun _ t => P t) fun _ t => P t := by
  cases ended : m.run.run s with
  | mk outcome t =>
      rw [ended] at holds
      cases outcome with
      | ok a => exact .ok ended holds
      | error e => exact .error ended holds

theorem and (first : Concludes m s Q E) (second : Concludes m s R E') :
    Concludes m s (fun a t => Q a t ∧ R a t) fun e t => E e t ∧ E' e t := by
  cases first with
  | ok run result => exact .ok run ⟨result, second.of_run run⟩
  | error run failure => exact .error run ⟨failure, second.of_failure run⟩

theorem pure (result : Q a s) : Concludes (Pure.pure a : ExceptT ε (StateM σ) α) s Q E :=
  .ok rfl result

theorem throw (failure : E e s) : Concludes (throw e : ExceptT ε (StateM σ) α) s Q E :=
  .error rfl failure

/-- A computation goes on from what its first part is known to give. -/
theorem ok_bind {Q : β → σ → Prop} (run : m.run.run s = (.ok a, t))
    (rest : Concludes (f a) t Q E) : Concludes (m >>= f) s Q E := by
  cases rest with
  | ok run' result => exact .ok ((run_bind_ok run).trans run') result
  | error run' failure => exact .error ((run_bind_ok run).trans run') failure

/-- A computation breaks off with what its first part is known to break off with. -/
theorem error_bind {Q : β → σ → Prop} (run : m.run.run s = (.error e, t)) (failure : E e t) :
    Concludes (m >>= f) s Q E := .error (run_bind_error run) failure

theorem bind {Q : β → σ → Prop} (first : Concludes m s R E)
    (rest : ∀ a t, R a t → Concludes (f a) t Q E) : Concludes (m >>= f) s Q E := by
  cases first with
  | ok run result => exact ok_bind run (rest _ _ result)
  | error run failure => exact error_bind run failure

/-- A computation that reads the state goes on from there. -/
theorem get_bind {f : σ → ExceptT ε (StateM σ) α} (rest : Concludes (f s) s Q E) :
    Concludes (MonadState.get >>= f) s Q E :=
  ok_bind (m := MonadState.get) (a := s) (t := s) rfl rest

theorem ite {c : Prop} [Decidable c] {m' : ExceptT ε (StateM σ) α}
    (yes : c → Concludes m s Q E) (no : ¬c → Concludes m' s Q E) :
    Concludes (if c then m else m' : ExceptT ε (StateM σ) α) s Q E := by
  split
  next holds => exact yes holds
  next fails => exact no fails

/-- Two ways to begin, with the same to be done afterwards. -/
theorem ite_bind {Q : β → σ → Prop} {c : Prop} [Decidable c] {m' : ExceptT ε (StateM σ) α}
    (first : Concludes (if c then m else m' : ExceptT ε (StateM σ) α) s R E)
    (rest : ∀ a t, R a t → Concludes (f a) t Q E) :
    Concludes (if c then m >>= f else m' >>= f : ExceptT ε (StateM σ) β) s Q E := by
  split at first
  next holds => rw [if_pos holds]; exact first.bind rest
  next fails => rw [if_neg fails]; exact first.bind rest

end Concludes

end PrimeSearch
