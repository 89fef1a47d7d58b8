/-
Module: PrimeSearch.Proofs.Cli.Tasks
Purpose: What the parts of a command may do to a session, proved part by part.
Main exports: Session.Quiet, Session.Holds, Session.Goes, Task.Works
-/
import PrimeSearch.Cli.Session
import PrimeSearch.Proofs.Archive.Keeping

namespace PrimeSearch

/-!
Commands show lines, write to a log, and save things if they are asked to.  A part of a command goes
quietly if it complains about nothing, and makes no file or directory unless it is saving.  While a run
is being saved, its directory is kept, and only the file of the log grows with what is noted there.
-/

/-- Nothing was complained about, and no file or directory was made or removed but to save
something. -/
structure Session.Quiet (saving : Bool) (s t : Session) : Prop where
  complaints : t.complaints = s.complaints
  places : saving = false → s.site.files.SamePlaces t.site.files

/-- If a run is being saved, it is kept, and the log goes to its file. -/
def Session.Holds : Option SavedRun → Session → Prop
  | none, _ => True
  | some r, s => ∃ a root, r.Kept a root s.site ∧
      s.logFile = some (r.place root ++ ["logs", "search.log"])

/-- A session went on quietly, and the run that is being saved is still kept. -/
structure Session.Goes (run : Option SavedRun) (s t : Session) : Prop
    extends Session.Quiet run.isSome s t where
  holds : t.Holds run

namespace Session

variable {saving : Bool} {run : Option SavedRun} {s t u : Session}

theorem Quiet.refl (saving : Bool) (s : Session) : Quiet saving s s := ⟨rfl, fun _ => .refl _⟩

theorem Quiet.trans (first : Quiet saving s t) (second : Quiet saving t u) : Quiet saving s u :=
  ⟨second.complaints.trans first.complaints, fun never =>
    (first.places never).trans (second.places never)⟩

/-- Whoever saves may do all that others may. -/
theorem Quiet.weaken (quiet : Quiet false s t) (saving : Bool) : Quiet saving s t :=
  ⟨quiet.complaints, fun _ => quiet.places rfl⟩

/-- Only the files and the place of the log matter to a run that is being saved. -/
theorem Holds.same (holds : s.Holds run) (site : t.site = s.site) (file : t.logFile = s.logFile) :
    t.Holds run := by
  cases run with
  | none => trivial
  | some r =>
      obtain ⟨a, root, kept, log⟩ := holds
      exact ⟨a, root, site ▸ kept, file ▸ log⟩

/-- What is noted in the log goes to the file of the log. -/
theorem log_eq (e : LogEntry) (s : Session) :
    (s.log e).complaints = s.complaints ∧ (s.log e).logFile = s.logFile ∧
      (s.log e).site = { s.site with files := match s.logFile with
        | some p => s.site.files.append p (e.fileLine s.site.clock.upcoming ++ "\n")
        | none => s.site.files } := by
  unfold Session.log
  dsimp only
  split
  next => exact ⟨rfl, rfl, rfl⟩
  next => exact ⟨rfl, rfl, rfl⟩

theorem Quiet.log (e : LogEntry) (s : Session) : Quiet saving s (s.log e) := by
  obtain ⟨complaints, -, site⟩ := s.log_eq e
  refine ⟨complaints, fun _ => ?_⟩
  rw [site]
  cases s.logFile with
  | none => exact .refl _
  | some p => exact FileTree.samePlaces_append _ _ _

theorem Holds.log (holds : s.Holds run) (e : LogEntry) : (s.log e).Holds run := by
  cases run with
  | none => trivial
  | some r =>
      obtain ⟨a, root, kept, file⟩ := holds
      obtain ⟨-, same, site⟩ := s.log_eq e
      refine ⟨a, root, ?_, same.trans file⟩
      rw [site, file]
      exact kept.append (by decide) _

theorem Goes.refl (holds : s.Holds run) : s.Goes run s := ⟨.refl _ s, holds⟩

theorem Goes.trans (first : s.Goes run t) (second : t.Goes run u) : s.Goes run u :=
  ⟨first.toQuiet.trans second.toQuiet, second.holds⟩

theorem Goes.say (holds : s.Holds run) (line : String) : s.Goes run (s.say line) :=
  ⟨⟨rfl, fun _ => .refl _⟩, holds.same rfl rfl⟩

theorem Goes.log (holds : s.Holds run) (e : LogEntry) : s.Goes run (s.log e) :=
  ⟨.log e s, holds.log e⟩

end Session

namespace Task

variable {α β : Type} {run : Option SavedRun}

/-- From every session in which the run that is being saved is kept, a part of a command goes on
quietly, results in what `Q` says, and breaks off only for reasons that `F` lists. -/
def Works (run : Option SavedRun) (m : Task α) (Q : α → Prop) (F : CommandError → Prop) : Prop :=
  ∀ s : Session, s.Holds run →
    Concludes m s (fun a t => s.Goes run t ∧ Q a) fun e t => s.Goes run t ∧ F e

namespace Works

variable {m : Task α} {f : α → Task β} {Q R : α → Prop} {F G : CommandError → Prop}

theorem pure {a : α} (result : Q a) : Works run (Pure.pure a : Task α) Q F :=
  fun _ holds => .pure ⟨.refl holds, result⟩

theorem throw {e : CommandError} (reason : F e) : Works run (throw e : Task α) Q F :=
  fun _ holds => .throw ⟨.refl holds, reason⟩

theorem mono (works : Works run m R F) (result : ∀ a, R a → Q a) (reason : ∀ e, F e → G e) :
    Works run m Q G := fun s holds =>
  (works s holds).mono (fun a _ ⟨goes, result'⟩ => ⟨goes, result a result'⟩)
    fun e _ ⟨goes, why⟩ => ⟨goes, reason e why⟩

/-- What goes on after a beginning. -/
theorem after {s t : Session} (works : Works run m Q F) (before : s.Goes run t) :
    Concludes m t (fun a u => s.Goes run u ∧ Q a) fun e u => s.Goes run u ∧ F e :=
  (works t before.holds).mono (fun _ _ ⟨after, result⟩ => ⟨before.trans after, result⟩)
    fun _ _ ⟨after, why⟩ => ⟨before.trans after, why⟩

/-- What concludes after a part of a command. -/
theorem step {Q : β → Session → Prop} {E : CommandError → Session → Prop} {s t : Session}
    (works : Works run m R F) (before : s.Goes run t)
    (rest : ∀ a u, s.Goes run u → R a → Concludes (f a) u Q E)
    (failure : ∀ e u, s.Goes run u → F e → E e u) : Concludes (m >>= f) t Q E :=
  ((works.after before).mono (fun _ _ => id) fun e u ⟨goes, why⟩ => failure e u goes why).bind
    fun a u ⟨goes, result⟩ => rest a u goes result

theorem bind {Q : β → Prop} (first : Works run m R F)
    (rest : ∀ a, R a → Works run (f a) Q F) : Works run (m >>= f) Q F := fun s holds =>
  (first s holds).bind fun a _ ⟨before, result⟩ => (rest a result).after before

theorem or (works : Works run m Q F) : Works run m Q fun e => F e ∨ G e :=
  works.mono (fun _ => id) fun _ => .inl

theorem get_bind {f : Session → Task α} (rest : ∀ s, Works run (f s) Q F) :
    Works run (MonadState.get >>= f) Q F := fun s holds => .get_bind (rest s s holds)

theorem modify {change : Session → Session}
    (goes : ∀ s : Session, s.Holds run → s.Goes run (change s)) :
    Works run (modify change) (fun _ => True) F := fun s holds => .ok rfl ⟨goes s holds, trivial⟩

theorem ite {c : Prop} [Decidable c] {n : Task α} (yes : c → Works run m Q F)
    (no : ¬c → Works run n Q F) : Works run (if c then m else n) Q F := fun s holds =>
  .ite (fun yes' => yes yes' s holds) fun no' => no no' s holds

end Works

variable {F : CommandError → Prop}

/-! ### Parts that show something -/

theorem say_works (line : String) : Works run (say line) (fun _ => True) F :=
  .modify fun _ holds => .say holds line

theorem sayAll_works (lines : List String) : Works run (sayAll lines) (fun _ => True) F := by
  refine .modify fun s holds => ?_
  induction lines generalizing s with
  | nil => exact .refl holds
  | cons line lines ih =>
      have first := Session.Goes.say holds line
      exact first.trans (ih (s.say line) first.holds)

theorem log_works (e : LogEntry) : Works run (log e) (fun _ => True) F :=
  .modify fun _ holds => .log holds e

theorem logSievings_works (runs : List Sieving) :
    Works run (logSievings runs) (fun _ => True) F := by
  refine .modify fun s holds => ?_
  induction runs with
  | nil => exact .refl holds
  | cons sieving runs ih => exact ih.trans (.log ih.holds _)

end Task

end PrimeSearch
