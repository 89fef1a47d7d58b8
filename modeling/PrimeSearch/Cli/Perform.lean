/-
Module: PrimeSearch.Cli.Perform
Purpose: Carrying out a command line.
Main exports: Ending, Command.task, Session.perform
-/
import PrimeSearch.Cli.Inspect
import PrimeSearch.Cli.Runs

namespace PrimeSearch

/-- The task of a command; its result is the exit code. -/
def Command.task (seeding : Seeding) : Command → Task Nat
  | .search options => Task.search seeding options
  | .score options => Task.score seeding options
  | .parse expression count => Task.parse expression count
  | .runs options => Task.runs options

/-- How a command line ends. -/
inductive Ending where
  | exit (code : Nat)
  /-- There was no command to carry out. -/
  | refused (why : Refusal)
  /-- The command broke off. -/
  | failed (error : CommandError)

/-- Carry out a command line; unless something else is said, every seed will do. -/
def Session.perform (s : Session) (arguments : List String) (seeding : Seeding := .all) :
    Ending × Session :=
  match Command.read arguments with
  | .error why => (.refused why, s.fresh)
  | .ok command =>
      match (command.task seeding).run.run s.fresh with
      | (.ok code, s) => (.exit code, s)
      | (.error e, s) => (.failed e, s)

end PrimeSearch
