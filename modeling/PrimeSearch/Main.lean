/-
Module: PrimeSearch.Main
Purpose: The program.  It looks at the places a command line may need, carries the command
  line out on them, and puts what has changed back.
Main exports: main
-/
import PrimeSearch.Cli.Footprint
import Std.Time.Format

namespace PrimeSearch

/-!
Texts are spelt where they come in, as arguments, names or contents, and unspelt where they go
out.
-/

/-- Where a place is on the disk. -/
def onDisk (p : TreePath) := do
  let here ← IO.currentDir
  return here / unspelt ("/" ++ joinWith "/" p)

/-- The text of a file; of a file that holds no text nothing is known. -/
def textOnDisk (p : TreePath) : IO String := do
  try return spelt (← IO.FS.readFile (← onDisk p)) catch _ => return ""

/-- Take a place into a tree, and everything below if that is wanted. -/
partial def load (depth : Depth) (t : FileTree) (p : TreePath) : IO FileTree := do
  let place ← onDisk p
  if ← place.isDir then
    let t := t.place p none
    match depth with
    | .shallow => return t
    | .deep =>
        let entries ← place.readDir
        entries.foldlM (fun t e => load .deep t (p ++ [spelt e.fileName])) t
  else if ← place.pathExists then return t.place p (some (← textOnDisk p))
  else return t

/-- Take places into an empty tree together with the directories that lead there. -/
def loadAll (places : List (TreePath × Depth)) : IO FileTree :=
  places.foldlM (fun t (p, depth) => do
    let t ← (TreePath.leading p.dropLast).foldlM (load .shallow) t
    load depth t p) ⟨[]⟩

/-- Put what has changed back on the disk. -/
def store (old new : FileTree) : IO Unit := do
  for (p, e) in new.entries do
    unless old.get? p = some e do
      match e with
      | .directory => IO.FS.createDirAll (← onDisk p)
      | .file text => IO.FS.writeFile (← onDisk p) (unspelt text)
  for (p, e) in old.entries do
    unless new.contains p do
      let place ← onDisk p
      if ← place.pathExists then
        match e with
        | .directory => IO.FS.removeDirAll place
        | .file _ => IO.FS.removeFile place

/-- The date and the time. -/
def dateTime : IO DateTime := do
  let now ← Std.Time.PlainDateTime.now
  return ⟨now.year.toInt.toNat, now.month.val.toNat, now.day.val.toNat, now.hour.val.toNat,
    now.minute.val.toNat, now.second.val.toNat⟩

/-- The site of a command line. -/
def currentSite (arguments : List String) : IO Site := do
  let here ← IO.currentDir
  let bare : Site := ⟨⟨[]⟩, [], "", Location.partsOf (spelt here.toString), ⟨← dateTime, none⟩⟩
  match Command.read arguments with
  | .ok command => return { bare with files := ← loadAll (command.footprint bare) }
  | .error _ => return bare

/-- Say how the program is used. -/
def explain (why : Refusal) : IO Unit := do
  let text := String.join (Command.usage.map (· ++ "\n"))
  match why with
  | .rejected => IO.eprint text
  | .noCommand | .helpWanted => IO.print text

/-- Carry out a command line on this machine. -/
def runProgram (arguments : List String) : IO UInt32 := do
  let site ← currentSite arguments
  let (ending, s) := (Session.new site ⟨0.0, 0.0, []⟩).perform arguments .natural
  store site.files s.site.files
  IO.print (unspelt s.outputText)
  IO.eprint (unspelt s.complaintText)
  match ending with
  | .exit code => return UInt32.ofNat code
  | .refused why => do
      explain why
      return UInt32.ofNat why.exitCode
  | .failed e => do
      IO.eprintln (unspelt e.message)
      return 1

end PrimeSearch

/-- The program. -/
def main (arguments : List String) : IO UInt32 := PrimeSearch.runProgram (arguments.map PrimeSearch.spelt)
