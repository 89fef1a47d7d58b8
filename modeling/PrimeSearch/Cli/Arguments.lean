/-
Module: PrimeSearch.Cli.Arguments
Purpose: Telling options, their values and plain arguments apart.
Main exports: OptionKind, OptionSpec, Signature, Word, Refusal, Signature.classify,
  Signature.read, Signature.leading, Reading, Reading.value
-/
import PrimeSearch.Json.Basic
import PrimeSearch.Text.Quoted

namespace PrimeSearch

/-!
A command has options and at most one argument without a name.  An option is recognised by
one of its spellings or by the beginning of a long spelling, if only one begins like that.
Its value is the next argument, or what follows an equals sign, or, after a short spelling,
the rest of the same argument.  Everything after a lone `--` stands for itself.

All arguments are understood before any is acted upon, and then they are acted upon from left
to right: what is wrong with a value is found before a later option asks for help, and help
is given before anything later is found wrong.
-/

/-- What an option takes. -/
inductive OptionKind where
  /-- Nothing: the option is given or not. -/
  | flag
  | text
  | whole
  | real
  /-- One of some names. -/
  | choice (names : List String)
deriving Repr, DecidableEq

/-- The value that a text gives. -/
def OptionKind.value? (text : String) : OptionKind → Option Json
  | .flag => none
  | .text => some (.str text)
  | .whole => (Numeral.readInteger? text).map .int
  | .real => (Numeral.read? text).map .real
  | .choice names => if names.contains text then some (.str text) else none

/-- An option of a command; its first spelling names it. -/
structure OptionSpec where
  spellings : List String
  kind : OptionKind
deriving Repr, DecidableEq

/-- Whether an option takes a value. -/
def OptionSpec.takesValue (o : OptionSpec) : Bool := o.kind ≠ .flag

/-- Name of an option. -/
def OptionSpec.name (o : OptionSpec) : String := o.spellings.headD ""

/-- What a command accepts. -/
structure Signature where
  options : List OptionSpec
  /-- Whether the command needs one argument without a name. -/
  hasOperand : Bool
deriving Repr, DecidableEq

/-- Why there is nothing to carry out. -/
inductive Refusal where
  | noCommand
  | helpWanted
  | rejected
deriving Repr, DecidableEq

/-- An argument as it is understood. -/
inductive Word where
  | plain (text : String)
  | separator
  /-- An option under one of its spellings, with a value in the same argument. -/
  | option (spelling : String) (attached : Option String)
  | unknown
deriving Repr, DecidableEq

namespace Signature

/-- The option that asks for help. -/
def help : OptionSpec := ⟨["--help", "-h"], .flag⟩

/-- All options of a command. -/
def all (s : Signature) : List OptionSpec := help :: s.options

/-- The option of a spelling. -/
def find? (s : Signature) (spelling : String) : Option OptionSpec :=
  s.all.find? fun o => o.spellings.contains spelling

/-- Whether a text is the spelling of an option. -/
def knows (s : Signature) (spelling : String) : Bool := (s.find? spelling).isSome

/-- What stands before and after the first equals sign. -/
def splitEquals (cs : List Char) : List Char × Option (List Char) :=
  match cs.span (· ≠ '=') with
  | (head, _ :: value) => (head, some value)
  | (head, []) => (head, none)

/-- All options that an argument may be a shortened form of. -/
def completions (s : Signature) (cs : List Char) : List Word :=
  let spellings := s.all.flatMap (·.spellings)
  match cs with
  | '-' :: '-' :: _ =>
      let (head, value) := splitEquals cs
      (spellings.filter fun p => startsWith head p.toList).map fun p =>
        .option p (value.map String.ofList)
  | _ =>
      let short := String.ofList (cs.take 2)
      spellings.filterMap fun p =>
        if p = short then some (.option p (some (String.ofList (cs.drop 2))))
        else if startsWith cs p.toList then some (.option p none)
        else none

/-- Whether nothing is left but perhaps a final line break. -/
def isLineEnd (cs : List Char) : Bool := cs.isEmpty || cs == ['\n']

/-- Whether what follows a minus sign makes it a negative number. -/
def isMagnitude (cs : List Char) : Bool :=
  match Numeral.spanDigits cs with
  | (_, '.' :: rest) =>
      let (fraction, rest) := Numeral.spanDigits rest
      !fraction.isEmpty && isLineEnd rest
  | (whole, rest) => !whole.isEmpty && isLineEnd rest

/-- Understand one argument.  What begins with a minus sign and is no option may still be
a negative number or a text with a blank in it. -/
def classify (s : Signature) (text : String) : Except Refusal Word :=
  match text.toList with
  | '-' :: tail =>
      if s.knows text then .ok (.option text none)
      else if tail.isEmpty then .ok (.plain text)
      else
        let (head, value) := splitEquals ('-' :: tail)
        if value.isSome && s.knows (String.ofList head) then
          .ok (.option (String.ofList head) (value.map String.ofList))
        else
          match s.completions ('-' :: tail) with
          | [word] => .ok word
          | _ :: _ :: _ => .error .rejected
          | [] =>
              if isMagnitude tail || tail.contains ' ' then .ok (.plain text)
              else .ok .unknown
  | _ => .ok (.plain text)

/-- Understand all arguments. -/
def words (s : Signature) : List String → Except Refusal (List Word)
  | [] => .ok []
  | text :: rest =>
      if text = "--" then .ok (.separator :: rest.map .plain)
      else do
        let word ← s.classify text
        return word :: (← s.words rest)

end Signature

/-- An option that is asked for, with the text of its value if it takes one. -/
structure Demand where
  option : OptionSpec
  text : Option String
deriving Repr, DecidableEq

/-- What a demand gives.  A separator in place of a value gives an empty list. -/
def Demand.value (d : Demand) : Except Refusal Json :=
  match d.text with
  | none => if d.option = Signature.help then .error .helpWanted else .ok (.bool true)
  | some "--" => .ok (.arr [])
  | some text =>
      match d.option.kind.value? text with
      | some value => .ok value
      | none => .error .rejected

/-- What has been gathered from the arguments of a command. -/
structure Reading where
  /-- Options by name with their values, in order. -/
  given : List (String × Json) := []
  operand : Option String := none
  /-- Whether there was something that does not belong here. -/
  surplus : Bool := false

/-- Act upon some demands, one after the other. -/
def Reading.carryOut (r : Reading) (demands : List Demand) : Except Refusal Reading :=
  demands.foldlM (fun r d => do
    let value ← d.value
    return { r with given := r.given ++ [(d.option.name, value)] }) r

namespace Signature

/-- Demands of a spelling with attached text.  An option that takes a value takes all the
text; after one that does not, the text goes on with further short options.  The last option
may still wait for its value. -/
def expand (s : Signature) (spelling : String) :
    List Char → Except Refusal (List Demand × Option OptionSpec)
  | [] =>
      match s.find? spelling with
      | some o => if o.takesValue then .ok ([⟨o, some ""⟩], none) else .error .rejected
      | none => .error .rejected
  | c :: rest =>
      match s.find? spelling with
      | none => .error .rejected
      | some o =>
          if o.takesValue then .ok ([⟨o, some (String.ofList (c :: rest))⟩], none)
          else if startsWith ['-', '-'] spelling.toList then .error .rejected
          else
            let next := String.ofList ['-', c]
            match s.find? next, rest with
            | none, _ => .error .rejected
            | some p, [] =>
                .ok (if p.takesValue then ([⟨o, none⟩], some p)
                  else ([⟨o, none⟩, ⟨p, none⟩], none))
            | some _, _ :: _ => do
                let (demands, waiting) ← s.expand next rest
                return (⟨o, none⟩ :: demands, waiting)

/-- Demands of a spelling. -/
def demand (s : Signature) (spelling : String) :
    Option String → Except Refusal (List Demand × Option OptionSpec)
  | some text => s.expand spelling text.toList
  | none =>
      match s.find? spelling with
      | some o => .ok (if o.takesValue then ([], some o) else ([⟨o, none⟩], none))
      | none => .error .rejected

/-- Gather words.  A separator belongs to the argument without a name that it stands
beside. -/
def gather (s : Signature) : List Word → Reading → Except Refusal Reading
  | [], r => .ok r
  | .plain text :: .separator :: rest, r =>
      if s.hasOperand && r.operand.isNone then
        s.gather rest { r with operand := some text }
      else s.gather rest { r with surplus := true }
  | .separator :: .plain text :: rest, r =>
      if s.hasOperand && r.operand.isNone then
        s.gather rest { r with operand := some text }
      else s.gather rest { r with surplus := true }
  | .plain text :: rest, r =>
      if s.hasOperand && r.operand.isNone then
        s.gather rest { r with operand := some text }
      else s.gather rest { r with surplus := true }
  | .separator :: rest, r | .unknown :: rest, r => s.gather rest { r with surplus := true }
  | .option spelling attached :: .plain text :: rest, r => do
      match ← s.demand spelling attached with
      | (demands, some o) => s.gather rest (← r.carryOut (demands ++ [⟨o, some text⟩]))
      | (demands, none) => s.gather (.plain text :: rest) (← r.carryOut demands)
  | .option spelling attached :: rest, r => do
      match ← s.demand spelling attached with
      | (_, some _) => .error .rejected
      | (demands, none) => s.gather rest (← r.carryOut demands)

/-- Read the arguments of a command. -/
def read (s : Signature) (arguments : List String) : Except Refusal Reading := do
  let r ← s.gather (← s.words arguments) {}
  if r.surplus || (s.hasOperand && r.operand.isNone) then throw .rejected else return r

/-- Act upon the options in front of the first plain argument.  What is left begins with that
argument; it is also said whether there was something that does not belong here. -/
def leading (s : Signature) : List String → Except Refusal (Bool × List String)
  | [] => .ok (false, [])
  | text :: rest =>
      if text = "--" then .ok (false, text :: rest)
      else do
        match ← s.classify text with
        | .plain _ | .separator => return (false, text :: rest)
        | .unknown => return (true, (← s.leading rest).2)
        | .option spelling attached => do
            let (demands, _) ← s.demand spelling attached
            let _ ← Reading.carryOut {} demands
            s.leading rest

end Signature

namespace Reading

/-- The value of an option: the last one given counts. -/
def value (r : Reading) (name : String) (fallback : Json) : Json :=
  ((r.given.filter (·.1 = name)).getLast?.map (·.2)).getD fallback

/-- Whether an option was given. -/
def has (r : Reading) (name : String) : Bool := r.given.any (·.1 = name)

/-- A text that may be left out; an empty one counts as left out. -/
def text? (r : Reading) (name : String) : Option String :=
  match r.value name .null with
  | .str text => if text = "" then none else some text
  | _ => none

/-- A whole number that may be left out. -/
def whole (r : Reading) (name : String) (fallback : Int) : Int :=
  match r.value name (.int fallback) with
  | .int n => n
  | _ => 0

end Reading

end PrimeSearch
