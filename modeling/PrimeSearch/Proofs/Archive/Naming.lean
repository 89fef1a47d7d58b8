/-
Module: PrimeSearch.Proofs.Archive.Naming
Purpose: Which texts may stand in the path of a file, and what the names of run directories are
  made of.
Main exports: Writable, writtenFault?_eq_none_iff, Tame, writable_of_tame, Location.writable_child,
  runName, writable_label, variant_injective, plain_variant, writable_variant, writable_runName
-/
import PrimeSearch.Archive.Basic
import PrimeSearch.Proofs.Files.Tree
import PrimeSearch.Proofs.Number.Literal
import PrimeSearch.Proofs.Text.Cutting

namespace PrimeSearch

open FileTree (Plain)

/-!
A path is at fault before anyone looks for it if it holds a null or half of a surrogate pair that
stands for no byte, or if it is too long.  The first two are faults of its parts.  The name of a run
directory is a time, a type and a label with lines between them, and perhaps a number; only the label
comes from a user.
-/

/-! ### Texts in a path -/

/-- A text that may stand in a path: it has no null in it, and no half of a surrogate pair that
stands for no byte. -/
structure Writable (text : String) : Prop where
  noNull : '\x00' ∉ text.toList
  encodable : ∀ c ∈ characters text.toList,
    (isSurrogate (codeOf c) && !Site.isByte (codeOf c)) = false

/-- A fault of the characters in a path. -/
inductive FileFault.OfCharacters : FileFault → Prop where
  | nullByte : OfCharacters .nullByte
  | unencodable (unit first last : Nat) : OfCharacters (.unencodable unit first last)

theorem FileFault.OfCharacters.isAbsence {fault : FileFault} (faulty : fault.OfCharacters) :
    fault.isAbsence = true := by
  cases faulty with | nullByte | unencodable => rfl

theorem FileFault.OfCharacters.ne_missing {fault : FileFault} (faulty : fault.OfCharacters) :
    fault ≠ .missing := by
  cases faulty with | nullByte | unencodable => exact nofun

namespace Site

theorem unencodable?_eq_none_iff {place : Nat} {codes : List Nat} :
    unencodable? place codes = none ↔ ∀ code ∈ codes, (isSurrogate code && !isByte code) = false := by
  induction codes generalizing place with
  | nil => simp [unencodable?]
  | cons code codes ih =>
      rw [unencodable?, List.forall_mem_cons]
      split
      next lone => simp [lone]
      next kept => rw [ih, and_iff_right (Bool.eq_false_iff.mpr kept)]

theorem unencodable?_eq_some {place : Nat} {codes : List Nat} {fault : FileFault}
    (found : unencodable? place codes = some fault) : fault.OfCharacters := by
  induction codes generalizing place with
  | nil => cases found
  | cons code codes ih =>
      rw [unencodable?] at found
      split at found
      next => exact Option.some.inj found ▸ .unencodable _ _ _
      next => exact ih found

/-- A writable path is at fault only if it is too long. -/
theorem writtenFault?_of_writable {text : String} (writable : Writable text) :
    writtenFault? text = if pathLimit < byteSize text then some .nameTooLong else none := by
  have encodable : unencodable? 0 ((characters text.toList).map codeOf) = none :=
    unencodable?_eq_none_iff.mpr (List.forall_mem_map.mpr writable.encodable)
  have noNull : text.toList.contains '\x00' = false := by
    simpa using writable.noNull
  rw [writtenFault?, encodable]
  dsimp only
  rw [noNull, if_neg Bool.false_ne_true]

/-- A path that is not writable is at fault in its characters. -/
theorem writtenFault?_of_not_writable {text : String} (unwritable : ¬Writable text) :
    ∃ fault, writtenFault? text = some fault ∧ fault.OfCharacters := by
  unfold writtenFault?
  split
  next fault found => exact ⟨fault, rfl, unencodable?_eq_some found⟩
  next encodable =>
    split
    next => exact ⟨.nullByte, rfl, .nullByte⟩
    next noNull =>
      refine absurd ⟨?_, ?_⟩ unwritable
      · simpa using noNull
      · exact List.forall_mem_map.mp (unencodable?_eq_none_iff.mp encodable)

theorem writtenFault?_eq_none_iff {text : String} :
    writtenFault? text = none ↔ Writable text ∧ byteSize text ≤ pathLimit := by
  by_cases writable : Writable text
  · rw [writtenFault?_of_writable writable, and_iff_right writable]
    split
    next long => simpa using long
    next short => simpa using short
  · obtain ⟨fault, found, -⟩ := writtenFault?_of_not_writable writable
    simp [found, writable]

end Site

/-! ### Parts of a text -/

section
variable {front back : String}

theorem Ascii.not_surrogate {c : Char} (ascii : Ascii c) : isSurrogate (codeOf [c]) = false := by
  have low : c.toNat < 0x80 := ascii
  have : ¬0xd800 ≤ c.toNat := by omega
  simp [isSurrogate, codeOf, this]

/-- A text is writable if what stands before and behind a separator is. -/
theorem writable_append {separator : Char} (ascii : Ascii separator)
    (nonnull : separator ≠ '\x00') :
    Writable (front ++ String.singleton separator ++ back) ↔ Writable front ∧ Writable back := by
  have text : (front ++ String.singleton separator ++ back).toList =
      front.toList ++ separator :: back.toList := by
    simp
  have cut := characters_append ascii front.toList back.toList
  constructor
  · rintro ⟨noNull, encodable⟩
    rw [text] at noNull encodable
    rw [cut] at encodable
    simp only [List.mem_append, List.mem_cons, not_or] at noNull encodable
    exact ⟨⟨noNull.1, fun c member => encodable c (.inl member)⟩,
      ⟨noNull.2.2, fun c member => encodable c (.inr (.inr member))⟩⟩
  · rintro ⟨first, second⟩
    constructor
    · rw [text]
      simp only [List.mem_append, List.mem_cons, not_or]
      exact ⟨first.noNull, nonnull.symm, second.noNull⟩
    · rw [text, cut]
      intro c member
      rcases List.mem_append.mp member with inFront | inRest
      · exact first.encodable c inFront
      · rcases List.mem_cons.mp inRest with rfl | inBack
        · rw [ascii.not_surrogate, Bool.false_and]
        · exact second.encodable c inBack

/-- Two texts with a line between them. -/
theorem writable_line : Writable (front ++ "_" ++ back) ↔ Writable front ∧ Writable back := by
  have line : "_" = String.singleton '_' := by decide
  rw [line]
  exact writable_append (by decide) (by decide)

/-- A character of ASCII other than the null. -/
def Tame (c : Char) : Prop := Ascii c ∧ c ≠ '\x00'

instance : DecidablePred Tame := fun _ => inferInstanceAs (Decidable (_ ∧ _))

theorem writable_of_tame (tame : ∀ c ∈ front.toList, Tame c) : Writable front := by
  refine ⟨fun member => (tame _ member).2 rfl, fun c member => ?_⟩
  rw [characters_ascii fun c inFront => (tame c inFront).1] at member
  obtain ⟨d, inFront, rfl⟩ := List.mem_map.mp member
  rw [(tame d inFront).1.not_surrogate, Bool.false_and]

/-- Whether a fixed text is tame can be computed. -/
theorem tame_of_all (all : front.toList.all (fun c => decide (Tame c)) = true) :
    ∀ c ∈ front.toList, Tame c := forall_mem_of_all all

theorem writable_of_all (all : front.toList.all (fun c => decide (Tame c)) = true) :
    Writable front := writable_of_tame (tame_of_all all)

end

/-! ### Paths -/

namespace Location

variable {l : Location} {name : String}

/-- A path goes on behind a slash. -/
theorem text_child (long : l.parts ≠ []) :
    (l.child name).text = l.text ++ String.singleton '/' ++ name := by
  have whole : joinWith "/" (l.parts ++ [name]) = joinWith "/" l.parts ++ "/" ++ name := by
    rw [joinWith, String.intercalate_append_of_ne_nil long (List.cons_ne_nil _ _)]
    simp [joinWith, String.intercalate_singleton]
  have nonempty : l.parts.isEmpty = false := List.isEmpty_eq_false_iff.mpr long
  have nonempty' : (l.parts ++ [name]).isEmpty = false :=
    List.isEmpty_eq_false_iff.mpr (List.concat_ne_nil _ _)
  rw [text, text]
  simp only [child, nonempty, nonempty', Bool.false_and, Bool.false_eq_true, if_false, whole]
  simp [String.append_assoc]

theorem writable_child (long : l.parts ≠ []) :
    Writable (l.child name).text ↔ Writable l.text ∧ Writable name := by
  rw [text_child long]
  exact writable_append (by decide) (by decide)

theorem byteSize_child (long : l.parts ≠ []) :
    byteSize (l.child name).text = byteSize l.text + 1 + byteSize name := by
  rw [text_child long]
  exact byteSize_append (by decide) _ _

/-- A path is not at fault where one that goes on from it is not. -/
theorem faultless_of_child (long : l.parts ≠ [])
    (faultless : Site.writtenFault? (l.child name).text = none) :
    Site.writtenFault? l.text = none := by
  rw [Site.writtenFault?_eq_none_iff, writable_child long, byteSize_child long] at faultless
  rw [Site.writtenFault?_eq_none_iff]
  exact ⟨faultless.1.1, by omega⟩

theorem child_ne_nil (l : Location) (name : String) : (l.child name).parts ≠ [] :=
  List.concat_ne_nil _ _

theorem parent_child (l : Location) (name : String) : (l.child name).parent = l := by
  simp [parent, child]

theorem name_child (l : Location) (name : String) : (l.child name).name = name := by
  simp [Location.name, child]

/-- Going on along a plain name without slashes is going to that child. -/
theorem join_eq_child (l : Location) (plain : Plain name) (flat : '/' ∉ name.toList) :
    l.join name = l.child name := by
  obtain ⟨nonempty, noDot, -⟩ := plain
  have parts : partsOf name = [name] := by
    rw [partsOf, splitAtChar_of_not_mem flat]
    simp [nonempty, noDot]
  have root : rootOf name = "" := by
    have none_ : name.toList.takeWhile (· = '/') = [] := by
      rw [List.takeWhile_eq_nil_iff]
      intro long slash
      exact flat (of_decide_eq_true slash ▸ List.getElem_mem long)
    rw [rootOf, none_]
    rfl
  simp [join, ofText, parts, root, isAbsolute, child]

end Location

/-! ### Names of run directories -/

section
variable {name : String}

theorem plain_of_line (line : '_' ∈ name.toList) : Plain name := by
  refine ⟨?_, ?_, ?_⟩
  all_goals
    rintro rfl
    revert line
    decide

theorem plain_of_head {c : Char} (head : name.toList.head? = some c) (noDot : c ≠ '.') :
    Plain name := by
  refine ⟨?_, ?_, ?_⟩
  · rintro rfl
    cases head
  · rintro rfl
    exact noDot (Option.some.inj head).symm
  · rintro rfl
    exact noDot (Option.some.inj head).symm

theorem Digits.not_mem {cs : List Char} (all : Digits cs) {c : Char} (other : c.isDigit = false) :
    c ∉ cs := fun member => Bool.false_ne_true (other.symm.trans (all c member))

theorem Digits.tame {cs : List Char} (all : Digits cs) : ∀ c ∈ cs, Tame c := by
  refine fun c member => ⟨?_, ?_⟩
  · exact Nat.lt_of_le_of_lt (Char.isDigit_iff_toNat.mp (all c member)).2 (by decide)
  · rintro rfl
    exact all.not_mem (by decide) member

theorem digits_padded (width n : Nat) : Digits (DateTime.padded width n).toList := by
  rw [DateTime.padded, Numeral.padLeft, String.toList_append, String.toList_ofList]
  refine (Digits.zeros _).append ?_
  rw [Numeral.ofNat, String.toList_ofList]
  exact Digits.ofNat n

end

namespace DateTime

/-- Date and time of a stamp. -/
theorem stamp_eq (t : DateTime) : ∃ front back, Digits front ∧ Digits back ∧
    t.stamp.toList = front ++ '_' :: back := by
  refine ⟨_, _, ((digits_padded 4 t.year).append (digits_padded 2 t.month)).append
    (digits_padded 2 t.day), ((digits_padded 2 t.hour).append (digits_padded 2 t.minute)).append
    (digits_padded 2 t.second), ?_⟩
  simp [stamp]

theorem line_mem_stamp (t : DateTime) : '_' ∈ t.stamp.toList := by
  obtain ⟨front, back, -, -, shape⟩ := t.stamp_eq
  simp [shape]

theorem tame_stamp (t : DateTime) : ∀ c ∈ t.stamp.toList, Tame c := by
  obtain ⟨front, back, first, second, shape⟩ := t.stamp_eq
  rw [shape]
  intro c member
  rcases List.mem_append.mp member with inFront | inRest
  · exact first.tame c inFront
  · rcases List.mem_cons.mp inRest with rfl | inBack
    · decide
    · exact second.tame c inBack

theorem not_mem_stamp (t : DateTime) {c : Char} (other : c.isDigit = false) (noLine : c ≠ '_') :
    c ∉ t.stamp.toList := by
  obtain ⟨front, back, first, second, shape⟩ := t.stamp_eq
  simp [shape, first.not_mem other, second.not_mem other, noLine]

end DateTime

namespace Archive

/-- The name that is wanted for a run directory. -/
def runName (time : DateTime) (runType description : String) : String :=
  time.stamp ++ "_" ++ runType ++ "_" ++ label description

/-- What is in a label comes from the description. -/
theorem mem_label {description : String} {c : Char} (member : c ∈ (label description).toList) :
    ∃ d ∈ description.toList, (if d = ' ' then '_' else if d = '/' then '-' else d) = c := by
  rw [label, String.toList_ofList] at member
  have inPlain := (List.take_sublist labelLength (characters (description.toList.map fun c =>
    if c = ' ' then '_' else if c = '/' then '-' else c))).flatten.subset member
  rw [flatten_characters] at inPlain
  exact List.mem_map.mp inPlain

/-- The label of a tame text may stand in a path. -/
theorem writable_label {description : String} (tame : ∀ c ∈ description.toList, Tame c) :
    Writable (label description) := by
  refine writable_of_tame fun c member => ?_
  obtain ⟨d, listed, rfl⟩ := mem_label member
  split
  next => decide
  next =>
    split
    next => decide
    next => exact tame d listed

/-- No slash is left in a label. -/
theorem slash_not_mem_label (description : String) : '/' ∉ (label description).toList := by
  intro member
  obtain ⟨c, -, same⟩ := mem_label member
  revert same
  split
  next => decide
  next =>
    split
    next => decide
    next other => exact other

section
variable {name : String}

theorem slash_not_mem_variant (flat : '/' ∉ name.toList) (k : Nat) :
    '/' ∉ (variant name k).toList := by
  unfold variant
  split
  next => exact flat
  next =>
    have digits : '/' ∉ (Numeral.ofNat k).toList := by
      rw [Numeral.ofNat, String.toList_ofList]
      exact (Digits.ofNat k).not_mem (by decide)
    simp [flat, digits]

theorem plain_variant (line : '_' ∈ name.toList) (k : Nat) : Plain (variant name k) := by
  apply plain_of_line
  unfold variant
  split
  next => exact line
  next => simp

/-- A number behind a name does not change whether it may stand in a path. -/
theorem writable_variant (k : Nat) : Writable (variant name k) ↔ Writable name := by
  unfold variant
  split
  next => exact Iff.rfl
  next =>
    have digits : Writable (Numeral.ofNat k) := by
      apply writable_of_tame
      rw [Numeral.ofNat, String.toList_ofList]
      exact (Digits.ofNat k).tame
    rw [writable_line, and_iff_left digits]

theorem ofNat_injective {m n : Nat} (same : Numeral.ofNat m = Numeral.ofNat n) : m = n := by
  have digits : Nat.toDigits 10 m = Nat.toDigits 10 n := String.ofList_injective same
  have value := congrArg (fun ds => Nat.ofDigitChars 10 ds 0) digits
  simpa only [Nat.ofDigitChars_ten_toDigits] using value

/-- Variants with different numbers are different. -/
theorem variant_injective {j k : Nat} (same : variant name j = variant name k) : j = k := by
  have longer (n : Nat) : name ≠ name ++ "_" ++ Numeral.ofNat n := by
    intro equal
    have lengths := congrArg (fun text => text.toList.length) equal
    simp at lengths
  unfold variant at same
  split at same
  next first =>
    split at same
    next second => exact first.trans second.symm
    next => exact absurd same (longer k)
  next =>
    split at same
    next => exact absurd same.symm (longer j)
    next => exact ofNat_injective (String.append_right_inj _ |>.mp same)

end

/-- The types of runs that there are. -/
inductive RunKind where
  | search | comparison
deriving Repr, DecidableEq

/-- Name of a type of runs. -/
def RunKind.name : RunKind → String
  | .search => "search"
  | .comparison => "comparison"

section
variable (time : DateTime) {runType : String} (kind : RunKind) (description : String)

theorem line_mem_runName (runType : String) : '_' ∈ (runName time runType description).toList := by
  simp [runName, time.line_mem_stamp]

theorem slash_not_mem_runName (flat : '/' ∉ runType.toList) :
    '/' ∉ (runName time runType description).toList := by
  have inStamp : '/' ∉ time.stamp.toList := time.not_mem_stamp (by decide) (by decide)
  simp [runName, inStamp, flat, slash_not_mem_label]

theorem RunKind.slash_not_mem_name (kind : RunKind) : '/' ∉ kind.name.toList := by
  cases kind <;> decide

/-- Whether the name of a run directory may stand in a path is up to its label. -/
theorem writable_runName :
    Writable (runName time kind.name description) ↔ Writable (label description) := by
  have stamp : Writable time.stamp := writable_of_tame time.tame_stamp
  have type : Writable kind.name := writable_of_all (by cases kind <;> decide)
  rw [runName, writable_line, writable_line, and_iff_right ⟨stamp, type⟩]

end

end Archive

end PrimeSearch
