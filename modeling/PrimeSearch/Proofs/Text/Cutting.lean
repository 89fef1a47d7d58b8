/-
Module: PrimeSearch.Proofs.Text.Cutting
Purpose: How texts are cut at separators and into characters, and how many bytes they have.
Main exports: splitAtChar_append, splitAtChar_front, Ascii, characters_append,
  characters_ascii_append, byteSize_append
-/
import PrimeSearch.Text.Quoted

namespace PrimeSearch

/-!
A spelling takes two characters together only if the second one lies above ASCII.  So a text is cut
before every ASCII character, whatever stands in front of it, and the characters of a text are those
of its parts.
-/

/-! ### Parts between separators -/

section
variable {separator : Char} {cs : List Char}

theorem splitAtChar_of_not_mem (absent : separator ∉ cs) : splitAtChar separator cs = [cs] := by
  induction cs with
  | nil => rfl
  | cons c cs ih =>
      have other : c ≠ separator := fun same => absent (same ▸ List.mem_cons_self)
      have rest : separator ∉ cs := fun member => absent (List.mem_cons_of_mem c member)
      simp only [splitAtChar, ih rest, if_neg other]

/-- What stands before the first separator is the first part. -/
theorem splitAtChar_append (absent : separator ∉ cs) (rest : List Char) :
    splitAtChar separator (cs ++ separator :: rest) = cs :: splitAtChar separator rest := by
  induction cs with
  | nil => simp only [List.nil_append, splitAtChar, if_true]
  | cons c cs ih =>
      have other : c ≠ separator := fun same => absent (same ▸ List.mem_cons_self)
      have before : separator ∉ cs := fun member => absent (List.mem_cons_of_mem c member)
      simp only [List.cons_append, splitAtChar, ih before, if_neg other]

theorem splitAtChar_ne_nil (separator : Char) (cs : List Char) : splitAtChar separator cs ≠ [] := by
  cases cs with
  | nil => exact List.cons_ne_nil _ _
  | cons c cs =>
      unfold splitAtChar
      dsimp only
      split
      next => exact List.cons_ne_nil _ _
      next =>
        split
        next => exact List.cons_ne_nil _ _
        next => exact List.cons_ne_nil _ _

/-- The first part begins as the text does. -/
theorem splitAtChar_front (absent : separator ∉ cs) (back : List Char) :
    ∃ first others, splitAtChar separator (cs ++ back) = (cs ++ first) :: others := by
  induction cs with
  | nil => exact List.exists_cons_of_ne_nil (splitAtChar_ne_nil separator back)
  | cons c cs ih =>
      have other : c ≠ separator := fun same => absent (same ▸ List.mem_cons_self)
      obtain ⟨first, others, cut⟩ := ih fun member => absent (List.mem_cons_of_mem c member)
      refine ⟨first, others, ?_⟩
      simp only [List.cons_append, splitAtChar, cut, if_neg other]

/-- No separator is left in a part. -/
theorem not_mem_of_mem_splitAtChar (cs : List Char) :
    ∀ part ∈ splitAtChar separator cs, separator ∉ part := by
  induction cs with
  | nil => exact List.forall_mem_singleton.mpr List.not_mem_nil
  | cons c cs ih =>
      unfold splitAtChar
      dsimp only
      split
      next => exact List.forall_mem_cons.mpr ⟨List.not_mem_nil, ih⟩
      next other =>
        split
        next first others cut =>
          obtain ⟨clear, rest⟩ := List.forall_mem_cons.mp (cut ▸ ih)
          exact List.forall_mem_cons.mpr
            ⟨List.not_mem_cons_of_ne_of_not_mem (Ne.symm other) clear, rest⟩
        next none => exact absurd none (splitAtChar_ne_nil separator cs)

end

/-! ### Characters -/

/-- A character of ASCII. -/
def Ascii (c : Char) : Prop := c.toNat < 0x80

instance : DecidablePred Ascii := fun c => inferInstanceAs (Decidable (c.toNat < 0x80))

/-- Whether a text is ASCII. -/
def isAscii (text : String) : Bool := text.toList.all fun c => decide (Ascii c)

/-- Whether all characters of a fixed text are of a kind can be computed. -/
theorem forall_mem_of_all {kind : Char → Prop} [DecidablePred kind] {cs : List Char}
    (all : cs.all (fun c => decide (kind c)) = true) : ∀ c ∈ cs, kind c := fun c member =>
  of_decide_eq_true (List.all_eq_true.mp all c member)

section
variable {c d : Char} {cs : List Char}

theorem Ascii.ne_mark (ascii : Ascii c) : c ≠ spellingMark := by
  rintro rfl
  exact absurd ascii (by decide)

/-- No character spells one code point together with one of ASCII behind it. -/
theorem Ascii.spellOne (ascii : Ascii d) (c : Char) : PrimeSearch.spellOne c d = false := by
  have low : d.toNat - surrogateShift = 0 := by
    have : d.toNat < 0x80 := ascii
    simp only [surrogateShift]
    omega
  have other : (d == spellingMark) = false := beq_eq_false_iff_ne.mpr ascii.ne_mark
  rw [PrimeSearch.spellOne, low, other]
  exact Bool.and_false _

/-- A text is cut before a character of ASCII. -/
theorem characters_append (ascii : Ascii d) (text rest : List Char) :
    characters (text ++ d :: rest) = characters text ++ [d] :: characters rest := by
  fun_induction characters text with
  | case1 => exact characters_cons ascii.ne_mark rest
  | case2 c =>
      show characters (c :: d :: rest) = _
      rw [characters, ascii.spellOne c, if_neg Bool.false_ne_true, characters_cons ascii.ne_mark]
      rfl
  | case3 c d' cs together ih =>
      show characters (c :: d' :: (cs ++ d :: rest)) = _
      rw [characters, if_pos together, ih]
      rfl
  | case4 c d' cs apart ih =>
      show characters (c :: d' :: (cs ++ d :: rest)) = _
      rw [characters, if_neg apart]
      show [c] :: characters (d' :: cs ++ d :: rest) = _
      rw [ih]
      rfl

/-- Characters of ASCII stand alone, whatever follows. -/
theorem characters_ascii_append (ascii : ∀ c ∈ cs, Ascii c) (rest : List Char) :
    characters (cs ++ rest) = cs.map ([·]) ++ characters rest := by
  induction cs with
  | nil => rfl
  | cons c cs ih =>
      obtain ⟨first, others⟩ := List.forall_mem_cons.mp ascii
      rw [List.cons_append, characters_cons first.ne_mark, ih others]
      rfl

theorem characters_ascii (ascii : ∀ c ∈ cs, Ascii c) : characters cs = cs.map ([·]) := by
  have whole := characters_ascii_append ascii []
  rwa [List.append_nil, characters, List.append_nil] at whole

end

/-! ### Bytes -/

/-- A separator of ASCII has its bytes between those of the parts. -/
theorem byteSize_append {separator : Char} (ascii : Ascii separator) (front back : String) :
    byteSize (front ++ String.singleton separator ++ back) =
      byteSize front + separator.utf8Size + byteSize back := by
  have text : (front ++ String.singleton separator ++ back).toList =
      front.toList ++ separator :: back.toList := by
    simp
  rw [byteSize, text, characters_append ascii]
  simp [byteSize, byteSizeOf, Nat.add_assoc]

end PrimeSearch
