/-
Module: PrimeSearch.Proofs.Cli.Arguments
Purpose: Whatever the arguments of a command are, every option that was read has a value of its kind.
Main exports: OptionSpec.Gives, Reading.OfKind, Signature.read_ofKind, Reading.value_whole,
  Reading.value_real
-/
import PrimeSearch.Cli.Command
import PrimeSearch.Proofs.Outcome

namespace PrimeSearch

/-!
Arguments are understood as words, words as demands of options with the texts of their values, and only
a text of the kind of its option gives a value.  So no command ever sees a text where it asked for a
number.  There is one exception, the empty list that a separator gives in place of a value.
-/

/-- The values that an option can be read with. -/
inductive OptionSpec.Gives (o : OptionSpec) : Json → Prop where
  | flag (bare : o.takesValue = false) : o.Gives (.bool true)
  | separator : o.Gives (.arr [])
  | value {text : String} {v : Json} (read : o.kind.value? text = some v) : o.Gives v

/-- A demand of an option that a command knows, with a text if the option takes a value. -/
structure Demand.Fits (s : Signature) (d : Demand) : Prop where
  known : d.option ∈ s.all
  bare : d.text = none → d.option.takesValue = false

/-- Every option that was read is known to the command and has a value of its kind. -/
def Reading.OfKind (s : Signature) (r : Reading) : Prop :=
  ∀ name v, (name, v) ∈ r.given → ∃ o ∈ s.all, o.name = name ∧ o.Gives v

variable {s : Signature} {r r' : Reading}

theorem Demand.Fits.gives {d : Demand} (fits : d.Fits s) {v : Json} (given : d.value = .ok v) :
    d.option.Gives v := by
  unfold Demand.value at given
  split at given
  next bare =>
    split at given
    next => cases given
    next =>
      obtain rfl := Except.ok.inj given
      exact .flag (fits.bare bare)
  next =>
    obtain rfl := Except.ok.inj given
    exact .separator
  next text _ _ =>
    split at given
    next v' read =>
      obtain rfl := Except.ok.inj given
      exact .value read
    next => cases given

theorem Reading.OfKind.carryOut (ofKind : r.OfKind s) {demands : List Demand}
    (fit : ∀ d ∈ demands, d.Fits s) (done : r.carryOut demands = .ok r') : r'.OfKind s := by
  induction demands generalizing r with
  | nil =>
      obtain rfl := Except.ok.inj done
      exact ofKind
  | cons d demands ih =>
      obtain ⟨r'', first, rest⟩ := bind_eq_ok done
      obtain ⟨v, given, first⟩ := bind_eq_ok first
      obtain rfl := Except.ok.inj first
      have here := fit d List.mem_cons_self
      refine ih (fun name w listed => ?_) (fun d' later => fit d' (List.mem_cons_of_mem _ later)) rest
      rcases List.mem_append.mp listed with early | late
      · exact ofKind name w early
      · obtain ⟨rfl, rfl⟩ := Prod.mk.inj (List.mem_singleton.mp late)
        exact ⟨d.option, here.known, rfl, here.gives given⟩

namespace Signature

/-- What a spelling demands: options of the command, the last of which may still wait for its
value. -/
structure Demands (s : Signature) (found : List Demand × Option OptionSpec) : Prop where
  fit : ∀ d ∈ found.1, d.Fits s
  waiting : ∀ o ∈ found.2, o ∈ s.all

theorem mem_all_of_find? {spelling : String} {o : OptionSpec} (found : s.find? spelling = some o) :
    o ∈ s.all := List.mem_of_find?_eq_some found

/-- A single demand of an option with a text, or of one that takes none. -/
theorem Demands.single {d : Demand} (fits : d.Fits s) : s.Demands ([d], none) :=
  ⟨fun _ listed => List.mem_singleton.mp listed ▸ fits, fun _ none => nomatch none⟩

theorem fits_text {o : OptionSpec} (known : o ∈ s.all) (text : String) :
    Demand.Fits s ⟨o, some text⟩ := ⟨known, fun none => nomatch none⟩

theorem fits_bare {o : OptionSpec} (known : o ∈ s.all) (bare : ¬o.takesValue = true) :
    Demand.Fits s ⟨o, none⟩ := ⟨known, fun _ => Bool.eq_false_iff.mpr bare⟩

/-- A demand before others. -/
theorem Demands.cons {d : Demand} {found : List Demand × Option OptionSpec} (fits : d.Fits s)
    (demands : s.Demands found) : s.Demands (d :: found.1, found.2) :=
  ⟨List.forall_mem_cons.mpr ⟨fits, demands.fit⟩, demands.waiting⟩

theorem expand_demands {spelling : String} {cs : List Char}
    {found : List Demand × Option OptionSpec} (expanded : s.expand spelling cs = .ok found) :
    s.Demands found := by
  induction cs generalizing spelling found with
  | nil =>
      unfold expand at expanded
      split at expanded
      next o known =>
        split at expanded
        next =>
          obtain rfl := Except.ok.inj expanded
          exact .single (fits_text (mem_all_of_find? known) "")
        next => cases expanded
      next => cases expanded
  | cons c rest ih =>
      unfold expand at expanded
      split at expanded
      next => cases expanded
      next o known =>
        split at expanded
        next =>
          obtain rfl := Except.ok.inj expanded
          exact .single (fits_text (mem_all_of_find? known) _)
        next bare =>
          have fits := fits_bare (mem_all_of_find? known) bare
          split at expanded
          next => cases expanded
          next =>
            dsimp only at expanded
            split at expanded
            next => cases expanded
            next _ _ p next =>
              obtain rfl := Except.ok.inj expanded
              split
              next => exact ⟨fun _ listed => List.mem_singleton.mp listed ▸ fits,
                fun _ waits => Option.some.inj waits ▸ mem_all_of_find? next⟩
              next bare' => exact .cons fits (.single (fits_bare (mem_all_of_find? next) bare'))
            next =>
              obtain ⟨⟨demands, waiting⟩, more, expanded⟩ := bind_eq_ok expanded
              obtain rfl := Except.ok.inj expanded
              exact .cons fits (ih more)

theorem demand_demands {spelling : String} {attached : Option String}
    {found : List Demand × Option OptionSpec} (demanded : s.demand spelling attached = .ok found) :
    s.Demands found := by
  unfold demand at demanded
  split at demanded
  next => exact expand_demands demanded
  next =>
    split at demanded
    next o known =>
      obtain rfl := Except.ok.inj demanded
      split
      next => exact ⟨fun _ listed => absurd listed List.not_mem_nil,
        fun _ waits => Option.some.inj waits ▸ mem_all_of_find? known⟩
      next bare => exact .single (fits_bare (mem_all_of_find? known) bare)
    next => cases demanded

theorem gather_ofKind {words : List Word} (ofKind : r.OfKind s)
    (gathered : s.gather words r = .ok r') : r'.OfKind s := by
  fun_induction gather s words r with
  | case1 =>
      obtain rfl := Except.ok.inj gathered
      exact ofKind
  | case2 | case3 | case4 | case5 | case6 | case7 | case8 | case9 =>
      rename_i ih
      exact ih ofKind gathered
  | case10 spelling attached text rest r later again =>
      obtain ⟨⟨demands, waiting⟩, demanded, gathered⟩ := bind_eq_ok gathered
      have demands := demand_demands demanded
      cases waiting with
      | some o =>
          obtain ⟨r'', done, gathered⟩ := bind_eq_ok gathered
          refine later r'' (ofKind.carryOut (fun d listed => ?_) done) gathered
          rcases List.mem_append.mp listed with early | last
          · exact demands.fit d early
          · exact List.mem_singleton.mp last ▸ fits_text (demands.waiting o rfl) text
      | none =>
          obtain ⟨r'', done, gathered⟩ := bind_eq_ok gathered
          exact again r'' (ofKind.carryOut demands.fit done) gathered
  | case11 spelling attached rest r _ later =>
      obtain ⟨⟨demands, waiting⟩, demanded, gathered⟩ := bind_eq_ok gathered
      have demands := demand_demands demanded
      cases waiting with
      | some o => cases gathered
      | none =>
          obtain ⟨r'', done, gathered⟩ := bind_eq_ok gathered
          exact later r'' (ofKind.carryOut demands.fit done) gathered

/-- Whatever the arguments, the options that were read have values of their kinds. -/
theorem read_ofKind {arguments : List String} (read : s.read arguments = .ok r) : r.OfKind s := by
  unfold Signature.read at read
  obtain ⟨words, -, read⟩ := bind_eq_ok read
  obtain ⟨r', gathered, read⟩ := bind_eq_ok read
  split at read
  next => cases read
  next =>
    obtain rfl := Except.ok.inj read
    exact gather_ofKind (fun _ _ listed => absurd listed List.not_mem_nil) gathered

end Signature

namespace Reading

/-- The value of an option was given for it, or is that of an option that was left out. -/
theorem value_cases (r : Reading) (name : String) (fallback : Json) :
    r.value name fallback = fallback ∨ (name, r.value name fallback) ∈ r.given := by
  unfold Reading.value
  cases last : (r.given.filter (·.1 = name)).getLast? with
  | none => exact .inl rfl
  | some entry =>
      obtain ⟨listed, named⟩ := List.mem_filter.mp (List.mem_of_getLast? last)
      exact .inr (of_decide_eq_true named ▸ listed)

/-- An option that takes a value was left out, or a separator stands in place of its value, or the value
is one of its kind. -/
theorem OfKind.value (ofKind : r.OfKind s) {name : String} {kind : OptionKind}
    (single : ∀ o ∈ s.all, o.name = name → o.kind = kind) (takes : kind ≠ .flag) (fallback : Json) :
    r.value name fallback = fallback ∨ r.value name fallback = .arr [] ∨
      ∃ text, kind.value? text = some (r.value name fallback) := by
  rcases r.value_cases name fallback with left | given
  · exact .inl left
  · obtain ⟨o, known, named, gives⟩ := ofKind name _ given
    obtain rfl := single o known named
    generalize r.value name fallback = v at gives
    cases gives with
    | flag bare => simp [OptionSpec.takesValue, takes] at bare
    | separator => exact .inr (.inl rfl)
    | value read => exact .inr (.inr ⟨_, read⟩)

/-- An option for a whole number is read as one, unless a separator stands in its place. -/
theorem OfKind.value_whole (ofKind : r.OfKind s) {name : String}
    (single : ∀ o ∈ s.all, o.name = name → o.kind = .whole) (n : Int)
    (filled : r.value name (.int n) ≠ .arr []) : ∃ m, r.value name (.int n) = .int m := by
  rcases ofKind.value single nofun (.int n) with left | empty | ⟨text, read⟩
  · exact ⟨n, left⟩
  · exact absurd empty filled
  · obtain ⟨m, -, value⟩ := Option.map_eq_some_iff.mp read
    exact ⟨m, value.symm⟩

/-- An option for a real number is read as one, unless a separator stands in its place. -/
theorem OfKind.value_real (ofKind : r.OfKind s) {name : String}
    (single : ∀ o ∈ s.all, o.name = name → o.kind = .real) (x : Float)
    (filled : r.value name (.real x) ≠ .arr []) : ∃ y, r.value name (.real x) = .real y := by
  rcases ofKind.value single nofun (.real x) with left | empty | ⟨text, read⟩
  · exact ⟨x, left⟩
  · exact absurd empty filled
  · obtain ⟨y, -, value⟩ := Option.map_eq_some_iff.mp read
    exact ⟨y, value.symm⟩

end Reading

end PrimeSearch
