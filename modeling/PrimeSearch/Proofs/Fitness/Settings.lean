/-
Module: PrimeSearch.Proofs.Fitness.Settings
Purpose: What may come of reading a fitness configuration, whatever value it is read from.
Main exports: Json.Unnumbered, MetricSettings.Checked, MetricSettings.Jams, merged_eq_ok,
  merged_unexpected_iff, FitnessConfig.InRange, FitnessConfig.Unforeseen, ofJson_outcomes
-/
import PrimeSearch.Fitness.Config
import PrimeSearch.Proofs.Number.Order

namespace PrimeSearch

-- Powers are the core library's, whatever else is imported.
attribute [local instance (high)] instPowNat NPow.ofPow

/-!
A value is read into settings or refused, and most refusals are about a value: a name that is not
known, settings that are none, a number out of range or a text that is no number.  The others are
not expected by whoever asks: a number of a wrong kind, a whole number beyond the range of doubles,
a configuration without fields.  An order on doubles lets a number pass that is none, so weights are
checked only as far as they are numbers.
-/

/-- A value of a kind that is no number, or a whole number beyond the range of doubles. -/
inductive Json.Unnumbered : Json → Misfit → Prop where
  | null : Unnumbered .null (.notNumeric "NoneType")
  | arr (items : List Json) : Unnumbered (.arr items) (.notNumeric "list")
  | obj (fields : List (String × Json)) : Unnumbered (.obj fields) (.notNumeric "dict")
  | large {n : Int} (beyond : Binary64.ofInt? n = none) : Unnumbered (.int n) .numberTooLarge

/-- A value gives no number if it is a text that does not read as one, or no number at all. -/
theorem Json.number_eq_error_iff {j : Json} {misfit : Misfit} :
    j.number = .error misfit ↔
      (∃ s, j = .str s ∧ Numeral.read? s = none ∧ misfit = .unreadableNumber s) ∨
        j.Unnumbered misfit := by
  constructor
  · intro failed
    cases j with
    | null => exact .inr (Except.error.inj failed ▸ .null)
    | arr items => exact .inr (Except.error.inj failed ▸ .arr items)
    | obj fields => exact .inr (Except.error.inj failed ▸ .obj fields)
    | bool b => cases failed
    | real x => cases failed
    | int n =>
        simp only [Json.number] at failed
        split at failed
        next => cases failed
        next beyond => exact .inr (Except.error.inj failed ▸ .large beyond)
    | str s =>
        simp only [Json.number] at failed
        split at failed
        next => cases failed
        next unread => exact .inl ⟨s, rfl, unread, (Except.error.inj failed).symm⟩
  · rintro (⟨s, rfl, unread, rfl⟩ | unnumbered)
    · rw [Json.number, unread]
    · cases unnumbered with
      | null | arr | obj => rfl
      | large beyond => rw [Json.number, beyond]

/-- What is wrong with a value that is no number is not expected. -/
theorem Json.Unnumbered.not_isExpected {j : Json} {misfit : Misfit}
    (unnumbered : j.Unnumbered misfit) : (ConfigError.misfit misfit).isExpected = false := by
  cases unnumbered with
  | null | arr | obj | large => rfl

/-! ### Settings of one measure -/

namespace MetricSettings

/-- Numbers that have passed the checks: no weight below zero, no threshold outside the unit
interval. -/
structure Checked (s : MetricSettings) : Prop where
  weight : ¬s.weight < 0.0
  threshold : ∀ t, s.threshold = some t → 0.0 ≤ t ∧ t ≤ 1.0

/-- A weight that is a number has been found to be at least zero. -/
theorem Checked.nonnegative {s : MetricSettings} (checked : s.Checked) :
    s.weight.isNaN = true ∨ 0.0 ≤ s.weight := by
  by_cases noNumber : Binary64.decode s.weight = .nan
  · exact .inl ((Binary64.isNaN_iff s.weight).mpr noNumber)
  · exact .inr (Binary64.le_of_not_lt noNumber (by decide) checked.weight)

/-- The check of given numbers lets them pass as they are, or finds fault with a value. -/
theorem make_cases (enabled : Bool) (weight : Float) (threshold : Option Float) :
    (make enabled (.real weight) (threshold.map .real) = .ok ⟨enabled, weight, threshold⟩ ∧
        Checked ⟨enabled, weight, threshold⟩) ∨
      ∃ e, make enabled (.real weight) (threshold.map .real) = .error e ∧ e.isExpected = true := by
  unfold make
  split
  next => exact .inr ⟨_, rfl, rfl⟩
  next notBelow =>
    have weighed : ¬weight < 0.0 := fun below => notBelow (decide_eq_true below)
    cases threshold with
    | none => exact .inl ⟨rfl, weighed, fun t none => by cases none⟩
    | some t =>
        dsimp only [Option.map_some]
        split
        next share =>
          obtain ⟨least, greatest⟩ := Bool.and_eq_true_iff.mp share
          refine .inl ⟨rfl, weighed, fun t' same => ?_⟩
          obtain rfl := Option.some.inj same
          exact ⟨of_decide_eq_true least, of_decide_eq_true greatest⟩
        next => exact .inr ⟨_, rfl, rfl⟩

/-- The weight in settings with some fields replaced. -/
def weightIn (s : MetricSettings) (overrides : List (String × Json)) : Except ConfigError Float :=
  match Json.lookup "weight" overrides with
  | none => .ok s.weight
  | some j => number j

/-- The threshold in settings with some fields replaced. -/
def thresholdIn (s : MetricSettings) (overrides : List (String × Json)) :
    Except ConfigError (Option Float) :=
  match Json.lookup "threshold" overrides with
  | none => .ok s.threshold
  | some .null => .ok none
  | some j => some <$> number j

/-- Settings are merged number by number, and then checked. -/
theorem merged_eq (s : MetricSettings) (overrides : List (String × Json)) :
    s.merged overrides = (s.weightIn overrides).bind fun weight =>
      (s.thresholdIn overrides).bind fun threshold =>
        make (((Json.lookup "enabled" overrides).map Json.isTruthy).getD s.enabled)
          (.real weight) (threshold.map .real) := by
  unfold merged weightIn thresholdIn
  cases Json.lookup "weight" overrides with
  | none =>
      cases Json.lookup "threshold" overrides with
      | none => rfl
      | some t => cases t with | null | bool | int | real | str | arr | obj => rfl
  | some w =>
      cases Json.lookup "threshold" overrides with
      | none => rfl
      | some t => cases t with | null | bool | int | real | str | arr | obj => rfl

/-- A number that is not given is unexpected where the value is no number at all. -/
theorem number_unexpected_iff {j : Json} {e : ConfigError} :
    (number j = .error e ∧ e.isExpected = false) ↔
      ∃ misfit, e = .misfit misfit ∧ j.Unnumbered misfit := by
  constructor
  · rintro ⟨failed, unexpected⟩
    cases read : j.number with
    | ok x => rw [number, read] at failed; cases failed
    | error misfit =>
        rw [number, read] at failed
        obtain rfl := Except.error.inj failed
        rcases Json.number_eq_error_iff.mp read with ⟨s, -, -, rfl⟩ | unnumbered
        next => cases unexpected
        next => exact ⟨misfit, rfl, unnumbered⟩
  · rintro ⟨misfit, rfl, unnumbered⟩
    refine ⟨?_, unnumbered.not_isExpected⟩
    rw [number, Json.number_eq_error_iff.mpr (.inr unnumbered)]
    rfl

/-- A number that is given is the one that the value reads as. -/
theorem number_eq_ok {j : Json} {x : Float} (read : number j = .ok x) : j.number = .ok x := by
  cases given : j.number with
  | ok y => rw [number, given] at read; cases read; rfl
  | error misfit => rw [number, given] at read; cases read

/-- The weight that is replaced is the old one or the number that is given for it. -/
theorem weightIn_eq_ok {s : MetricSettings} {overrides : List (String × Json)} {weight : Float}
    (read : s.weightIn overrides = .ok weight) :
    weight = s.weight ∨ ∃ j, Json.lookup "weight" overrides = some j ∧ j.number = .ok weight := by
  cases given : Json.lookup "weight" overrides with
  | none => rw [weightIn, given] at read; exact .inl (Except.ok.inj read).symm
  | some j => rw [weightIn, given] at read; exact .inr ⟨j, rfl, number_eq_ok read⟩

/-- Merged settings have passed the checks, and their weight is the old one or the one that is
given. -/
theorem merged_eq_ok {s s' : MetricSettings} {overrides : List (String × Json)}
    (merged : s.merged overrides = .ok s') :
    s'.Checked ∧ (s'.weight = s.weight ∨
      ∃ j, Json.lookup "weight" overrides = some j ∧ j.number = .ok s'.weight) := by
  rw [merged_eq] at merged
  cases weighed : s.weightIn overrides with
  | error e => rw [weighed] at merged; cases merged
  | ok weight =>
  cases bounded : s.thresholdIn overrides with
  | error e => rw [weighed, bounded] at merged; cases merged
  | ok threshold =>
  rw [weighed, bounded] at merged
  rcases make_cases (((Json.lookup "enabled" overrides).map Json.isTruthy).getD s.enabled) weight
    threshold with ⟨made, checked⟩ | ⟨e, failed, -⟩
  next =>
    obtain rfl := Except.ok.inj (made.symm.trans merged)
    exact ⟨checked, weightIn_eq_ok weighed⟩
  next => cases failed.symm.trans merged

/-- Values given for some settings that end the reading in a way that is not expected: a weight
that is no number, or a threshold that is neither a number nor null after a weight that is one. -/
inductive Jams (overrides : List (String × Json)) (misfit : Misfit) : Prop where
  | weight {j : Json} (given : Json.lookup "weight" overrides = some j)
      (unnumbered : j.Unnumbered misfit)
  | threshold {j : Json}
      (weighed : ∀ w, Json.lookup "weight" overrides = some w → ∃ x, w.number = .ok x)
      (given : Json.lookup "threshold" overrides = some j) (nonnull : j ≠ .null)
      (unnumbered : j.Unnumbered misfit)

/-- The weight is missing in a way that is not expected if the value given for it is no number. -/
theorem weightIn_unexpected_iff {s : MetricSettings} {overrides : List (String × Json)}
    {e : ConfigError} :
    (s.weightIn overrides = .error e ∧ e.isExpected = false) ↔
      ∃ misfit, e = .misfit misfit ∧
        ∃ j, Json.lookup "weight" overrides = some j ∧ j.Unnumbered misfit := by
  unfold weightIn
  cases Json.lookup "weight" overrides with
  | none =>
      constructor
      · rintro ⟨failed, -⟩
        cases failed
      · rintro ⟨misfit, -, j, given, -⟩
        cases given
  | some j =>
      dsimp only
      rw [number_unexpected_iff]
      constructor
      · rintro ⟨misfit, rfl, unnumbered⟩
        exact ⟨misfit, rfl, j, rfl, unnumbered⟩
      · rintro ⟨misfit, rfl, _, given, unnumbered⟩
        exact ⟨misfit, rfl, Option.some.inj given ▸ unnumbered⟩

/-- The threshold is missing in a way that is not expected if the value given for it is neither a
number nor null. -/
theorem thresholdIn_unexpected_iff {s : MetricSettings} {overrides : List (String × Json)}
    {e : ConfigError} :
    (s.thresholdIn overrides = .error e ∧ e.isExpected = false) ↔
      ∃ misfit, e = .misfit misfit ∧
        ∃ j, Json.lookup "threshold" overrides = some j ∧ j ≠ .null ∧ j.Unnumbered misfit := by
  unfold thresholdIn
  split
  next missing =>
    constructor
    · rintro ⟨failed, -⟩
      cases failed
    · rintro ⟨misfit, -, j, given, -⟩
      cases missing.symm.trans given
  next absent =>
    constructor
    · rintro ⟨failed, -⟩
      cases failed
    · rintro ⟨misfit, -, j, given, nonnull, -⟩
      exact absurd (Option.some.inj (absent.symm.trans given)).symm nonnull
  next j nonnull given =>
    have mapped : (some <$> number j = .error e) ↔ number j = .error e := by
      cases number j with
      | ok x => exact ⟨nofun, nofun⟩
      | error e' =>
          exact ⟨fun h => congrArg _ (Except.error.inj h), fun h => congrArg _ (Except.error.inj h)⟩
    rw [mapped, number_unexpected_iff]
    constructor
    · rintro ⟨misfit, rfl, unnumbered⟩
      exact ⟨misfit, rfl, j, given, nonnull, unnumbered⟩
    · rintro ⟨misfit, rfl, j', given', -, unnumbered⟩
      exact ⟨misfit, rfl, Option.some.inj (given'.symm.trans given) ▸ unnumbered⟩

/-- A weight is found in settings if none is given or the one given is a number. -/
theorem weightIn_ok_iff {s : MetricSettings} {overrides : List (String × Json)} :
    (∃ weight, s.weightIn overrides = .ok weight) ↔
      ∀ w, Json.lookup "weight" overrides = some w → ∃ x, w.number = .ok x := by
  unfold weightIn
  cases Json.lookup "weight" overrides with
  | none => exact ⟨fun _ => nofun, fun _ => ⟨s.weight, rfl⟩⟩
  | some j =>
      constructor
      · rintro ⟨x, read⟩ w given
        exact ⟨x, Option.some.inj given ▸ number_eq_ok read⟩
      · intro all
        obtain ⟨x, read⟩ := all j rfl
        exact ⟨x, by dsimp only; rw [number, read]; rfl⟩

/-- Merging settings ends in a way that is not expected just where the values given jam it. -/
theorem merged_unexpected_iff {s : MetricSettings} {overrides : List (String × Json)}
    {e : ConfigError} :
    (s.merged overrides = .error e ∧ e.isExpected = false) ↔
      ∃ misfit, e = .misfit misfit ∧ Jams overrides misfit := by
  rw [merged_eq]
  constructor
  · rintro ⟨failed, unexpected⟩
    cases weighed : s.weightIn overrides with
    | error e' =>
        rw [weighed] at failed
        obtain rfl := Except.error.inj failed
        obtain ⟨misfit, same, j, given, unnumbered⟩ :=
          weightIn_unexpected_iff.mp ⟨weighed, unexpected⟩
        exact ⟨misfit, same, .weight given unnumbered⟩
    | ok weight =>
    cases bounded : s.thresholdIn overrides with
    | error e' =>
        rw [weighed, bounded] at failed
        obtain rfl := Except.error.inj failed
        obtain ⟨misfit, same, j, given, nonnull, unnumbered⟩ :=
          thresholdIn_unexpected_iff.mp ⟨bounded, unexpected⟩
        exact ⟨misfit, same, .threshold (weightIn_ok_iff.mp ⟨weight, weighed⟩) given nonnull
          unnumbered⟩
    | ok threshold =>
        -- Both numbers are there, so only the checks are left, and they find fault with values.
        rw [weighed, bounded] at failed
        rcases make_cases (((Json.lookup "enabled" overrides).map Json.isTruthy).getD s.enabled)
          weight threshold with ⟨made, -⟩ | ⟨e', refused, expected⟩
        next => cases made.symm.trans failed
        next =>
          obtain rfl := Except.error.inj (refused.symm.trans failed)
          cases expected.symm.trans unexpected
  · rintro ⟨misfit, rfl, ⟨given, unnumbered⟩ | ⟨weighed, given, nonnull, unnumbered⟩⟩
    next =>
      obtain ⟨failed, unexpected⟩ :=
        weightIn_unexpected_iff (s := s).mpr ⟨misfit, rfl, _, given, unnumbered⟩
      exact ⟨by rw [failed]; rfl, unexpected⟩
    next =>
      obtain ⟨weight, found⟩ := weightIn_ok_iff (s := s).mpr weighed
      obtain ⟨failed, unexpected⟩ :=
        thresholdIn_unexpected_iff (s := s).mpr ⟨misfit, rfl, _, given, nonnull, unnumbered⟩
      exact ⟨by rw [found, failed]; rfl, unexpected⟩

end MetricSettings

/-! ### A configuration -/

namespace FitnessConfig

/-- What a configuration is read from has settings of a measure in which its weight is given as a
certain number. -/
def GivesWeight (j : Json) (m : Metric) (weight : Float) : Prop :=
  ∃ fields name overrides given, j = .obj fields ∧ (name, .obj overrides) ∈ fields ∧
    Metric.ofName? name = some m ∧ Json.lookup "weight" overrides = some given ∧
    given.number = .ok weight

/-- A field that is applied names a measure and replaces its settings by merged ones. -/
theorem configure_eq_ok {c c' : FitnessConfig} {field : String × Json}
    (applied : c.configure field = .ok c') :
    ∃ m overrides s, Metric.ofName? field.1 = some m ∧ field.2 = .obj overrides ∧
      (c.settings m).merged overrides = .ok s ∧ c' = c.set m s := by
  obtain ⟨name, j⟩ := field
  cases named : Metric.ofName? name with
  | none => simp only [configure, named] at applied; cases applied
  | some m =>
  cases j with
  | null | bool | int | real | str | arr => simp only [configure, named] at applied; cases applied
  | obj overrides =>
  cases merged : (c.settings m).merged overrides with
  | error e => simp only [configure, named, merged] at applied; cases applied
  | ok s =>
      simp only [configure, named, merged] at applied
      cases applied
      exact ⟨m, overrides, s, rfl, rfl, merged, rfl⟩

/-- A field fails unexpectedly just where the values given for a measure jam the reading. -/
theorem configure_unexpected_iff {c : FitnessConfig} {name : String} {j : Json}
    {e : ConfigError} :
    (c.configure (name, j) = .error e ∧ e.isExpected = false) ↔
      ∃ misfit m overrides, e = .misfit misfit ∧ Metric.ofName? name = some m ∧
        j = .obj overrides ∧ MetricSettings.Jams overrides misfit := by
  cases named : Metric.ofName? name with
  | none =>
      simp only [configure, named]
      constructor
      · rintro ⟨failed, unexpected⟩
        obtain rfl := Except.error.inj failed
        cases unexpected
      · rintro ⟨_, _, _, _, known, -⟩
        cases known
  | some m =>
  cases j with
  | null | bool | int | real | str | arr =>
      simp only [configure, named]
      constructor
      · rintro ⟨failed, unexpected⟩
        obtain rfl := Except.error.inj failed
        cases unexpected
      · rintro ⟨_, _, _, _, -, shape, -⟩
        cases shape
  | obj overrides =>
      have merged : c.configure (name, .obj overrides) = .error e ↔
          (c.settings m).merged overrides = .error e := by
        simp only [configure, named]
        cases (c.settings m).merged overrides with
        | ok s => exact ⟨nofun, nofun⟩
        | error e' =>
            exact ⟨fun h => congrArg _ (Except.error.inj h),
              fun h => congrArg _ (Except.error.inj h)⟩
      rw [merged, MetricSettings.merged_unexpected_iff]
      constructor
      · rintro ⟨misfit, rfl, jams⟩
        exact ⟨misfit, m, overrides, rfl, rfl, rfl, jams⟩
      · rintro ⟨misfit, _, _, rfl, -, shape, jams⟩
        exact ⟨misfit, rfl, Json.obj.inj shape ▸ jams⟩

/-- Every weight is at least zero unless it is given as no number, and every threshold lies in the
unit interval. -/
structure InRange (j : Json) (c : FitnessConfig) : Prop where
  weight : ∀ m, 0.0 ≤ (c.settings m).weight ∨
    ((c.settings m).weight.isNaN = true ∧ GivesWeight j m (c.settings m).weight)
  threshold : ∀ m t, (c.settings m).threshold = some t → 0.0 ≤ t ∧ t ≤ 1.0

/-- The defaults are in range. -/
theorem default_inRange (j : Json) : InRange j default where
  weight m := .inl (by cases m <;> decide)
  threshold m t set := by
    cases m with
    | areaCoverage =>
        obtain rfl : defaultAreaThreshold = t := Option.some.inj set
        decide
    | separation | contrast | significance | specificity => cases set

/-- Applying a field keeps a configuration in range. -/
theorem InRange.configure {fields : List (String × Json)} {c c' : FitnessConfig}
    {field : String × Json} (inRange : InRange (.obj fields) c) (member : field ∈ fields)
    (applied : c.configure field = .ok c') : InRange (.obj fields) c' := by
  obtain ⟨m, overrides, s, named, shape, merged, rfl⟩ := configure_eq_ok applied
  obtain ⟨checked, origin⟩ := MetricSettings.merged_eq_ok merged
  constructor
  · intro k
    by_cases same : k = m
    · subst same
      simp only [set, if_true]
      rcases origin with kept | ⟨j, given, read⟩
      next => rw [kept]; exact inRange.weight k
      next =>
        refine checked.nonnegative.symm.imp_right fun noNumber => ⟨noNumber, ?_⟩
        exact ⟨fields, field.1, overrides, j, rfl, shape ▸ member, named, given, read⟩
    · simpa only [set, same, if_false] using inRange.weight k
  · intro k t
    by_cases same : k = m
    · simpa only [set, same, if_true] using checked.threshold t
    · simpa only [set, same, if_false] using inRange.threshold k t

/-- A configuration read field by field is in range. -/
theorem InRange.foldlM {all : List (String × Json)} :
    ∀ {fields : List (String × Json)} {c c' : FitnessConfig}, InRange (.obj all) c →
      fields ⊆ all → fields.foldlM FitnessConfig.configure c = .ok c' → InRange (.obj all) c'
  | [], _, _, inRange, _, read => Except.ok.inj read ▸ inRange
  | field :: fields, c, c', inRange, within, read => by
      obtain ⟨member, rest⟩ := List.cons_subset.mp within
      cases applied : c.configure field with
      | error e => rw [List.foldlM_cons, applied] at read; cases read
      | ok next =>
          rw [List.foldlM_cons, applied] at read
          exact (inRange.configure member applied).foldlM rest read

/-- Values that no configuration is read from, and whose refusal is not expected: one that is
neither empty nor has fields, and one with settings that jam the reading where they come up. -/
inductive Unforeseen : Json → ConfigError → Prop where
  | shapeless {j : Json} (something : j.isTruthy = true) (shape : ∀ fields, j ≠ .obj fields) :
      Unforeseen j (.misfit (.noMember j.typeName "items"))
  | setting {before after overrides : List (String × Json)} {name : String} {m : Metric}
      {misfit : Misfit} {c : FitnessConfig} (read : before.foldlM configure default = .ok c)
      (known : Metric.ofName? name = some m) (jams : MetricSettings.Jams overrides misfit) :
      Unforeseen (.obj (before ++ (name, .obj overrides) :: after)) (.misfit misfit)

/-- Reading fields ends unexpectedly just where the first of them that is not applied does. -/
theorem foldlM_unexpected_iff {e : ConfigError} :
    ∀ {fields : List (String × Json)} {c : FitnessConfig},
      (fields.foldlM configure c = .error e ∧ e.isExpected = false) ↔
        ∃ before field after c', fields = before ++ field :: after ∧
          before.foldlM configure c = .ok c' ∧ c'.configure field = .error e ∧
          e.isExpected = false
  | [], c => by
      constructor
      · rintro ⟨failed, -⟩
        cases failed
      · rintro ⟨before, field, after, _, shape, -⟩
        cases before with | nil | cons => cases shape
  | first :: rest, c => by
      constructor
      · rintro ⟨failed, unexpected⟩
        cases applied : c.configure first with
        | error e' =>
            rw [List.foldlM_cons, applied] at failed
            obtain rfl := Except.error.inj failed
            exact ⟨[], first, rest, c, rfl, rfl, applied, unexpected⟩
        | ok next =>
            rw [List.foldlM_cons, applied] at failed
            obtain ⟨before, field, after, c', rfl, read, ended⟩ :=
              foldlM_unexpected_iff.mp ⟨failed, unexpected⟩
            refine ⟨first :: before, field, after, c', rfl, ?_, ended⟩
            rw [List.foldlM_cons, applied]
            exact read
      · rintro ⟨before, field, after, c', shape, read, failed, unexpected⟩
        refine ⟨?_, unexpected⟩
        rw [shape, List.foldlM_append, read]
        show (field :: after).foldlM configure c' = _
        rw [List.foldlM_cons, failed]
        rfl

/-- An object is read field by field. -/
theorem ofJson_obj (fields : List (String × Json)) :
    ofJson (.obj fields) = fields.foldlM configure default := by
  cases fields with | nil | cons => rfl

/-- What has no fields is refused unless it is nothing. -/
theorem ofJson_shapeless {j : Json} (shapeless : ∀ fields, j ≠ .obj fields) :
    ofJson j =
      if j.isTruthy then .error (.misfit (.noMember j.typeName "items")) else .ok default := by
  cases j with
  | obj fields => exact absurd rfl (shapeless fields)
  | null | bool | int | real | str | arr => rfl

/-- Whatever a configuration is read from, it is in range. -/
theorem ofJson_inRange {j : Json} {c : FitnessConfig} (read : ofJson j = .ok c) :
    InRange j c := by
  by_cases shape : ∃ fields, j = .obj fields
  · obtain ⟨fields, rfl⟩ := shape
    rw [ofJson_obj] at read
    exact (default_inRange _).foldlM (List.Subset.refl _) read
  · rw [ofJson_shapeless fun fields same => shape ⟨fields, same⟩] at read
    split at read
    next => cases read
    next => exact Except.ok.inj read ▸ default_inRange j

/-- The values that end the reading in a way that is not expected are the unforeseen ones. -/
theorem ofJson_unexpected_iff {j : Json} {e : ConfigError} :
    (ofJson j = .error e ∧ e.isExpected = false) ↔ Unforeseen j e := by
  constructor
  · rintro ⟨failed, unexpected⟩
    by_cases shape : ∃ fields, j = .obj fields
    · obtain ⟨fields, rfl⟩ := shape
      rw [ofJson_obj] at failed
      obtain ⟨before, ⟨name, given⟩, after, c, rfl, read, stopped⟩ :=
        foldlM_unexpected_iff.mp ⟨failed, unexpected⟩
      obtain ⟨misfit, m, overrides, rfl, known, rfl, jams⟩ := configure_unexpected_iff.mp stopped
      exact .setting read known jams
    · have shapeless : ∀ fields, j ≠ .obj fields := fun fields same => shape ⟨fields, same⟩
      rw [ofJson_shapeless shapeless] at failed
      split at failed
      next something => exact Except.error.inj failed ▸ .shapeless something shapeless
      next => cases failed
  · rintro (⟨something, shapeless⟩ | ⟨read, known, jams⟩)
    next => exact ⟨by rw [ofJson_shapeless shapeless, if_pos something], rfl⟩
    next =>
      rw [ofJson_obj]
      refine foldlM_unexpected_iff.mpr ⟨_, _, _, _, rfl, read, ?_⟩
      exact configure_unexpected_iff.mpr ⟨_, _, _, rfl, known, rfl, jams⟩

/-- A configuration is read only with thresholds in the unit interval and weights that are at least
zero or given as no number, and the values that end the reading in a way that is not expected are
the unforeseen ones. -/
theorem ofJson_outcomes (j : Json) :
    (∀ c, ofJson j = .ok c → ∀ m,
      (0.0 ≤ (c.settings m).weight ∨
        ((c.settings m).weight.isNaN = true ∧ GivesWeight j m (c.settings m).weight)) ∧
      ∀ t, (c.settings m).threshold = some t → 0.0 ≤ t ∧ t ≤ 1.0) ∧
    ∀ e, (ofJson j = .error e ∧ e.isExpected = false) ↔ Unforeseen j e := by
  refine ⟨fun c read m => ?_, fun e => ofJson_unexpected_iff⟩
  have inRange := ofJson_inRange read
  exact ⟨inRange.weight m, inRange.threshold m⟩

/-- A weight of two passes the checks, and a missing weight behind it does not come to them. -/
theorem ofJson_outcomes_two_measures :
    (∃ c, ofJson (.obj [("area", .obj [("weight", .int 2), ("threshold", .null)])]) = .ok c ∧
      (0.0 ≤ (c.settings .areaCoverage).weight ∨ (c.settings .areaCoverage).weight.isNaN = true)) ∧
    ∃ e, ofJson (.obj [("area", .obj [("weight", .int 2)]),
      ("contrast", .obj [("weight", .null)])]) = .error e ∧ e.isExpected = false := by
  constructor
  · refine ⟨_, rfl, ?_⟩
    exact (((ofJson_outcomes (.obj [("area", .obj [("weight", .int 2), ("threshold", .null)])])).1
      _ rfl .areaCoverage).1).imp_right And.left
  · refine ⟨_, ((ofJson_outcomes _).2 (.misfit (.notNumeric "NoneType"))).mpr ?_⟩
    show Unforeseen (.obj ([("area", .obj [("weight", .int 2)])] ++
      ("contrast", .obj [("weight", .null)]) :: [])) _
    exact .setting (m := .contrast) rfl (by decide) (.weight rfl .null)

/-- A weight that is no number passes the checks, and a configuration without fields, a missing
weight and one beyond the range of doubles are refused as nobody expects. -/
theorem ofJson_unsound :
    (∃ c, ofJson (.obj [("separation", .obj [("weight", .real (0.0 / 0.0))])]) = .ok c ∧
      ¬0.0 ≤ (c.settings .separation).weight) ∧
    ∀ j ∈ [.arr [.int 1], .obj [("separation", .obj [("weight", .null)])],
      .obj [("separation", .obj [("weight", .int (2 ^ 1024))])]],
      ∃ e, ofJson j = .error e ∧ e.isExpected = false := by
  have beyond : Binary64.ofInt? (2 ^ 1024) = none := by decide +kernel
  refine ⟨⟨_, rfl, by decide +kernel⟩, fun j member => ?_⟩
  simp only [List.mem_cons, List.not_mem_nil, or_false] at member
  rcases member with rfl | rfl | rfl
  next => exact ⟨_, rfl, rfl⟩
  next => exact ⟨_, rfl, rfl⟩
  next =>
    have large : MetricSettings.Jams [("weight", .int (2 ^ 1024))] .numberTooLarge :=
      .weight rfl (.large beyond)
    have failed := configure_unexpected_iff (c := default).mpr
      ⟨_, .separation, _, rfl, Eq.refl (Metric.ofName? "separation"), rfl, large⟩
    exact ⟨_, foldlM_unexpected_iff.mpr ⟨[], _, [], default, rfl, rfl, failed⟩⟩

end FitnessConfig

end PrimeSearch
