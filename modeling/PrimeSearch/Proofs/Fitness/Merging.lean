/-
Module: PrimeSearch.Proofs.Fitness.Merging
Purpose: A configuration holds for every setting the value that was given for it last.
Main exports: Metric.spellings, FitnessConfig.lastGiven, FitnessConfig.Proper,
  MetricSettings.override, FitnessConfig.foldlM_configure, FitnessConfig.ofJson_last_given
-/
import PrimeSearch.Proofs.Fitness.Settings

namespace PrimeSearch

/-!
Entries are applied one after the other, and each replaces some settings of one measure.  Replacing
twice is replacing once, by what the second gives and, where it gives nothing, by what the first does.
So a run over all entries replaces each setting once, by the value given last.
-/

namespace Metric

/-- The names that a measure goes by in a configuration. -/
def spellings (m : Metric) : List String :=
  m.name :: if m = .areaCoverage then ["areaCoverage", "area"] else []

/-- A name stands for the measure that it is a spelling of. -/
theorem ofName?_eq_some_iff {text : String} {m : Metric} :
    ofName? text = some m ↔ text ∈ m.spellings := by
  unfold ofName?
  split
  next other =>
    rw [Option.some.injEq]
    constructor
    · rintro rfl
      rcases other with rfl | rfl <;> decide
    · rcases other with rfl | rfl <;> cases m <;> decide
  next plain =>
    obtain ⟨first, second⟩ := not_or.mp plain
    constructor
    · intro found
      obtain rfl : m.name = text := by simpa using List.find?_some found
      exact List.mem_cons_self
    · intro spelled
      have named : text = m.name := by
        rcases List.mem_cons.mp spelled with named | other
        · exact named
        · split at other <;> simp [first, second] at other
      rw [named]
      cases m <;> decide

end Metric

namespace MetricSettings

/-- The settings with some of them replaced by converted values. -/
def override (s : MetricSettings) (enabled weight threshold : Option Json) : MetricSettings where
  enabled := (enabled.map Json.isTruthy).getD s.enabled
  weight := (weight.bind fun j => j.number.toOption).getD s.weight
  threshold := (threshold.map fun j => j.number.toOption).getD s.threshold

/-- A weight that passes the check. -/
def ProperWeight (j : Json) : Prop := ∃ x, j.number = .ok x ∧ ¬x < 0.0

/-- A threshold that passes the check, or none. -/
def ProperThreshold (j : Json) : Prop := j = .null ∨ ∃ x, j.number = .ok x ∧ 0.0 ≤ x ∧ x ≤ 1.0

section
variable {s : MetricSettings} {overrides : List (String × Json)}

/-- What passes the checks is made as it is. -/
theorem Checked.make_eq (checked : s.Checked) :
    make s.enabled (.real s.weight) (s.threshold.map .real) = .ok s := by
  obtain ⟨weighed, bounded⟩ := checked
  obtain ⟨enabled, weight, threshold⟩ := s
  have notBelow : ¬(Quantity.real weight).isBelow 0 = true :=
    fun below => weighed (of_decide_eq_true below)
  unfold make
  dsimp only
  rw [if_neg notBelow]
  cases threshold with
  | none => rfl
  | some t =>
      obtain ⟨least, greatest⟩ := bounded t rfl
      exact if_pos (Bool.and_eq_true_iff.mpr ⟨decide_eq_true least, decide_eq_true greatest⟩)

/-- What is in range replaces what passes the checks, and the result passes them again. -/
theorem Checked.override {weight threshold : Option Json} (checked : s.Checked)
    (enabled : Option Json) (weighed : ∀ j, weight = some j → ProperWeight j)
    (bounded : ∀ j, threshold = some j → ProperThreshold j) :
    (s.override enabled weight threshold).Checked := by
  constructor
  · cases weight with
    | none => exact checked.weight
    | some j =>
        obtain ⟨x, read, atLeast⟩ := weighed j rfl
        simpa [MetricSettings.override, read, Except.toOption] using atLeast
  · cases threshold with
    | none => exact checked.threshold
    | some j =>
        intro t set
        rcases bounded j rfl with rfl | ⟨x, read, range⟩
        · cases set
        · obtain rfl : x = t := by
            simpa [MetricSettings.override, read, Except.toOption] using set
          exact range

/-- Merging values in range replaces the settings by them. -/
theorem Checked.merged_eq (checked : s.Checked)
    (weighed : ∀ j, Json.lookup "weight" overrides = some j → ProperWeight j)
    (bounded : ∀ j, Json.lookup "threshold" overrides = some j → ProperThreshold j) :
    s.merged overrides = .ok (s.override (Json.lookup "enabled" overrides)
      (Json.lookup "weight" overrides) (Json.lookup "threshold" overrides)) := by
  rw [← (checked.override (Json.lookup "enabled" overrides) weighed bounded).make_eq,
    MetricSettings.merged_eq]
  have weight : s.weightIn overrides = .ok (s.override (Json.lookup "enabled" overrides)
      (Json.lookup "weight" overrides) (Json.lookup "threshold" overrides)).weight := by
    unfold weightIn
    cases given : Json.lookup "weight" overrides with
    | none => rfl
    | some j =>
        obtain ⟨x, read, -⟩ := weighed j given
        have set : (s.override (Json.lookup "enabled" overrides) (some j)
            (Json.lookup "threshold" overrides)).weight = x := by
          simp [MetricSettings.override, read, Except.toOption]
        rw [set]
        dsimp only
        rw [number, read]
        rfl
  have threshold : s.thresholdIn overrides = .ok (s.override (Json.lookup "enabled" overrides)
      (Json.lookup "weight" overrides) (Json.lookup "threshold" overrides)).threshold := by
    unfold thresholdIn
    cases given : Json.lookup "threshold" overrides with
    | none => rfl
    | some j =>
        rcases bounded j given with rfl | ⟨x, read, -⟩
        · rfl
        · have mapped : (some <$> number j : Except ConfigError (Option Float)) = .ok (some x) := by
            rw [number, read]
            rfl
          have converted : ((some j).map fun j => j.number.toOption).getD s.threshold = some x := by
            simp [read, Except.toOption]
          rw [MetricSettings.override, converted, ← mapped]
          cases j with
          | null => cases read
          | bool | int | real | str | arr | obj => rfl
  rw [weight, threshold]
  rfl

/-- Replacing twice is replacing once, by what the second gives where it gives something. -/
theorem override_override {enabled weight threshold enabled' weight' threshold' : Option Json}
    (weighed : ∀ j, weight' = some j → ProperWeight j) :
    (s.override enabled weight threshold).override enabled' weight' threshold' =
      s.override (enabled'.or enabled) (weight'.or weight) (threshold'.or threshold) := by
  have weights : (weight'.bind fun j => j.number.toOption).getD
      ((weight.bind fun j => j.number.toOption).getD s.weight) =
        ((weight'.or weight).bind fun j => j.number.toOption).getD s.weight := by
    cases weight' with
    | none => rfl
    | some j =>
        obtain ⟨x, read, -⟩ := weighed j rfl
        simp [read, Except.toOption]
  simp only [MetricSettings.override, weights, MetricSettings.mk.injEq, true_and]
  constructor
  · cases enabled' <;> rfl
  · cases threshold' <;> rfl

end

end MetricSettings

namespace FitnessConfig

open MetricSettings (ProperWeight ProperThreshold)

/-! ### Entries -/

/-- What an entry gives for a field of a measure, under any spelling of the measure. -/
def given (m : Metric) (field : String) (entry : String × Json) : Option Json :=
  if entry.1 ∈ m.spellings then entry.2.get? field else none

/-- What the last entry that gives anything for a field of a measure gives for it. -/
def lastGiven (m : Metric) (field : String) (entries : List (String × Json)) : Option Json :=
  entries.reverse.findSome? (given m field)

/-- An entry is settings of a measure, under one of its spellings, that convert and are in range. -/
structure Proper (entry : String × Json) : Prop where
  spelled : ∃ m : Metric, entry.1 ∈ m.spellings
  settings : ∃ overrides, entry.2 = .obj overrides
  weight : ∀ j, entry.2.get? "weight" = some j → ProperWeight j
  threshold : ∀ j, entry.2.get? "threshold" = some j → ProperThreshold j

/-- All settings replaced by the values given last. -/
def overridden (c : FitnessConfig) (entries : List (String × Json)) : FitnessConfig where
  settings m := (c.settings m).override (lastGiven m "enabled" entries)
    (lastGiven m "weight" entries) (lastGiven m "threshold" entries)

section
variable {c : FitnessConfig} {entry : String × Json} {entries entries' : List (String × Json)}
  {m : Metric} {field : String}

theorem lastGiven_cons :
    lastGiven m field (entry :: entries) =
      (lastGiven m field entries).or (given m field entry) := by
  unfold lastGiven
  rw [List.reverse_cons, List.findSome?_append, List.findSome?_cons, List.findSome?_nil]
  cases given m field entry <;> rfl

theorem lastGiven_singleton : lastGiven m field [entry] = given m field entry := by
  rw [lastGiven_cons]
  rfl

theorem exists_given (last : lastGiven m field entries = some j) :
    ∃ entry ∈ entries, entry.2.get? field = some j := by
  obtain ⟨entry, member, gives⟩ := List.exists_of_findSome?_eq_some last
  refine ⟨entry, List.mem_reverse.mp member, ?_⟩
  unfold given at gives
  split at gives
  · exact gives
  · cases gives

/-- Only the entries of a measure count for its settings. -/
theorem lastGiven_filter :
    lastGiven m field (entries.filter fun entry => entry.1 ∈ m.spellings) =
      lastGiven m field entries := by
  induction entries with
  | nil => rfl
  | cons entry rest ih =>
      rw [lastGiven_cons, ← ih]
      by_cases spelled : entry.1 ∈ m.spellings
      · rw [List.filter_cons_of_pos (by simpa using spelled), lastGiven_cons]
      · rw [List.filter_cons_of_neg (by simpa using spelled), given, if_neg spelled, Option.or_none]

/-- One entry replaces the settings that it gives, and those of no other measure. -/
theorem configure_eq (checked : ∀ m, (c.settings m).Checked) (proper : Proper entry) :
    c.configure entry = .ok (c.overridden [entry]) := by
  obtain ⟨⟨m, spelled⟩, ⟨overrides, shape⟩, weighed, bounded⟩ := proper
  obtain ⟨key, value⟩ := entry
  obtain rfl : value = .obj overrides := shape
  have named := Metric.ofName?_eq_some_iff.mpr spelled
  have merged := (checked m).merged_eq weighed bounded
  simp only [configure, named, merged]
  refine congrArg Except.ok (congrArg FitnessConfig.mk (funext fun k => ?_))
  simp only [lastGiven_singleton]
  by_cases same : k = m
  · subst same
    simp only [given, if_pos spelled, if_true]
    rfl
  · have other : key ∉ k.spellings := by
      intro spelled'
      rw [Metric.ofName?_eq_some_iff.mpr spelled'] at named
      exact same (Option.some.inj named)
    simp only [given, if_neg other, if_neg same]
    rfl

theorem checked_overridden (checked : ∀ m, (c.settings m).Checked)
    (proper : ∀ entry ∈ entries, Proper entry) (m : Metric) :
    ((c.overridden entries).settings m).Checked := by
  apply (checked m).override
  · intro j last
    obtain ⟨entry, member, gives⟩ := exists_given last
    exact (proper entry member).weight j gives
  · intro j last
    obtain ⟨entry, member, gives⟩ := exists_given last
    exact (proper entry member).threshold j gives

/-- All entries, one after the other, replace the settings by the values given last. -/
theorem foldlM_configure (checked : ∀ m, (c.settings m).Checked)
    (proper : ∀ entry ∈ entries, Proper entry) :
    entries.foldlM configure c = .ok (c.overridden entries) := by
  induction entries generalizing c with
  | nil => rfl
  | cons entry rest ih =>
      obtain ⟨first, others⟩ := List.forall_mem_cons.mp proper
      have single := List.forall_mem_singleton.mpr first
      rw [List.foldlM_cons, configure_eq checked first]
      change rest.foldlM configure (c.overridden [entry]) = _
      rw [ih (checked_overridden checked single) others]
      refine congrArg Except.ok (congrArg FitnessConfig.mk (funext fun m => ?_))
      have weighed (j : Json) (last : lastGiven m "weight" rest = some j) : ProperWeight j := by
        obtain ⟨entry, member, gives⟩ := exists_given last
        exact (others entry member).weight j gives
      simp only [overridden, MetricSettings.override_override weighed, lastGiven_cons]
      rfl

theorem default_checked (m : Metric) : (default.settings m).Checked where
  weight := by cases m <;> decide
  threshold := (default_inRange .null).threshold m

/-- The values given last, in the place of the defaults, are what is read from proper entries. -/
theorem ofJson_eq_overridden (proper : ∀ entry ∈ entries, Proper entry) :
    ofJson (.obj entries) = .ok (default.overridden entries) := by
  rw [ofJson_obj, foldlM_configure default_checked proper]

/-! ### What is saved is read again -/

/-- The entry that is saved for a measure. -/
def entryOf (c : FitnessConfig) (m : Metric) : String × Json := (m.name, (c.settings m).toJson)

theorem proper_entryOf (checked : (c.settings m).Checked) : Proper (c.entryOf m) where
  spelled := ⟨m, List.mem_cons_self⟩
  settings := ⟨_, rfl⟩
  weight j gives := by
    obtain rfl : Json.real (c.settings m).weight = j := Option.some.inj gives
    exact ⟨_, rfl, checked.weight⟩
  threshold j gives := by
    obtain rfl : Json.ofReal? (c.settings m).threshold = j := Option.some.inj gives
    cases set : (c.settings m).threshold with
    | none => exact .inl rfl
    | some t => exact .inr ⟨t, rfl, checked.threshold t set⟩

theorem given_entryOf (k : Metric) :
    given m field (c.entryOf k) = if k = m then (c.settings k).toJson.get? field else none := by
  have spelled : k.name ∈ m.spellings ↔ k = m := by
    rw [← Metric.ofName?_eq_some_iff, Metric.ofName?_eq_some_iff.mpr List.mem_cons_self,
      Option.some.injEq]
  simp only [given, entryOf, spelled]

theorem lastGiven_toJson :
    lastGiven m field (Metric.all.map c.entryOf) = (c.settings m).toJson.get? field := by
  have nothing : lastGiven m field [] = none := rfl
  cases m <;> simp [Metric.all, lastGiven_cons, given_entryOf, nothing]

/-- A configuration that has passed the checks is read from what is saved of it. -/
theorem ofJson_toJson (checked : ∀ m, (c.settings m).Checked) : ofJson c.toJson = .ok c := by
  have proper : ∀ entry ∈ Metric.all.map c.entryOf, Proper entry := by
    intro entry member
    obtain ⟨m, -, rfl⟩ := List.mem_map.mp member
    exact proper_entryOf (checked m)
  refine (ofJson_eq_overridden proper).trans ?_
  refine congrArg Except.ok (congrArg FitnessConfig.mk (funext fun m => ?_))
  simp only [lastGiven_toJson]
  cases settings : c.settings m with
  | mk enabled weight threshold => cases threshold <;> rfl

/-! ### Last given, whatever the order of the measures -/

/-- A configuration holds for every setting the value given last.  It is read from any entries that
are settings of measures, each under one of its spellings, with values that convert and are in range.
Each setting is the value that the last entry with one gives for it, converted, and its default where
no entry gives one; a threshold that is given as null is none.  Only the order of entries of the same
measure counts.  What is saved of the configuration is read as the same configuration again. -/
theorem ofJson_last_given (proper : ∀ entry ∈ entries, Proper entry) :
    ∃ c, ofJson (.obj entries) = .ok c ∧
      (∀ m,
        (c.settings m).enabled =
          ((lastGiven m "enabled" entries).map Json.isTruthy).getD (default.settings m).enabled ∧
        (match lastGiven m "weight" entries with
          | none => (c.settings m).weight = (default.settings m).weight
          | some j => j.number = .ok (c.settings m).weight) ∧
        match lastGiven m "threshold" entries with
          | none => (c.settings m).threshold = (default.settings m).threshold
          | some .null => (c.settings m).threshold = none
          | some j => ∃ x, j.number = .ok x ∧ (c.settings m).threshold = some x) ∧
      (∀ entries', entries'.Perm entries →
        (∀ m : Metric, entries'.filter (fun entry => entry.1 ∈ m.spellings) =
          entries.filter fun entry => entry.1 ∈ m.spellings) →
        ofJson (.obj entries') = .ok c) ∧
      ofJson c.toJson = .ok c := by
  refine ⟨default.overridden entries, ofJson_eq_overridden proper, fun m => ⟨rfl, ?_, ?_⟩, ?_,
    ofJson_toJson (checked_overridden default_checked proper)⟩
  · cases last : lastGiven m "weight" entries with
    | none => simp [overridden, MetricSettings.override, last]
    | some j =>
        obtain ⟨entry, member, gives⟩ := exists_given last
        obtain ⟨x, read, -⟩ := (proper entry member).weight j gives
        simp [overridden, MetricSettings.override, last, read, Except.toOption]
  · cases last : lastGiven m "threshold" entries with
    | none => simp [overridden, MetricSettings.override, last]
    | some j =>
        obtain ⟨entry, member, gives⟩ := exists_given last
        rcases (proper entry member).threshold j gives with rfl | ⟨x, read, -⟩
        · simp [overridden, MetricSettings.override, last]
          rfl
        · have set : ((default.overridden entries).settings m).threshold = some x := by
            simp [overridden, MetricSettings.override, last, read, Except.toOption]
          cases j with
          | null => cases read
          | bool | int | real | str | arr | obj => exact ⟨x, read, set⟩
  · intro entries' reordered same
    rw [ofJson_eq_overridden fun entry member => proper entry (reordered.mem_iff.mp member)]
    refine congrArg Except.ok (congrArg FitnessConfig.mk (funext fun m => ?_))
    have last (field : String) : lastGiven m field entries' = lastGiven m field entries := by
      rw [← lastGiven_filter, same m, lastGiven_filter]
    simp only [last]

end

/-- Coverage is given a weight twice, under two spellings, and `false` counts as zero and is not
missing.  What is said of contrast in between may as well come first. -/
theorem ofJson_last_given_spellings :
    let coverage : String × Json := ("area", .obj [("weight", .int 2), ("threshold", .null)])
    let contrast : String × Json := ("contrast", .obj [("enabled", .int 0)])
    let again : String × Json := ("areaCoverage", .obj [("weight", .bool false)])
    (∀ entry ∈ [coverage, contrast, again], Proper entry) ∧
      ∃ c, ofJson (.obj [coverage, contrast, again]) = .ok c ∧
        (c.settings .areaCoverage).weight = 0.0 ∧
        (c.settings .areaCoverage).threshold = none ∧
        (c.settings .contrast).enabled = false ∧
        (c.settings .contrast).weight = 0.20 ∧
        ofJson (.obj [contrast, coverage, again]) = .ok c ∧
        ofJson c.toJson = .ok c := by
  intro coverage contrast again
  have proper : ∀ entry ∈ [coverage, contrast, again], Proper entry := by
    simp only [List.forall_mem_cons, List.not_mem_nil, false_implies, implies_true, and_true]
    refine ⟨⟨⟨.areaCoverage, by decide⟩, ⟨_, rfl⟩, ?_, ?_⟩, ⟨⟨.contrast, by decide⟩, ⟨_, rfl⟩, ?_, ?_⟩,
      ⟨⟨.areaCoverage, by decide⟩, ⟨_, rfl⟩, ?_, ?_⟩⟩
    · rintro j gives
      obtain rfl : Json.int 2 = j := Option.some.inj gives
      have two : Binary64.ofInt? 2 = some 2.0 := by decide
      exact ⟨2.0, by rw [Json.number, two], by decide⟩
    · rintro j gives
      obtain rfl : Json.null = j := Option.some.inj gives
      exact .inl rfl
    · rintro j ⟨⟩
    · rintro j ⟨⟩
    · rintro j gives
      obtain rfl : Json.bool false = j := Option.some.inj gives
      exact ⟨0.0, rfl, by decide⟩
    · rintro j ⟨⟩
  obtain ⟨c, read, settings, order, saved⟩ := ofJson_last_given proper
  obtain ⟨-, weight, threshold⟩ := settings .areaCoverage
  obtain ⟨enabled, kept, -⟩ := settings .contrast
  refine ⟨proper, c, read, (Except.ok.inj weight).symm, threshold, enabled, kept, ?_, saved⟩
  refine order _ (.swap _ _ _) fun m => ?_
  cases m <;> rfl

end FitnessConfig

end PrimeSearch
