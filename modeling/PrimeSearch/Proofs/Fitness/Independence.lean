/-
Module: PrimeSearch.Proofs.Fitness.Independence
Purpose: What a measure of a fold comes to does not depend on which other measures count.
Main exports: Score.component, FitnessConfig.Alike, FoldTest.HasPoints, FoldTest.Passes,
  FoldTest.Fails, FoldTest.worth, FoldTest.run_score_measured, FoldTest.score_independent
-/
import PrimeSearch.Fitness.Fold
import PrimeSearch.Proofs.Random.Stream

namespace PrimeSearch

/-!
The clouds of a fold are the images of its samples, and the random cloud that two of the measures are
taken against is the image of integers that are drawn once for both.  So there is one number, the
worth of a measure, that depends on the functions, the samples and the source alone, and a
configuration only decides which of these numbers are worked out.  Integers are drawn after the
coverage is known and for nothing else, so either all of them are drawn or none.
-/

/-- What is drawn for some integers is one number for each. -/
theorem run_integersUpTo {bound : Nat} (positive : 0 < bound) (count : Nat) (source : Source) :
    ((integersUpTo bound positive count).run source).2 = Source.advance^[count] source := by
  induction count generalizing source with
  | zero => rfl
  | succ count ih => exact ih source.advance

/-- The part of a score that a measure is responsible for. -/
def Score.component (s : Score) (m : Metric) : Option Float := s.components.lookup m.name

theorem Score.component_zero (m : Metric) : (Score.zero Metric.names).component m = some 0.0 := by
  cases m <;> rfl

namespace FitnessConfig

/-- The same measures count, with the same settings; nothing is said about the settings of the
others. -/
structure Alike (c c' : FitnessConfig) : Prop where
  enabled : ∀ m, (c.settings m).enabled = (c'.settings m).enabled
  settings : ∀ m, (c.settings m).enabled = true → c.settings m = c'.settings m

namespace Alike

variable {c c' : FitnessConfig}

/-- Changing the settings of a measure that does not count changes nothing of the others. -/
theorem set {m : Metric} {s : MetricSettings} (disabled : (c.settings m).enabled = false)
    (disabled' : s.enabled = false) : c.Alike (c.set m s) := by
  constructor
  · intro k
    rw [FitnessConfig.set]
    dsimp only
    split
    next same => rw [same, disabled, disabled']
    next => rfl
  · intro k enabled
    rw [FitnessConfig.set]
    dsimp only
    split
    next same =>
      rw [same, disabled] at enabled
      cases enabled
    next => rfl

theorem enabledMetrics_eq (alike : c.Alike c') : c.enabledMetrics = c'.enabledMetrics := by
  unfold enabledMetrics
  simp only [alike.enabled]

end Alike

end FitnessConfig

namespace FoldTest

/-! ### What a configuration decides -/

section
variable {c c' : FitnessConfig}

theorem weightedTotal_alike (alike : c.Alike c') (v : Measures) :
    weightedTotal c v = weightedTotal c' v := by
  unfold weightedTotal
  rw [← alike.enabledMetrics_eq]
  congr 2
  refine List.map_congr_left fun m member => ?_
  rw [alike.settings m (List.mem_filter.mp member).2]

theorem gate_alike (alike : c.Alike c') (m : Metric) (value : Float) :
    gate c m value = gate c' m value := by
  rw [gate, gate, alike.enabled]

theorem scoreMeasured_alike (alike : c.Alike c') (coverage : Float)
    (primes composites baseline : Cloud) :
    scoreMeasured c coverage primes composites baseline =
      scoreMeasured c' coverage primes composites baseline := by
  unfold scoreMeasured measure
  simp only [gate_alike alike, weightedTotal_alike alike]

/-- Nothing is read of the settings of a measure that does not count. -/
theorem score_alike (alike : c.Alike c') (primes composites : List Int) (f g : Expr) :
    (FoldTest.mk primes composites c).score f g = (FoldTest.mk primes composites c').score f g := by
  have threshold (coverage : Float) :
      ((c.settings .areaCoverage).enabled && coverage < c.areaThreshold) =
        ((c'.settings .areaCoverage).enabled && coverage < c'.areaThreshold) := by
    rw [← alike.enabled]
    cases enabled : (c.settings .areaCoverage).enabled with
    | false => rfl
    | true =>
        unfold FitnessConfig.areaThreshold
        rw [alike.settings _ enabled]
  have baseline : needsBaseline c = needsBaseline c' := by
    rw [needsBaseline, needsBaseline, alike.enabled, alike.enabled]
  unfold score scoreClouds
  simp only [gate_alike alike, threshold, baseline, scoreMeasured_alike alike]

/-- Without a measure that needs it, the random cloud does not count. -/
theorem scoreMeasured_of_needless (needless : needsBaseline c = false) (coverage : Float)
    (primes composites baseline baseline' : Cloud) :
    scoreMeasured c coverage primes composites baseline =
      scoreMeasured c coverage primes composites baseline' := by
  obtain ⟨significance, specificity⟩ := Bool.or_eq_false_iff.mp needless
  unfold scoreMeasured measure gate
  simp only [significance, specificity, Bool.false_eq_true, if_false]

end

theorem component_score (v : Measures) (total : Float) (m : Metric) :
    (v.score total).component m = some (v.get m) := by
  cases m <;> rfl

/-! ### The worth of a measure -/

section
variable (primes composites : List Int) (f g : Expr)

/-- The images of the samples, scaled to the square. -/
def clouds : Cloud × Cloud := normalize (image f g primes) (image f g composites)

/-- What the primes cover of the square. -/
def coverage : Float := areaCoverage (image f g primes) (clouds primes composites f g).1

/-- The image of as many random integers as there are primes. -/
def backdrop (source : Source) : Cloud :=
  match randomIntegers (maximum primes) primes.length with
  | .error _ => []
  | .ok integers => (normalize (image f g (integers.run source).1) (image f g primes)).1

/-- What a measure comes to if it is worked out. -/
def worth (source : Source) : Metric → Float :=
  let (own, reference) := clouds primes composites f g
  let random := backdrop primes f g source
  fun
  | .areaCoverage => coverage primes composites f g
  | .separation => separation own reference
  | .contrast => structuralContrast own reference
  | .significance => significance own reference random
  | .specificity => specificity own reference random

/-- Both images have as many points as it takes for a score. -/
def HasPoints : Prop :=
  minPoints ≤ (image f g primes).length ∧ minPoints ≤ (image f g composites).length

instance : Decidable (HasPoints primes composites f g) :=
  inferInstanceAs (Decidable (_ ∧ _))

variable (c : FitnessConfig)

/-- Coverage does not count, or it is not below its threshold. -/
def Passes : Prop :=
  (c.settings .areaCoverage).enabled = true → ¬ coverage primes composites f g < c.areaThreshold

instance : Decidable (Passes primes composites f g c) :=
  inferInstanceAs (Decidable (_ → _))

/-- Random integers are called for, but there are none up to the greatest prime. -/
def Fails : Prop :=
  HasPoints primes composites f g ∧ Passes primes composites f g c ∧ needsBaseline c = true ∧
    maximum primes ≤ 0

instance : Decidable (Fails primes composites f g c) :=
  inferInstanceAs (Decidable (_ ∧ _))

/-- The score of the clouds against a random one. -/
def scoreAgainst (random : Cloud) : Score :=
  scoreMeasured c (gate c .areaCoverage (coverage primes composites f g))
    (clouds primes composites f g).1 (clouds primes composites f g).2 random

end

/-! ### The four ways a score is reached -/

section
variable {primes composites : List Int} {f g : Expr} {c : FitnessConfig}

theorem score_few (few : ¬ HasPoints primes composites f g) :
    (FoldTest.mk primes composites c).score f g = return Score.zero Metric.names := by
  have short : ((image f g primes).length < minPoints || (image f g composites).length < minPoints) =
      true := by
    rw [HasPoints, Classical.not_and_iff_not_or_not, not_le, not_le] at few
    simpa using few
  unfold score
  simp only [short, if_true]

theorem score_eq_scoreClouds (points : HasPoints primes composites f g) :
    (FoldTest.mk primes composites c).score f g =
      (FoldTest.mk primes composites c).scoreClouds f g (image f g primes)
        (clouds primes composites f g).1 (clouds primes composites f g).2 := by
  have enough : ((image f g primes).length < minPoints ||
      (image f g composites).length < minPoints) = false := by
    simpa [HasPoints] using points
  unfold score
  simp only [enough, Bool.false_eq_true, if_false]
  rfl

/-- Too little coverage is all that is scored. -/
theorem score_gated (points : HasPoints primes composites f g)
    (blocked : ¬ Passes primes composites f g c) :
    (FoldTest.mk primes composites c).score f g =
      return (Measures.coverageOnly (coverage primes composites f g)).score
        (coverage primes composites f g * gatedScale) := by
  obtain ⟨enabled, below⟩ := Classical.not_imp.mp blocked
  have below : decide (coverage primes composites f g < c.areaThreshold) = true :=
    decide_eq_true (not_not.mp below)
  rw [score_eq_scoreClouds points]
  unfold scoreClouds
  dsimp only
  rw [gate, if_pos enabled]
  change (if (_ && decide (coverage primes composites f g < _)) = true then _ else _) = _
  rw [enabled, below]
  rfl

/-- Past the coverage the rest is the score of the clouds, unless there are no integers to draw. -/
theorem score_passed (points : HasPoints primes composites f g)
    (passes : Passes primes composites f g c) :
    (FoldTest.mk primes composites c).score f g =
      if needsBaseline c then
        match randomIntegers (maximum primes) primes.length with
        | .error _ => return Score.zero Metric.names
        | .ok integers => do
            let integers ← integers
            return scoreAgainst primes composites f g c
              (normalize (image f g integers) (image f g primes)).1
      else return scoreAgainst primes composites f g c [] := by
  have open_gate : ((c.settings .areaCoverage).enabled &&
      decide (gate c .areaCoverage (coverage primes composites f g) < c.areaThreshold)) = false := by
    cases enabled : (c.settings .areaCoverage).enabled with
    | false => rfl
    | true =>
        rw [gate, if_pos enabled]
        exact decide_eq_false (passes enabled)
  rw [score_eq_scoreClouds points]
  unfold scoreClouds
  dsimp only
  change (if (_ && decide (gate c .areaCoverage (coverage primes composites f g) < _)) = true
    then _ else _) = _
  rw [open_gate]
  rfl

theorem score_failed (fails : Fails primes composites f g c) :
    (FoldTest.mk primes composites c).score f g = return Score.zero Metric.names := by
  obtain ⟨points, passes, needed, none⟩ := fails
  have error : randomIntegers (maximum primes) primes.length =
      .error (.bound (.whole (maximum primes))) := dif_neg (by omega)
  rw [score_passed points passes, if_pos needed, error]

/-- What is measured is the worth of each measure that counts, and as many numbers as there are primes
are drawn if a random cloud is called for. -/
theorem run_score_measured (points : HasPoints primes composites f g)
    (passes : Passes primes composites f g c) (sound : ¬ Fails primes composites f g c)
    (source : Source) :
    ((FoldTest.mk primes composites c).score f g).run source =
      (scoreAgainst primes composites f g c (backdrop primes f g source),
        if needsBaseline c then Source.advance^[primes.length] source else source) := by
  rw [score_passed points passes]
  cases needed : needsBaseline c with
  | false =>
      rw [if_neg Bool.false_ne_true, if_neg Bool.false_ne_true, scoreAgainst,
        scoreMeasured_of_needless needed _ _ _ [] (backdrop primes f g source)]
      rfl
  | true =>
      have positive : 0 < (maximum primes).toNat := by
        by_contra none
        exact sound ⟨points, passes, needed, by omega⟩
      have drawn : randomIntegers (maximum primes) primes.length =
          .ok (integersUpTo (maximum primes).toNat positive primes.length) := dif_pos positive
      rw [if_pos rfl, if_pos rfl, ← run_integersUpTo positive]
      unfold backdrop
      rw [drawn]
      rfl

theorem component_scoreAgainst (source : Source) (m : Metric) :
    (scoreAgainst primes composites f g c (backdrop primes f g source)).component m =
      some (gate c m (worth primes composites f g source m)) := by
  rw [scoreAgainst, scoreMeasured, component_score]
  cases m <;> rfl

/-- A measure that counts has its worth as its part of the score, once it is reached. -/
theorem component_of_enabled (points : HasPoints primes composites f g)
    (sound : ¬ Fails primes composites f g c) {m : Metric}
    (enabled : (c.settings m).enabled = true)
    (reached : m = .areaCoverage ∨ Passes primes composites f g c) (source : Source) :
    (((FoldTest.mk primes composites c).score f g).run source).1.component m =
      some (worth primes composites f g source m) := by
  by_cases passes : Passes primes composites f g c
  · rw [run_score_measured points passes sound, component_scoreAgainst, gate, if_pos enabled]
  · obtain rfl := reached.resolve_right passes
    rw [score_gated points passes]
    rfl

theorem component_of_disabled {m : Metric} (disabled : (c.settings m).enabled = false)
    (source : Source) :
    (((FoldTest.mk primes composites c).score f g).run source).1.component m = some 0.0 := by
  by_cases points : HasPoints primes composites f g
  · by_cases passes : Passes primes composites f g c
    · by_cases fails : Fails primes composites f g c
      · rw [score_failed fails]
        exact Score.component_zero m
      · rw [run_score_measured points passes fails, component_scoreAgainst, gate, disabled,
          if_neg Bool.false_ne_true]
    · -- Only a coverage that counts can be too little.
      have other : m ≠ .areaCoverage := by
        rintro rfl
        exact passes fun enabled => by cases enabled.symm.trans disabled
      rw [score_gated points passes]
      change ((Measures.coverageOnly _).score _).component m = _
      rw [component_score]
      cases m with
      | areaCoverage => exact absurd rfl other
      | separation | contrast | significance | specificity => rfl
  · rw [score_few points]
    exact Score.component_zero m

/-- As many numbers as there are primes are drawn, or none. -/
theorem source_of_sound (sound : ¬ Fails primes composites f g c) (source : Source) :
    (((FoldTest.mk primes composites c).score f g).run source).2 =
      if Passes primes composites f g c ∧ HasPoints primes composites f g ∧ needsBaseline c = true
      then Source.advance^[primes.length] source else source := by
  by_cases points : HasPoints primes composites f g
  · by_cases passes : Passes primes composites f g c
    · rw [run_score_measured points passes sound]
      simp only [points, passes, true_and]
    · rw [score_gated points passes, if_neg fun all => passes all.1]
      rfl
  · rw [score_few points, if_neg fun all => points all.2.1]
    rfl

end

/-! ### Independence -/

/-- The measures of a fold do not interfere.  What is reached of a measure that counts under two
configurations is the same under both; a measure that does not count has the part zero, and its
settings change nothing; and the source has as many numbers taken off it as there are primes if the
coverage passes, both images have enough points and a random cloud is called for, or else none.  The
exception is a random cloud up to a bound that leaves no integers: then nothing is scored. -/
theorem score_independent (primes composites : List Int) (f g : Expr) (source : Source)
    (c c' : FitnessConfig) :
    let run (c : FitnessConfig) := ((FoldTest.mk primes composites c).score f g).run source
    (¬ Fails primes composites f g c → ¬ Fails primes composites f g c' →
      ∀ m, (c.settings m).enabled = true → (c'.settings m).enabled = true →
        (m = .areaCoverage ∨
          Passes primes composites f g c ∧ Passes primes composites f g c') →
        ∃ value, (run c).1.component m = some value ∧ (run c').1.component m = some value) ∧
      (∀ m, (c.settings m).enabled = false → (run c).1.component m = some 0.0) ∧
      (c.Alike c' → run c = run c') ∧
      (¬ Fails primes composites f g c → (run c).2 =
        if Passes primes composites f g c ∧ HasPoints primes composites f g ∧
            needsBaseline c = true
        then Source.advance^[primes.length] source else source) ∧
      (Fails primes composites f g c → run c = (Score.zero Metric.names, source)) := by
  intro run
  refine ⟨fun sound sound' m enabled enabled' reached => ?_, fun m disabled => ?_, fun alike => ?_,
    fun sound => source_of_sound sound source, fun fails => ?_⟩
  · by_cases points : HasPoints primes composites f g
    · exact ⟨_, component_of_enabled points sound enabled (reached.imp_right And.left) source,
        component_of_enabled points sound' enabled' (reached.imp_right And.right) source⟩
    · refine ⟨0.0, ?_, ?_⟩ <;>
      · dsimp only [run]
        rw [score_few points]
        exact Score.component_zero m
  · exact component_of_disabled disabled source
  · exact congrArg (StateT.run · source) (score_alike alike primes composites f g)
  · dsimp only [run]
    rw [score_failed fails]
    rfl

/-- Ten points on either side, and coverage does not count: significance is the same beside the other
measures and on its own, separation has the part zero where it does not count, each score draws ten
numbers, and another weight and threshold of coverage change nothing. -/
theorem score_independent_significance :
    let primes : List Int := [2, 3, 5, 7, 11, 13, 17, 19, 23, 29]
    let composites : List Int := [4, 6, 8, 9, 10, 12, 14, 15, 16, 18]
    let g : Expr := .binary .mul .var .var
    let c := FitnessConfig.default.set .areaCoverage ⟨false, 0.5, none⟩
    let c' : FitnessConfig := ⟨fun m => ⟨m = .significance, 3.0, none⟩⟩
    let run (c : FitnessConfig) := ((FoldTest.mk primes composites c).score .var g).run (.ofSeed 1)
    HasPoints primes composites .var g ∧ ¬ Fails primes composites .var g c ∧
      ¬ Fails primes composites .var g c' ∧ Passes primes composites .var g c ∧
      Passes primes composites .var g c' ∧
      (∃ value, (run c).1.component .significance = some value ∧
        (run c').1.component .significance = some value) ∧
      (run c').1.component .separation = some 0.0 ∧ (run c).2 = Source.advance^[10] (.ofSeed 1) ∧
      (run c').2 = Source.advance^[10] (.ofSeed 1) ∧
      run c = run (c.set .areaCoverage ⟨false, 7.0, some 0.9⟩) := by
  intro primes composites g c c' run
  have points : HasPoints primes composites .var g := by decide +kernel
  have positive : ¬ maximum primes ≤ 0 := by decide
  have sound (c : FitnessConfig) : ¬ Fails primes composites .var g c :=
    fun fails => positive fails.2.2.2
  have passes : Passes primes composites .var g c := fun enabled => by cases enabled
  have passes' : Passes primes composites .var g c' := fun enabled => by cases enabled
  obtain ⟨same, -, -, source, -⟩ :=
    score_independent primes composites .var g (.ofSeed 1) c c'
  obtain ⟨-, zero, -, source', -⟩ :=
    score_independent primes composites .var g (.ofSeed 1) c' c
  refine ⟨points, sound c, sound c', passes, passes',
    same (sound c) (sound c') .significance rfl rfl (.inr ⟨passes, passes'⟩),
    zero .separation rfl, ?_, ?_, ?_⟩
  · exact (source (sound c)).trans (if_pos ⟨passes, points, rfl⟩)
  · exact (source' (sound c')).trans (if_pos ⟨passes', points, rfl⟩)
  · obtain ⟨-, -, unread, -⟩ := score_independent primes composites .var g (.ofSeed 1) c
      (c.set .areaCoverage ⟨false, 7.0, some 0.9⟩)
    exact unread (.set rfl rfl)

end FoldTest

end PrimeSearch
