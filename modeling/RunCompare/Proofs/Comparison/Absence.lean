/-
No values are not values of zero.

A summary of nothing has neither a mean nor quartiles, and where one side has no
values of a metric nothing about it is compared.  Where both sides have some,
everything is compared, and only a quotient by zero is left out
(`MetricComparison.TellsAbsence`).  The statements go in both directions, so that
each absent number can be traced back to the side without values or to the zero.

A comparison of a pair that lacks groups on a side is made without reading any
values.  It agrees with what the other one says of metrics without values
(`get?_compare`), which is why one proof covers both.
-/
import RunCompare.Proofs.Comparison.Rows
import RunCompare.Proofs.Stats.Moments
import RunCompare.Proofs.Stats.Quantile

namespace RunCompare

open Scalar Stats

/-! ### Summaries -/

/-- A summary has no mean and no quartiles exactly if it counts nothing, and else all of them. -/
structure Stats.Summary.TellsAbsence (s : Summary ℚ) : Prop where
  absent : s.count = 0 ↔ s.mean = none ∧ s.q1 = none ∧ s.median = none ∧ s.q3 = none
  present : s.count ≠ 0 → ∃ mean q1 median q3,
    s.mean = some mean ∧ s.q1 = some q1 ∧ s.median = some median ∧ s.q3 = some q3

section

variable [OpenFunctions]

theorem mean_ofSamples_nil : (Summary.ofSamples ([] : List ℚ)).mean = none := by
  show Stats.mean (sorted ([] : List ℚ)) = none
  rw [sorted, List.mergeSort_nil]
  rfl

theorem exists_statistics {xs : List ℚ} (h : xs ≠ []) : ∃ mean q1 median q3,
    (Summary.ofSamples xs).mean = some mean ∧ (Summary.ofSamples xs).q1 = some q1 ∧
    (Summary.ofSamples xs).median = some median ∧ (Summary.ofSamples xs).q3 = some q3 := by
  obtain ⟨least, greatest, hordered⟩ := exists_orderedPercentiles h
  obtain ⟨q1, median, q3, hq1, hmedian, hq3, -⟩ := hordered.quartiles
  exact ⟨average (sorted xs), q1, median, q3, mean_eq_average (sorted_ne_nil h), hq1, hmedian, hq3⟩

theorem count_eq_zero_iff {xs : List ℚ} : (Summary.ofSamples xs).count = 0 ↔ xs = [] := by
  rw [count_ofSamples, List.length_eq_zero_iff]

/-- **A summary of samples tells whether there were any.** -/
theorem ofSamples_tellsAbsence (xs : List ℚ) : (Summary.ofSamples xs).TellsAbsence := by
  refine ⟨count_eq_zero_iff.trans ⟨?_, ?_⟩, fun h => exists_statistics (mt count_eq_zero_iff.mpr h)⟩
  · rintro rfl
    exact ⟨mean_ofSamples_nil, quartiles_ofSamples_nil⟩
  · rintro ⟨hmean, -⟩
    by_contra hne
    obtain ⟨mean, _, _, _, hsome, -⟩ := exists_statistics hne
    exact Option.some_ne_none mean (hsome.symm.trans hmean)

end

/-! ### One statistic -/

/-- What is absent of a relation of two statistics, and what the rest is computed from. -/
structure Delta.TellsAbsence (noValues : Prop) (a b : Option ℚ) (d : Delta ℚ) : Prop where
  difference : d.difference = .none ↔ noValues
  ratio : d.ratio = .none ↔ noValues ∨ b = some 0
  reduction : d.reduction = .none ↔ noValues ∨ a = some 0
  difference_eq : ∀ z, d.difference = some z → ∃ x y, a = some x ∧ b = some y ∧ z = x - y
  ratio_eq : ∀ z, d.ratio = some z → ∃ x y, a = some x ∧ b = some y ∧ z = x / y
  reduction_eq : ∀ z, d.reduction = some z →
    ∃ x y, a = some x ∧ b = some y ∧ z = (x - y) / x * 100

section

variable {noValues : Prop}

theorem Delta.none_tellsAbsence (h : noValues) (a b : Option ℚ) :
    Delta.none.TellsAbsence noValues a b where
  difference := iff_of_true rfl h
  ratio := iff_of_true rfl (Or.inl h)
  reduction := iff_of_true rfl (Or.inl h)
  difference_eq _ hz := by cases hz
  ratio_eq _ hz := by cases hz
  reduction_eq _ hz := by cases hz

/-- A quotient that is left out if its divisor is zero. -/
theorem ite_beq_zero_eq_none_iff [OpenFunctions] {x z : ℚ} :
    (if x == zero then none else some z) = none ↔ x = 0 := by
  rw [zero_eq]
  by_cases h : x = 0
  · simp [h]
  · simp [h]

theorem Delta.ofNumbers_tellsAbsence [OpenFunctions] (h : ¬ noValues) (x y : ℚ) :
    (Delta.ofNumbers x y).TellsAbsence noValues (some x) (some y) where
  difference := iff_of_false (Option.some_ne_none _) h
  ratio := by
    rw [or_iff_right h, Option.some_inj]
    exact ite_beq_zero_eq_none_iff
  reduction := by
    rw [or_iff_right h, Option.some_inj]
    exact ite_beq_zero_eq_none_iff
  difference_eq z hz := ⟨x, y, rfl, rfl, (Option.some.inj hz).symm⟩
  ratio_eq z hz := by
    refine ⟨x, y, rfl, rfl, ?_⟩
    simp only [ofNumbers, Option.ite_none_left_eq_some] at hz
    exact (Option.some.inj hz.2).symm
  reduction_eq z hz := by
    refine ⟨x, y, rfl, rfl, ?_⟩
    simp only [ofNumbers, Option.ite_none_left_eq_some] at hz
    exact (Option.some.inj hz.2).symm

end

/-! ### One metric -/

/-- What is absent of the comparison of a metric, by the summaries of both sides. -/
structure MetricComparison.TellsAbsence (first second : Summary ℚ) (d : MetricComparison ℚ) :
    Prop where
  sum : d.sum.TellsAbsence (first.count = 0 ∨ second.count = 0) (some first.sum) (some second.sum)
  median : d.median.TellsAbsence (first.count = 0 ∨ second.count = 0) first.median second.median
  q1 : d.q1.TellsAbsence (first.count = 0 ∨ second.count = 0) first.q1 second.q1
  q3 : d.q3.TellsAbsence (first.count = 0 ∨ second.count = 0) first.q3 second.q3
  test : d.test = none ↔ first.count = 0 ∨ second.count = 0
  flags : first.count = 0 ∨ second.count = 0 → d.significant005 = false ∧ d.significant001 = false

section

variable [OpenFunctions]

theorem test_eq_none_iff {xs ys : List ℚ} :
    (RankTest.ofSamples xs ys : Option (RankTest ℚ)) = none ↔ xs = [] ∨ ys = [] := by
  unfold RankTest.ofSamples
  split
  · rename_i h
    simpa using h
  · rename_i h
    simpa using h

/-- **The comparison of a metric tells whether both sides have values.** -/
theorem MetricComparison.between_tellsAbsence (xs ys : List ℚ) :
    (between (Summary.ofSamples xs) (Summary.ofSamples ys) xs ys).TellsAbsence
      (Summary.ofSamples xs) (Summary.ofSamples ys) := by
  have hnone : (Summary.ofSamples xs).count = 0 ∨ (Summary.ofSamples ys).count = 0 ↔
      xs = [] ∨ ys = [] := or_congr count_eq_zero_iff count_eq_zero_iff
  unfold between
  rw [isEmpty_ofSamples, isEmpty_ofSamples]
  by_cases h : xs = [] ∨ ys = []
  · rw [if_pos (by simpa using h)]
    have hcount := hnone.mpr h
    exact ⟨Delta.none_tellsAbsence hcount _ _, Delta.none_tellsAbsence hcount _ _,
      Delta.none_tellsAbsence hcount _ _, Delta.none_tellsAbsence hcount _ _,
      iff_of_true rfl hcount, fun _ => ⟨rfl, rfl⟩⟩
  · rw [if_neg (by simpa using h)]
    have hcount := mt hnone.mp h
    rw [not_or] at h
    obtain ⟨_, q1, median, q3, -, hq1, hmedian, hq3⟩ := exists_statistics h.1
    obtain ⟨_, q1', median', q3', -, hq1', hmedian', hq3'⟩ := exists_statistics h.2
    have hdelta : ∀ {a b : Option ℚ} {x y : ℚ}, a = some x → b = some y →
        (Delta.between a b).TellsAbsence
          ((Summary.ofSamples xs).count = 0 ∨ (Summary.ofSamples ys).count = 0) a b := by
      rintro _ _ x y rfl rfl
      exact Delta.ofNumbers_tellsAbsence hcount x y
    exact ⟨hdelta rfl rfl, hdelta hmedian hmedian', hdelta hq1 hq1', hdelta hq3 hq3',
      test_eq_none_iff.trans hnone.symm, fun hc => absurd hc hcount⟩

end

/-! ### Whole comparisons -/

section

variable [OpenFunctions]

/-- The values of a metric that count for a configuration: those of its groups, unless one of the
two configurations has no groups. -/
def Comparison.valuesIn (c : Comparison ℚ) (groups : List (RunGroup ℚ))
    (m : Metric (RunGroup ℚ) ℚ) (config : String) : List ℚ :=
  if c.hasData then m.values (ofConfig config groups) else []

/-- What is absent of a comparison, metric by metric. -/
structure Comparison.TellsAbsence (catalog : Catalog (RunGroup ℚ) ℚ) (groups : List (RunGroup ℚ))
    (c : Comparison ℚ) : Prop where
  hasData : c.hasData = true ↔
    (∃ g ∈ groups, g.config = c.pair.first) ∧ ∃ g ∈ groups, g.config = c.pair.second
  named : NamedBy catalog c
  metrics : ∀ m ∈ catalog.metrics, ∃ first second d,
    c.summaries.first.get? m.name = some first ∧ c.summaries.second.get? m.name = some second ∧
    c.metrics.get? m.name = some d ∧
    first.count = (c.valuesIn groups m c.pair.first).length ∧
    second.count = (c.valuesIn groups m c.pair.second).length ∧
    first.TellsAbsence ∧ second.TellsAbsence ∧ d.TellsAbsence first second

variable (catalog : Catalog (RunGroup ℚ) ℚ) (groups : List (RunGroup ℚ)) (pair : ConfigPair)

theorem hasData_compare : (compare catalog groups pair).hasData = true ↔
    (∃ g ∈ groups, g.config = pair.first) ∧ ∃ g ∈ groups, g.config = pair.second := by
  rw [compare_eq, ← isEmpty_ofConfig, ← isEmpty_ofConfig]
  split
  · rename_i h
    exact iff_of_false Bool.false_ne_true fun hne => by simp [hne] at h
  · rename_i h
    exact iff_of_true rfl (by simpa using h)

/-- **What a comparison has of a metric**: the summaries of the values that count, and their
comparison. -/
theorem get?_compare {m : Metric (RunGroup ℚ) ℚ} (hm : m ∈ catalog.metrics)
    {c : Comparison ℚ} (hc : c = compare catalog groups pair) {xs ys : List ℚ}
    (hxs : xs = c.valuesIn groups m pair.first) (hys : ys = c.valuesIn groups m pair.second) :
    c.summaries.first.get? m.name = some (Summary.ofSamples xs) ∧
    c.summaries.second.get? m.name = some (Summary.ofSamples ys) ∧
    c.metrics.get? m.name = some (MetricComparison.between (Summary.ofSamples xs)
      (Summary.ofSamples ys) xs ys) := by
  rw [compare_eq] at hc
  split at hc
  · subst hc hxs hys
    have hbetween : MetricComparison.between (Summary.ofSamples ([] : List ℚ))
        (Summary.ofSamples []) [] [] = MetricComparison.empty := by
      unfold MetricComparison.between
      rw [isEmpty_ofSamples]
      rfl
    exact ⟨get?_ofNames catalog _ hm, get?_ofNames catalog _ hm,
      (get?_ofNames catalog _ hm).trans (congrArg some hbetween.symm)⟩
  · have hfirst : Comparison.ofConfig pair.first (ofPair pair groups) =
        Comparison.ofConfig pair.first groups := ofConfig_ofPair (Or.inl rfl)
    have hsecond : Comparison.ofConfig pair.second (ofPair pair groups) =
        Comparison.ofConfig pair.second groups := ofConfig_ofPair (Or.inr rfl)
    subst hc hxs hys
    refine ⟨?_, ?_, ?_⟩
    · refine (get?_ofMetrics catalog _ hm).trans ?_
      rw [hfirst]
      rfl
    · refine (get?_ofMetrics catalog _ hm).trans ?_
      rw [hsecond]
      rfl
    · refine (get?_ofMetrics catalog _ hm).trans ?_
      rw [hfirst, hsecond]
      rfl

/-- **Every comparison tells, metric by metric, on which side there are no values.** -/
theorem compare_tellsAbsence : (compare catalog groups pair).TellsAbsence catalog groups := by
  refine ⟨?_, namedBy_compare catalog groups pair, fun m hm => ?_⟩
  · rw [pair_compare]
    exact hasData_compare catalog groups pair
  · obtain ⟨hfirst, hsecond, hmetric⟩ := get?_compare catalog groups pair hm rfl rfl rfl
    rw [pair_compare]
    exact ⟨_, _, _, hfirst, hsecond, hmetric, count_ofSamples _, count_ofSamples _,
      ofSamples_tellsAbsence _, ofSamples_tellsAbsence _,
      MetricComparison.between_tellsAbsence _ _⟩

end

end RunCompare
