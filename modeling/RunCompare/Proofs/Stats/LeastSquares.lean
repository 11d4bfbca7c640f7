/-
The line with the least squares.

What makes a line the best one is how its residuals lie: they cancel, and they
cancel again when each is weighted with its abscissa (`NormalEquations`).  The
squares of any other line are then those of this one and, on top, the squares of
what lies between the two lines (`NormalEquations.squaresFrom_eq`).  The fitted line
satisfies both equations whether or not the abscissas vary: if they do not, the
products that a slope is made of vanish with their squares.

The flat line through the mean of the ordinates is one of the other lines, and its
squares are the total.  Everything about the share that the line explains comes from
that: it compares the least squares with those of one line.
-/
import RunCompare.Proofs.Stats.Moments
import RunCompare.Proofs.Stats.Reordering

namespace RunCompare.Stats

open Scalar

variable {points : List (ℚ × ℚ)} {slope intercept : ℚ}

/-! ### Squares -/

/-- The sum of the squared deviations of the ordinates from a line. -/
def squaresFrom (points : List (ℚ × ℚ)) (slope intercept : ℚ) : ℚ :=
  (points.map fun p => (p.2 - (slope * p.1 + intercept)) ^ 2).sum

/-- A line has no squares exactly if it passes through every point. -/
theorem squaresFrom_eq_zero_iff :
    squaresFrom points slope intercept = 0 ↔ ∀ p ∈ points, p.2 = slope * p.1 + intercept := by
  unfold squaresFrom
  simp only [sum_squares_eq_zero_iff, sub_eq_zero]

/-- The squares of a flat line. -/
theorem squaresFrom_flat (points : List (ℚ × ℚ)) (y : ℚ) :
    squaresFrom points 0 y = (points.map fun p => (p.2 - y) ^ 2).sum := by
  unfold squaresFrom
  simp only [zero_mul, zero_add]

/-- The flat line through the average has no squares exactly if the ordinates are all the same. -/
theorem squaresFrom_average_eq_zero_iff :
    squaresFrom points 0 (average (points.map (·.2))) = 0 ↔
      ∀ p ∈ points, ∀ q ∈ points, p.2 = q.2 := by
  have hsquares : squaresFrom points 0 (average (points.map (·.2))) =
      squaredDeviations (points.map (·.2)) := by
    rw [squaresFrom_flat, squaredDeviations, List.map_map]
    rfl
  rw [hsquares, squaredDeviations_eq_zero_iff]
  simp only [List.forall_mem_map]

/-! ### The normal equations -/

/-- The residuals of a line cancel, by themselves and weighted with the abscissas. -/
structure NormalEquations (points : List (ℚ × ℚ)) (slope intercept : ℚ) : Prop where
  level : (points.map fun p => p.2 - (slope * p.1 + intercept)).sum = 0
  weighted : (points.map fun p => (p.2 - (slope * p.1 + intercept)) * p.1).sum = 0

/-- **Any other line has the squares of what lies between the two lines on top.** -/
theorem NormalEquations.squaresFrom_eq (h : NormalEquations points slope intercept) (a b : ℚ) :
    squaresFrom points a b = squaresFrom points slope intercept +
      (points.map fun p => ((slope - a) * p.1 + (intercept - b)) ^ 2).sum := by
  have expand : ∀ p : ℚ × ℚ, (p.2 - (a * p.1 + b)) ^ 2 =
      (p.2 - (slope * p.1 + intercept)) ^ 2 + ((slope - a) * p.1 + (intercept - b)) ^ 2 +
        (2 * (slope - a)) * ((p.2 - (slope * p.1 + intercept)) * p.1) +
        (2 * (intercept - b)) * (p.2 - (slope * p.1 + intercept)) := by
    intro p
    ring
  unfold squaresFrom
  simp only [expand, List.sum_map_add, List.sum_map_mul_left, h.level, h.weighted, mul_zero, add_zero]

theorem NormalEquations.least (h : NormalEquations points slope intercept) (a b : ℚ) :
    squaresFrom points slope intercept ≤ squaresFrom points a b := by
  rw [h.squaresFrom_eq a b]
  exact le_add_of_nonneg_right (sum_squares_nonneg _ points)

/-- The residuals of a line through the centre cancel, and its slope decides whether they do so
weighted. -/
theorem NormalEquations.of_centre {x y : ℚ} (hx : (points.map fun p => p.1 - x).sum = 0)
    (hy : (points.map fun p => p.2 - y).sum = 0)
    (hslope : slope * (points.map fun p => (p.1 - x) ^ 2).sum =
      (points.map fun p => (p.1 - x) * (p.2 - y)).sum) :
    NormalEquations points slope (y - slope * x) := by
  have residual : ∀ p : ℚ × ℚ,
      p.2 - (slope * p.1 + (y - slope * x)) = (p.2 - y) + -slope * (p.1 - x) := by
    intro p
    ring
  have level : (points.map fun p => p.2 - (slope * p.1 + (y - slope * x))).sum = 0 := by
    simp only [residual, List.sum_map_add, List.sum_map_mul_left, hx, hy, mul_zero, add_zero]
  refine ⟨level, ?_⟩
  -- As the residuals cancel, the abscissas may be counted from the centre.
  have weighted : ∀ p : ℚ × ℚ, (p.2 - (slope * p.1 + (y - slope * x))) * p.1 =
      (p.1 - x) * (p.2 - y) + -slope * (p.1 - x) ^ 2 +
        x * (p.2 - (slope * p.1 + (y - slope * x))) := by
    intro p
    ring
  simp only [weighted, List.sum_map_add, List.sum_map_mul_left, level, ← hslope]
  ring

/-! ### The fitted line -/

section

variable [OpenFunctions]

/-- The slope solves its equation even if the abscissas do not vary. -/
theorem slope_mul_variation (points : List (ℚ × ℚ)) (x y : ℚ) :
    (Regression.fitThrough points x y).slope * (points.map fun p => (p.1 - x) ^ 2).sum =
      (points.map fun p => (p.1 - x) * (p.2 - y)).sum := by
  have hslope : (Regression.fitThrough points x y).slope =
      if (points.map fun p => (p.1 - x) ^ 2).sum = 0 then 0
      else (points.map fun p => (p.1 - x) * (p.2 - y)).sum /
        (points.map fun p => (p.1 - x) ^ 2).sum := by
    simp only [Regression.fitThrough, sum_eq, zero_eq, beq_iff_eq, square, ← sq]
  rw [hslope]
  by_cases h : (points.map fun p => (p.1 - x) ^ 2).sum = 0
  · rw [if_pos h, zero_mul]
    refine (List.sum_eq_zero fun z hz => ?_).symm
    obtain ⟨p, hp, rfl⟩ := List.mem_map.mp hz
    rw [sum_squares_eq_zero_iff.mp h p hp, zero_mul]
  · rw [if_neg h, div_mul_cancel₀ _ h]

/-- The line that is fitted to points. -/
def leastSquaresFit (points : List (ℚ × ℚ)) : Fit ℚ :=
  Regression.fitThrough points (average (points.map (·.1))) (average (points.map (·.2)))

theorem fit_ofPoints (h : points ≠ []) :
    (Regression.ofPoints points).fit = some (leastSquaresFit points) := by
  unfold Regression.ofPoints leastSquaresFit
  rw [mean_eq_average (mt List.map_eq_nil_iff.mp h), mean_eq_average (mt List.map_eq_nil_iff.mp h)]
  rfl

/-- **The fitted line satisfies the normal equations.** -/
theorem normalEquations_fit (h : points ≠ []) :
    NormalEquations points (leastSquaresFit points).slope (leastSquaresFit points).intercept := by
  have hx := sum_sub_average (mt List.map_eq_nil_iff.mp h : points.map (·.1) ≠ [])
  have hy := sum_sub_average (mt List.map_eq_nil_iff.mp h : points.map (·.2) ≠ [])
  rw [List.map_map] at hx hy
  exact NormalEquations.of_centre hx hy (slope_mul_variation points _ _)

theorem residual_fit (points : List (ℚ × ℚ)) : (leastSquaresFit points).residual =
    squaresFrom points (leastSquaresFit points).slope (leastSquaresFit points).intercept := by
  simp only [leastSquaresFit, Regression.fitThrough, sum_eq, square, ← sq]
  rfl

/-- The total is what the flat line through the average leaves, also where it is not added up. -/
theorem total_fit (points : List (ℚ × ℚ)) : (leastSquaresFit points).total =
    squaresFrom points 0 (average (points.map (·.2))) := by
  have htotal : (leastSquaresFit points).total = if allEqual (points.map (·.2)) then 0
      else squaresFrom points 0 (average (points.map (·.2))) := by
    simp only [leastSquaresFit, Regression.fitThrough, sum_eq, zero_eq, square, ← sq,
      squaresFrom_flat]
  rw [htotal]
  split
  · rename_i hequal
    refine (squaresFrom_average_eq_zero_iff.mpr fun p hp q hq => ?_).symm
    exact allEqual_iff.mp hequal p.2 (List.mem_map_of_mem hp) q.2 (List.mem_map_of_mem hq)
  · rfl

/-- A line with the least squares, and the sums that say how well it fits. -/
structure Fit.IsLeastSquares (points : List (ℚ × ℚ)) (fit : Fit ℚ) : Prop where
  /-- No line has less than this one. -/
  least : ∀ a b, squaresFrom points fit.slope fit.intercept ≤ squaresFrom points a b
  residual : fit.residual = squaresFrom points fit.slope fit.intercept
  total : fit.total = (points.map fun p => (p.2 - average (points.map (·.2))) ^ 2).sum
  residual_le : fit.residual ≤ fit.total

/-- **The line that is fitted to points has the least squares of all lines.** -/
theorem isLeastSquares_fit (h : points ≠ []) : (leastSquaresFit points).IsLeastSquares points := by
  have hleast := (normalEquations_fit h).least
  refine ⟨hleast, residual_fit points, (total_fit points).trans (squaresFrom_flat points _), ?_⟩
  rw [residual_fit, total_fit]
  exact hleast 0 _

/-- **Points have a fitted line, and no other line comes closer to them.** -/
theorem ofPoints_isLeastSquares (points : List (ℚ × ℚ)) (h : points ≠ []) :
    ∃ fit, (Regression.ofPoints points).fit = some fit ∧ fit.IsLeastSquares points :=
  ⟨leastSquaresFit points, fit_ofPoints h, isLeastSquares_fit h⟩

end

/-- Points over one abscissa, one of them twice. -/
def stackedPoints : List (ℚ × ℚ) := [(3, 1), (3, 5), (3, 1)]

theorem ofPoints_stackedPoints :
    letI := OpenFunctions.rational
    stackedPoints ≠ [] ∧ ∃ fit, (Regression.ofPoints stackedPoints).fit = some fit ∧
      fit.IsLeastSquares stackedPoints := by
  let _ : OpenFunctions := OpenFunctions.rational
  have hne : stackedPoints ≠ [] := List.cons_ne_nil _ _
  exact ⟨hne, ofPoints_isLeastSquares stackedPoints hne⟩

/-! ### The share that the line explains -/

section

variable [OpenFunctions]

theorem explained_fit (points : List (ℚ × ℚ)) : (leastSquaresFit points).explained =
    if 0 < (leastSquaresFit points).total then
      some (1 - (leastSquaresFit points).residual / (leastSquaresFit points).total)
    else none := by
  simp only [leastSquaresFit, Regression.fitThrough, zero_eq, one_eq]

theorem total_pos_iff :
    0 < (leastSquaresFit points).total ↔ ¬ ∀ p ∈ points, ∀ q ∈ points, p.2 = q.2 := by
  have hnonneg : 0 ≤ (leastSquaresFit points).total := by
    rw [total_fit, squaresFrom_flat]
    exact sum_squares_nonneg _ points
  rw [← squaresFrom_average_eq_zero_iff, ← total_fit, lt_iff_le_and_ne, ne_comm]
  exact and_iff_right hnonneg

/-- Nothing is left exactly if some line passes through every point. -/
theorem residual_eq_zero_iff (h : points ≠ []) : (leastSquaresFit points).residual = 0 ↔
    ∃ a b, ∀ p ∈ points, p.2 = a * p.1 + b := by
  rw [residual_fit]
  constructor
  · intro hzero
    exact ⟨_, _, squaresFrom_eq_zero_iff.mp hzero⟩
  · rintro ⟨a, b, hline⟩
    refine le_antisymm ?_ (sum_squares_nonneg _ points)
    rw [← squaresFrom_eq_zero_iff.mpr hline]
    exact (normalEquations_fit h).least a b

/-- Over one abscissa every line through the centre is at the average. -/
theorem residual_eq_total (h : ∀ p ∈ points, ∀ q ∈ points, p.1 = q.1) :
    (leastSquaresFit points).residual = (leastSquaresFit points).total := by
  rw [residual_fit, total_fit]
  refine congrArg List.sum (List.map_congr_left fun p hp => ?_)
  have hx : average (points.map (·.1)) = p.1 :=
    average_map_of_forall hp fun q hq => h q hq p hp
  have hintercept : (leastSquaresFit points).intercept = average (points.map (·.2)) -
      (leastSquaresFit points).slope * average (points.map (·.1)) := rfl
  rw [hintercept, hx]
  ring

/-- What the share says that a line explains of points. -/
structure Explains (points : List (ℚ × ℚ)) (share : Option ℚ) : Prop where
  /-- There is none exactly if nothing varies. -/
  absent_iff : share = none ↔ points = [] ∨ ∀ p ∈ points, ∀ q ∈ points, p.2 = q.2
  nonneg : ∀ r ∈ share, 0 ≤ r
  le_one : ∀ r ∈ share, r ≤ 1
  /-- It is whole exactly for points on a line. -/
  one_iff : ∀ r ∈ share, r = 1 ↔ ∃ a b, ∀ p ∈ points, p.2 = a * p.1 + b
  zero : (∀ p ∈ points, ∀ q ∈ points, p.1 = q.1) → ∀ r ∈ share, r = 0

theorem explains_of_varying (h : points ≠ []) (hpos : 0 < (leastSquaresFit points).total) :
    Explains points
      (some (1 - (leastSquaresFit points).residual / (leastSquaresFit points).total)) := by
  refine ⟨?_, ?_, ?_, ?_, ?_⟩
  · exact iff_of_false (Option.some_ne_none _) (not_or.mpr ⟨h, total_pos_iff.mp hpos⟩)
  all_goals simp only [Option.mem_some, forall_eq']
  · exact sub_nonneg.mpr ((div_le_one hpos).mpr (isLeastSquares_fit h).residual_le)
  · refine sub_le_self 1 (div_nonneg ?_ hpos.le)
    rw [residual_fit]
    exact sum_squares_nonneg _ points
  · rw [sub_eq_self, div_eq_zero_iff, or_iff_left hpos.ne', residual_eq_zero_iff h]
  · intro hx
    rw [residual_eq_total hx, div_self hpos.ne', sub_self]

omit [OpenFunctions] in
theorem explains_none (h : points = [] ∨ ∀ p ∈ points, ∀ q ∈ points, p.2 = q.2) :
    Explains points none :=
  ⟨iff_of_true rfl h, nofun, nofun, nofun, fun _ => nofun⟩

/--
**The explained share compares the fitted line with a flat one.**

It lies between zero and one, is absent where the ordinates do not vary, one for
points on a line and zero over a single abscissa.
-/
theorem ofPoints_explains (points : List (ℚ × ℚ)) :
    Explains points ((Regression.ofPoints points).fit.bind (·.explained)) := by
  by_cases h : points = []
  · subst h
    exact explains_none (Or.inl rfl)
  · rw [fit_ofPoints h, Option.bind_some, explained_fit]
    by_cases hpos : 0 < (leastSquaresFit points).total
    · rw [if_pos hpos]
      exact explains_of_varying h hpos
    · rw [if_neg hpos]
      exact explains_none (Or.inr (not_not.mp (mt total_pos_iff.mpr hpos)))

end

end RunCompare.Stats
