/-
Comparisons as JSON values.

A number that is not finite is null, as is a statistic that is absent: a reader
of the value cannot tell the two apart.
-/
import RunCompare.Comparison.Basic

namespace RunCompare

variable {α : Type} [Scalar α]

open Json Stats

/-- A number that may be absent. -/
def Json.ofNumber? (x : Option α) : Json α := ofOption ofScalar x

/-- The fields of a summary. -/
def Stats.Summary.fields (s : Summary α) : List (String × Json α) :=
  [("count", .nat s.count), ("sum", ofScalar s.sum), ("mean", ofNumber? s.mean),
    ("q1", ofNumber? s.q1), ("median", ofNumber? s.median), ("q3", ofNumber? s.q3)]

/-- The JSON value of a summary. -/
def Stats.Summary.toJson (s : Summary α) : Json α := object s.fields

/-- The JSON value of a rank test. -/
def Stats.RankTest.toJson (t : RankTest α) : Json α :=
  object [("u_stat", ofScalar t.u), ("z_score", ofScalar t.z), ("p_value", ofScalar t.p)]

/-- The JSON value of a regression. -/
def Stats.Regression.toJson (r : Regression α) : Json α :=
  object
    [("n", .nat r.count), ("slope", ofNumber? (r.fit.map (·.slope))),
      ("intercept", ofNumber? (r.fit.map (·.intercept))),
      ("ss_tot", ofNumber? (r.fit.map (·.total))),
      ("ss_res", ofNumber? (r.fit.map (·.residual))),
      ("r_squared", ofNumber? (r.fit.bind (·.explained)))]

/-- The fields of a relation between two statistics of one kind. -/
def Delta.fields (kind : String) (d : Delta α) : List (String × Json α) :=
  [(kind ++ "_diff", ofNumber? d.difference), (kind ++ "_ratio", ofNumber? d.ratio),
    (kind ++ "_pct_reduction", ofNumber? d.reduction)]

/-- The JSON value of the comparison of a metric. -/
def MetricComparison.toJson (m : MetricComparison α) : Json α :=
  object
    (m.sum.fields "sum" ++ m.median.fields "median" ++ m.q1.fields "q1" ++ m.q3.fields "q3"
      ++ [("mann_whitney_u_result", ofOption RankTest.toJson m.test),
        ("significant_005", .bool m.significant005),
        ("significant_001", .bool m.significant001)])

/-- The JSON value of a speedup point. -/
def SpeedupPoint.toJson (p : SpeedupPoint α) : Json α :=
  object
    [("file_name", .str p.file), ("config_name", .str p.config), ("loc", ofCount p.loc),
      ("node_count", ofCount p.nodeCount), ("speedup", ofScalar p.speedup)]

/-- The JSON value of a summary of speedups. -/
def SpeedupStats.toJson (s : SpeedupStats α) : Json α :=
  object
    (s.summary.fields
      ++ [("algo1_better", .nat s.firstBetter), ("algo2_better", .nat s.secondBetter),
        ("algo1_better_ratio", ofNumber? (s.share s.firstBetter)),
        ("algo2_better_ratio", ofNumber? (s.share s.secondBetter)),
        ("undefined", .nat s.undefined)])

/-- The JSON value of a summary of signed ratios. -/
def ReductionStats.toJson (r : ReductionStats α) : Json α :=
  object (r.summary.fields ++ [("undefined", .nat r.undefined)])

/-- The JSON value of the shares that similarity computations take. -/
def SimilarityShares.toJson (s : SimilarityShares α) : Json α :=
  object
    [("leaves", ofNumber? s.leaves), ("bottomup", ofNumber? s.bottomUp),
      ("total", ofNumber? s.total)]

/-- The JSON value of something for each side. -/
def Sides.toJson {β : Type} (f : β → Json α) (s : Sides β) : Json α :=
  object [("algo1", f s.first), ("algo2", f s.second)]

/-- The JSON value of a pair as it is configured. -/
def ConfigPair.toJson (p : ConfigPair) : Json α :=
  object [("baseline", .str p.first), ("variant", .str p.second)]

/-- The fields of a comparison. -/
def Comparison.fields (c : Comparison α) : List (String × Json α) :=
  [("names", .arr [.str c.pair.first, .str c.pair.second]), ("has_data", .bool c.hasData),
    ("data", .arr (c.groups.map RunGroup.toJson)),
    ("speedup_data", .arr (c.speedups.map SpeedupPoint.toJson)),
    ("algo1_stats", ofMap (c.summaries.first.map Summary.toJson)),
    ("algo2_stats", ofMap (c.summaries.second.map Summary.toJson)),
    ("algo_comparison", ofMap (c.metrics.map MetricComparison.toJson)),
    ("speedup_stats", c.speedupStats.toJson), ("regression_stats", c.regression.toJson),
    ("similarity_checks_reduction_ratio", c.checksReduction.toJson),
    ("total_similarity_ratios", c.similarityShares.toJson SimilarityShares.toJson),
    ("total_overhead", c.overhead.toJson ofNumber?)]

/-- The JSON value of a comparison. -/
def Comparison.toJson (c : Comparison α) : Json α := object c.fields

end RunCompare
