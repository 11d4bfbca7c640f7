/-
Catalogs: metrics with distinct names, in the order in which they were added.
-/
import RunCompare.Metric.Basic

namespace RunCompare

/-- Metrics with distinct names. -/
structure Catalog (τ α : Type) where
  metrics : List (Metric τ α)
  distinct : (metrics.map (·.name)).Nodup := by simp

/-- How a metric is defined: by the path of a field or by a function. -/
inductive MetricDefinition (τ α : Type) where
  | field (name path : String)
  | computed (name : String) (value? : τ → Option α)

/-- The metric that a definition describes. -/
def MetricDefinition.metric {τ α : Type} [Measured τ α] :
    MetricDefinition τ α → Except AnalysisError (Metric τ α)
  | field name path => Metric.field name path
  | computed name value? => .ok (Metric.computed name value?)

namespace Catalog

variable {τ α : Type}

/-- The catalog without metrics. -/
def empty : Catalog τ α := ⟨[], List.nodup_nil⟩

/-- The names of the metrics, in order. -/
def names (c : Catalog τ α) : List String := c.metrics.map (·.name)

/-- The number of metrics. -/
def size (c : Catalog τ α) : Nat := c.metrics.length

/-- Puts a metric in the place of the one with its name, or else at the end. -/
def put (m : Metric τ α) : List (Metric τ α) → List (Metric τ α)
  | [] => [m]
  | m' :: rest => if m'.name = m.name then m :: rest else m' :: put m rest

theorem names_put (m : Metric τ α) (l : List (Metric τ α)) :
    (put m l).map (·.name) =
      if m.name ∈ l.map (·.name) then l.map (·.name) else l.map (·.name) ++ [m.name] := by
  fun_induction put m l with
  | case1 => simp
  | case2 m' rest h => simp [h]
  | case3 m' rest h ih =>
    simp only [List.map_cons, ih, List.mem_cons, Ne.symm h, false_or]
    split <;> simp

/-- The catalog with a metric added, in the place of an earlier one of the same name. -/
def insert (c : Catalog τ α) (m : Metric τ α) : Catalog τ α where
  metrics := put m c.metrics
  distinct := by
    have h := c.distinct
    rw [names_put]
    split
    · exact h
    · exact List.nodup_append.2 ⟨h, by simp, by simp_all⟩

/-- The metric with a name. -/
def get? (c : Catalog τ α) (name : String) : Option (Metric τ α) :=
  c.metrics.find? (·.name == name)

theorem find?_put (m : Metric τ α) (l : List (Metric τ α)) (name : String) :
    (put m l).find? (·.name == name) =
      if name = m.name then some m else l.find? (·.name == name) := by
  fun_induction put m l with
  | case1 =>
    by_cases h : name = m.name
    · simp [h]
    · simp [h, Ne.symm h]
  | case2 m' rest hname =>
    by_cases h : name = m.name
    · simp [h]
    · simp [hname, h, beq_false_of_ne (Ne.symm h)]
  | case3 m' rest hname ih =>
    by_cases h' : m'.name = name
    · have hne : name ≠ m.name := fun h => hname (h'.trans h)
      simp [h', hne]
    · simp [beq_false_of_ne h', ih]

/-- Adding a metric changes what the catalog holds under its name only. -/
theorem get?_insert (c : Catalog τ α) (m : Metric τ α) (name : String) :
    (c.insert m).get? name = if name = m.name then some m else c.get? name :=
  find?_put m c.metrics name

/-- The catalog with a metric defined; a faulty definition is an error. -/
def define [Measured τ α] (c : Catalog τ α) (d : MetricDefinition τ α) :
    Except AnalysisError (Catalog τ α) := do
  return c.insert (← d.metric)

/-- The catalog of a list of definitions. -/
def ofDefinitions [Measured τ α] (ds : List (MetricDefinition τ α)) :
    Except AnalysisError (Catalog τ α) := ds.foldlM define empty

/-- The catalog of those metrics whose names are given, in the order of the names. -/
def restrict (c : Catalog τ α) (names : List String) : Catalog τ α :=
  (names.filterMap c.get?).foldl insert empty

end Catalog

end RunCompare
