/-
What a catalog remembers of a session.

In a session metrics are defined one after the other, and a definition that is
refused does not stop it.  `Inserts` says without the catalog what each
definition comes to: the metric that it inserts, or why it is refused.  A path
with a gap is refused, and so is one that leads to no numeric field.

The catalog is a map that keeps the order in which its names came: after any
definitions it lists each name once, at the place of its first insertion, with
the metric of its last one (`Remembers`).  One insertion keeps this
(`Remembers.insert`), a refused definition is refused before the catalog is
touched, and so a whole session keeps it (`Remembers.session`).
-/
import RunCompare.Metric.Catalog
import RunCompare.Metric.Fields
import RunCompare.Proofs.FieldPath
import Mathlib.Data.Finset.Card

namespace RunCompare

variable {τ α : Type}

/-! ### Definitions -/

namespace MetricDefinition

variable [Measured τ α]

/-- The metric that a definition stands for. -/
inductive Builds : MetricDefinition τ α → Metric τ α → Prop
  /-- The text of the path joins its segments by points, and a numeric field is there. -/
  | field {name text : String} {p : FieldPath} (segments : p.segments ≠ [])
      (nonempty : ∀ s ∈ p.segments, FieldPath.IsSegment s) (joined : p.text = text)
      (known : Measured.hasField τ p = true) : Builds (.field name text) ⟨name, .field p⟩
  | computed {name : String} {value? : τ → Option α} :
      Builds (.computed name value?) ⟨name, .computed value?⟩

/-- Why a definition is refused. -/
inductive Refuses : MetricDefinition τ α → AnalysisError → Prop
  | emptyPath {name text : String} (gap : HasGap '.' text.toList) :
      Refuses (.field name text) .emptyPath
  | unknownField {name text : String} {p : FieldPath} (segments : p.segments ≠ [])
      (nonempty : ∀ s ∈ p.segments, FieldPath.IsSegment s) (joined : p.text = text)
      (unknown : Measured.hasField τ p = false) : Refuses (.field name text) (.unknownField p)

variable {d : MetricDefinition τ α} {m : Metric τ α} {e : AnalysisError}

theorem metric_of_builds (h : d.Builds m) : d.metric = .ok m := by
  cases h with
  | computed => rfl
  | field segments nonempty joined known =>
      have hpath := FieldPath.ofText?_eq_some_iff.mpr ⟨segments, nonempty, joined⟩
      simp [metric, Metric.field, hpath, known]

theorem metric_of_refuses (h : d.Refuses e) : d.metric = .error e := by
  cases h with
  | emptyPath gap =>
      have hpath := FieldPath.ofText?_eq_none_iff.mpr gap
      simp [metric, Metric.field, hpath]
  | unknownField segments nonempty joined unknown =>
      have hpath := FieldPath.ofText?_eq_some_iff.mpr ⟨segments, nonempty, joined⟩
      simp [metric, Metric.field, hpath, unknown]

/-- **A definition stands for a metric or is refused.** -/
theorem builds_or_refuses (d : MetricDefinition τ α) : (∃ m, d.Builds m) ∨ ∃ e, d.Refuses e := by
  cases d with
  | computed name value? => exact Or.inl ⟨_, .computed⟩
  | field name text =>
      cases hpath : FieldPath.ofText? text with
      | none => exact Or.inr ⟨_, .emptyPath (FieldPath.ofText?_eq_none_iff.mp hpath)⟩
      | some p =>
          obtain ⟨segments, nonempty, joined⟩ := FieldPath.ofText?_eq_some_iff.mp hpath
          cases hfield : Measured.hasField τ p with
          | true => exact Or.inl ⟨_, .field segments nonempty joined hfield⟩
          | false => exact Or.inr ⟨_, .unknownField segments nonempty joined hfield⟩

end MetricDefinition

namespace Catalog

/-! ### What is remembered -/

/-- A catalog remembers the metrics that were inserted, in this order. -/
structure Remembers (inserted : List (Metric τ α)) (c : Catalog τ α) : Prop where
  /-- No name is listed twice. -/
  distinct : c.names.Nodup
  /-- The names are those of the inserted metrics. -/
  names : ∀ name, name ∈ c.names ↔ name ∈ inserted.map (·.name)
  /-- They are listed in the order in which each of them was first inserted. -/
  order : c.names.Pairwise fun name name' =>
    (inserted.map (·.name)).idxOf name < (inserted.map (·.name)).idxOf name'
  /-- There are as many metrics as different names were inserted. -/
  size : c.size = (inserted.map (·.name)).toFinset.card
  /-- Under a name is the metric that was last inserted under it, if any was. -/
  get? : ∀ name, c.get? name = (inserted.filter (·.name == name)).getLast?

theorem remembers_empty : Remembers [] (empty : Catalog τ α) where
  distinct := List.nodup_nil
  names _ := Iff.rfl
  order := List.Pairwise.nil
  size := rfl
  get? _ := rfl

theorem names_insert (c : Catalog τ α) (m : Metric τ α) :
    (c.insert m).names = if m.name ∈ c.names then c.names else c.names ++ [m.name] :=
  names_put m c.metrics

/-- If no name is listed twice, the size is the number of different names. -/
theorem size_eq_card {c : Catalog τ α} {names : List String} (hdistinct : c.names.Nodup)
    (hnames : ∀ name, name ∈ c.names ↔ name ∈ names) : c.size = names.toFinset.card := by
  have hset : c.names.toFinset = names.toFinset := by
    ext name
    rw [List.mem_toFinset, List.mem_toFinset, hnames]
  rw [← hset, List.toFinset_card_of_nodup hdistinct]
  exact (List.length_map ..).symm

section

variable {inserted : List (Metric τ α)} {c : Catalog τ α}

theorem Remembers.distinct_insert (h : Remembers inserted c) (m : Metric τ α) :
    (c.insert m).names.Nodup := by
  rw [names_insert]
  split
  · exact h.distinct
  · rename_i hnew
    rw [← List.concat_eq_append]
    exact List.Nodup.concat hnew h.distinct

theorem Remembers.names_insert_iff (h : Remembers inserted c) (m : Metric τ α) (name : String) :
    name ∈ (c.insert m).names ↔ name ∈ (inserted ++ [m]).map (·.name) := by
  rw [names_insert, List.map_append, List.mem_append, ← h.names]
  split
  · rename_i hold
    simp only [List.map_cons, List.map_nil, List.mem_singleton]
    exact ⟨Or.inl, fun hor => hor.elim id fun heq => heq ▸ hold⟩
  · rw [List.mem_append]
    rfl

/-- No name moves that was inserted before, and a new one comes last. -/
theorem Remembers.order_insert (h : Remembers inserted c) (m : Metric τ α) :
    (c.insert m).names.Pairwise fun name name' =>
      ((inserted ++ [m]).map (·.name)).idxOf name <
        ((inserted ++ [m]).map (·.name)).idxOf name' := by
  have hkept : ∀ name ∈ c.names, ((inserted ++ [m]).map (·.name)).idxOf name =
      (inserted.map (·.name)).idxOf name := by
    intro name hname
    rw [List.map_append]
    exact List.idxOf_append_of_mem ((h.names name).mp hname)
  have hold : c.names.Pairwise fun name name' => ((inserted ++ [m]).map (·.name)).idxOf name <
      ((inserted ++ [m]).map (·.name)).idxOf name' := by
    refine h.order.imp_of_mem fun hname hname' hlt => ?_
    rw [hkept _ hname, hkept _ hname']
    exact hlt
  rw [names_insert]
  split
  · exact hold
  · rename_i hnew
    refine List.pairwise_append.mpr ⟨hold, List.pairwise_singleton _ _, ?_⟩
    intro name hname last hlast
    rw [List.mem_singleton.mp hlast, hkept name hname, List.map_append,
      List.idxOf_append_of_notMem (mt (h.names m.name).mpr hnew)]
    exact Nat.lt_of_lt_of_le (List.idxOf_lt_length_of_mem ((h.names name).mp hname))
      (Nat.le_add_right _ _)

/-- **One more insertion is remembered.** -/
theorem Remembers.insert (h : Remembers inserted c) (m : Metric τ α) :
    Remembers (inserted ++ [m]) (c.insert m) where
  distinct := h.distinct_insert m
  names := h.names_insert_iff m
  order := h.order_insert m
  size := size_eq_card (h.distinct_insert m) (h.names_insert_iff m)
  get? name := by
    rw [get?_insert, List.filter_append, h.get?]
    by_cases hname : name = m.name
    · simp [hname]
    · simp [hname, beq_false_of_ne (Ne.symm hname)]

end

/-! ### Sessions -/

section

variable [Measured τ α]

/-- Defines a metric in a session: builds it, and then inserts it. -/
def perform (d : MetricDefinition τ α) : ExceptT AnalysisError (StateM (Catalog τ α)) Unit := do
  let m ← (d.metric : Except AnalysisError (Metric τ α))
  modify (·.insert m)

/-- A session: definitions are performed one after the other, whether or not they are refused. -/
def session (ds : List (MetricDefinition τ α)) :
    StateM (Catalog τ α) (List (Except AnalysisError Unit)) :=
  ds.mapM fun d => (perform d).run

/-- What the definitions of a session answer, and the metrics that they insert. -/
inductive Inserts : List (MetricDefinition τ α) → List (Except AnalysisError Unit) →
    List (Metric τ α) → Prop
  | done : Inserts [] [] []
  | built {d : MetricDefinition τ α} {m : Metric τ α} {ds as ms} (builds : d.Builds m)
      (rest : Inserts ds as ms) : Inserts (d :: ds) (.ok () :: as) (m :: ms)
  | refused {d : MetricDefinition τ α} {e : AnalysisError} {ds as ms} (refuses : d.Refuses e)
      (rest : Inserts ds as ms) : Inserts (d :: ds) (.error e :: as) ms

variable {d : MetricDefinition τ α} {m : Metric τ α} {e : AnalysisError} {c : Catalog τ α}
  {ds : List (MetricDefinition τ α)}

theorem perform_of_builds (h : d.Builds m) (c : Catalog τ α) :
    (perform d).run.run c = (.ok (), c.insert m) := by
  unfold perform
  rw [MetricDefinition.metric_of_builds h]
  rfl

/-- A definition that is refused does not touch the catalog. -/
theorem perform_of_refuses (h : d.Refuses e) (c : Catalog τ α) :
    (perform d).run.run c = (.error e, c) := by
  unfold perform
  rw [MetricDefinition.metric_of_refuses h]
  rfl

theorem session_cons (d : MetricDefinition τ α) (ds : List (MetricDefinition τ α))
    (c : Catalog τ α) : (session (d :: ds)).run c =
      let performed := (perform d).run.run c
      let rest := (session ds).run performed.2
      (performed.1 :: rest.1, rest.2) := by
  unfold session
  rw [List.mapM_cons]
  rfl

theorem session_concat (ds : List (MetricDefinition τ α)) (d : MetricDefinition τ α)
    (c : Catalog τ α) : ((session (ds ++ [d])).run c).2 =
      ((perform d).run.run ((session ds).run c).2).2 := by
  induction ds generalizing c with
  | nil => rfl
  | cons d' ds ih =>
      rw [List.cons_append, session_cons, session_cons]
      exact ih _

/-- **A session is remembered.** -/
theorem Remembers.session {inserted : List (Metric τ α)} (h : Remembers inserted c)
    (ds : List (MetricDefinition τ α)) : ∃ later,
      Inserts ds ((session ds).run c).1 later ∧
        Remembers (inserted ++ later) ((session ds).run c).2 := by
  induction ds generalizing inserted c with
  | nil => exact ⟨[], .done, by rwa [List.append_nil]⟩
  | cons d ds ih =>
      rw [session_cons]
      rcases d.builds_or_refuses with ⟨m, hbuilds⟩ | ⟨e, hrefuses⟩
      · rw [perform_of_builds hbuilds]
        obtain ⟨later, hlater, hremembers⟩ := ih (h.insert m)
        refine ⟨m :: later, .built hbuilds hlater, ?_⟩
        rwa [List.append_assoc] at hremembers
      · rw [perform_of_refuses hrefuses]
        obtain ⟨later, hlater, hremembers⟩ := ih h
        exact ⟨later, .refused hrefuses hlater, hremembers⟩

/-- What holds throughout a session on a catalog that is empty at first. -/
structure RefinesOrderedMap (ds : List (MetricDefinition τ α)) : Prop where
  /-- A definition is performed as a catalog defines a metric; when it is refused, the catalog is
  still there. -/
  performed : ∀ d ∈ ds, ∀ c : Catalog τ α, (perform d).run.run c =
    match c.define d with
    | .ok c' => (.ok (), c')
    | .error e => (.error e, c)
  /-- At any time the catalog remembers the metrics that were inserted so far. -/
  remembers : ∀ before, before <+: ds → ∃ inserted,
    Inserts before ((session before).run empty).1 inserted ∧
      Remembers inserted ((session before).run empty).2
  /-- A definition that is refused leaves the catalog exactly as it was. -/
  unchanged : ∀ before d, before ++ [d] <+: ds → ∀ e,
    ((perform d).run.run ((session before).run empty).2).1 = .error e →
      ((session (before ++ [d])).run empty).2 = ((session before).run empty).2

/-- **Throughout a session a catalog is a map that keeps the order of insertion.** -/
theorem session_refinesOrderedMap (ds : List (MetricDefinition τ α)) : RefinesOrderedMap ds where
  performed d _ c := by
    unfold perform define
    cases d.metric with
    | ok m => rfl
    | error e => rfl
  remembers before _ := remembers_empty.session before
  unchanged before d _ e h := by
    rw [session_concat]
    rcases d.builds_or_refuses with ⟨m, hbuilds⟩ | ⟨e', hrefuses⟩
    · rw [perform_of_builds hbuilds] at h
      cases h
    · rw [perform_of_refuses hrefuses]

/-- A metric defined again keeps its place, and what is refused takes none. -/
example :
    let loc : MetricDefinition (Run Binary64) Binary64 := .field "size" "loc"
    let result := (session [loc, .field "none" "no.field", .computed "time" fun _ => none,
      .field "gap" "a..b", .computed "size" fun _ => none]).run empty
    result.1.map (fun answer => answer.isOk) = [true, false, true, false, true] ∧
      result.2.names = ["size", "time"] := by
  decide

end

end Catalog

end RunCompare
