/-
The statistics of a metric and their names.

A series is described by five numbers of what is left of it without its outliers
(`Description.IsOf`), and each of them has a field of its own.  `spelledFields`
writes these fields out, name by name and number by number, and they are the ones
that are made (`statisticFields_eq`); `HoldsStatistics` says of anything that is
read by names that they are found in it.

A statistic is found by one text, and metrics may be called anything, so the
names could collide: `a` might have a statistic called like one of `a_mean`.
They do not, because no suffix with its underscore is the end of another one.
The end of the text therefore tells the statistic, and what stands before it is
the metric.
-/
import RunCompare.Stats.Description
import Mathlib.Data.List.Nodup
import Mathlib.Tactic.Common

namespace RunCompare.Stats

variable {α : Type}

/-- The characters that the name of a statistic ends with. -/
def Statistic.ending (s : Statistic) : List Char := ("_" ++ s.suffix).toList

theorem toList_statisticKey (metric : String) (s : Statistic) :
    (statisticKey metric s.suffix).toList = metric.toList ++ s.ending := by
  simp [statisticKey, Statistic.ending, String.toList_append]

theorem Statistic.mem_all (s : Statistic) : s ∈ all := by
  cases s <;> decide

/-- No ending is the end of another one. -/
theorem Statistic.eq_of_ending_suffix {s t : Statistic} (h : s.ending <:+ t.ending) : s = t := by
  have table : ∀ s ∈ all, ∀ t ∈ all, s.ending <:+ t.ending → s = t := by decide
  exact table s s.mem_all t t.mem_all h

/-- **The name of a statistic tells the metric and the statistic.** -/
theorem statisticKey_inj {m m' : String} {s s' : Statistic}
    (h : statisticKey m s.suffix = statisticKey m' s'.suffix) : m = m' ∧ s = s' := by
  have hlist : m.toList ++ s.ending = m'.toList ++ s'.ending := by
    rw [← toList_statisticKey, ← toList_statisticKey, h]
  have hs : s.ending <:+ m'.toList ++ s'.ending := hlist ▸ List.suffix_append _ _
  have heq : s = s' := by
    rcases List.suffix_or_suffix_of_suffix hs (List.suffix_append _ _) with hsuf | hsuf
    · exact Statistic.eq_of_ending_suffix hsuf
    · exact (Statistic.eq_of_ending_suffix hsuf).symm
  subst heq
  exact ⟨String.toList_injective (List.append_cancel_right hlist), rfl⟩

theorem mem_statisticFields {metric : String} {description : Option (Description α)}
    (s : Statistic) :
    (statisticKey metric s.suffix, description.map (·.get s)) ∈
      statisticFields metric description :=
  List.mem_map.mpr ⟨s, s.mem_all, rfl⟩

theorem keys_statisticFields (metric : String) (description : Option (Description α)) :
    (statisticFields metric description).map (·.1) =
      Statistic.all.map fun s => statisticKey metric s.suffix := by
  simp [statisticFields, Function.comp_def]

/-- The fields of metrics with different names have different keys. -/
theorem keys_statisticFields_nodup {ι : Type} {metrics : List ι} {name : ι → String}
    (description : ι → Option (Description α)) (hdistinct : (metrics.map name).Nodup) :
    ((metrics.flatMap fun m => statisticFields (name m) (description m)).map (·.1)).Nodup := by
  rw [List.map_flatMap, List.nodup_flatMap]
  refine ⟨fun m _ => ?_, ?_⟩
  · rw [keys_statisticFields]
    refine (List.nodup_map_iff_inj_on (by decide)).mpr fun s _ s' _ h => ?_
    exact (statisticKey_inj h).2
  · refine (List.pairwise_map.mp hdistinct).imp fun hne => ?_
    show List.Disjoint ((statisticFields _ _).map _) ((statisticFields _ _).map _)
    rw [keys_statisticFields, keys_statisticFields]
    intro key hkey hkey'
    obtain ⟨s, -, rfl⟩ := List.mem_map.mp hkey
    obtain ⟨s', -, h⟩ := List.mem_map.mp hkey'
    exact hne (statisticKey_inj h).1.symm

/-! ### What the fields hold -/

/-- The five fields of a metric, each with its number. -/
def spelledFields (metric : String) (description : Option (Description α)) :
    List (String × Option α) :=
  [(metric ++ "_mean", description.map (·.mean)),
    (metric ++ "_median", description.map (·.median)),
    (metric ++ "_sd", description.map (·.sd)),
    (metric ++ "_mean_upper", description.map (·.meanUpper)),
    (metric ++ "_mean_lower", description.map (·.meanLower))]

/-- **The fields of a metric are its mean, median and standard deviation and the ends of the
band.** -/
theorem statisticFields_eq (metric : String) (description : Option (Description α)) :
    statisticFields metric description = spelledFields metric description := by
  have hkey : ∀ suffix, statisticKey metric suffix = metric ++ ("_" ++ suffix) :=
    fun suffix => String.append_assoc
  simp only [statisticFields, Statistic.all, List.map_cons, List.map_nil, hkey]
  rfl

/-- Under the names of the fields of a metric stand its five numbers, as they are written. -/
structure HoldsStatistics {β : Type} (get? : String → Option β) (write : Option α → β)
    (metric : String) (description : Option (Description α)) : Prop where
  mean : get? (metric ++ "_mean") = some (write (description.map (·.mean)))
  median : get? (metric ++ "_median") = some (write (description.map (·.median)))
  sd : get? (metric ++ "_sd") = some (write (description.map (·.sd)))
  meanUpper : get? (metric ++ "_mean_upper") = some (write (description.map (·.meanUpper)))
  meanLower : get? (metric ++ "_mean_lower") = some (write (description.map (·.meanLower)))

section

variable {β : Type} {get? : String → Option β} {write : Option α → β} {metric : String}
  {description : Option (Description α)}

/-- The five numbers are found if every field that is made is. -/
theorem holdsStatistics_iff : HoldsStatistics get? write metric description ↔
    ∀ field ∈ statisticFields metric description, get? field.1 = some (write field.2) := by
  rw [statisticFields_eq]
  simp only [spelledFields, List.forall_mem_cons]
  constructor
  · intro h
    exact ⟨h.mean, h.median, h.sd, h.meanUpper, h.meanLower, nofun⟩
  · rintro ⟨hmean, hmedian, hsd, hupper, hlower, -⟩
    exact ⟨hmean, hmedian, hsd, hupper, hlower⟩

theorem HoldsStatistics.get?_statisticKey (h : HoldsStatistics get? write metric description)
    (s : Statistic) :
    get? (statisticKey metric s.suffix) = some (write (description.map (·.get s))) :=
  holdsStatistics_iff.mp h _ (mem_statisticFields s)

end

section

variable [Scalar α]

open Scalar

/-- The mean, the median and the standard deviation of what is left of a series, and the band of
one standard deviation on each side of the mean. -/
structure Description.IsOf (kept : List α) (d : Description α) : Prop where
  mean : Stats.mean kept = some d.mean
  median : Stats.median (sorted kept) = some d.median
  sd : stdDev kept = some d.sd
  meanUpper : d.meanUpper = d.mean + d.sd
  meanLower : d.meanLower = d.mean - d.sd

/-- **A series is described by what is left of it without its outliers.** -/
theorem Description.ofSamples_eq_some_iff {xs : List α} {d : Description α} :
    Description.ofSamples xs = some d ↔ d.IsOf (withoutOutliers xs) := by
  unfold Description.ofSamples
  simp only [Option.bind_eq_bind, Option.bind_eq_some_iff, Option.pure_def, Option.some.injEq]
  constructor
  · rintro ⟨mean, hmean, median, hmedian, sd, hsd, rfl⟩
    exact ⟨hmean, hmedian, hsd, rfl, rfl⟩
  · intro h
    refine ⟨d.mean, h.mean, d.median, h.median, d.sd, h.sd, ?_⟩
    rw [← h.meanUpper, ← h.meanLower]

/-- Nothing describes an empty series. -/
theorem Description.ofSamples_nil : Description.ofSamples ([] : List α) = none := by
  have hkept : withoutOutliers ([] : List α) = [] := by
    simp [withoutOutliers, Outliers.detect, sorted, leastSamplesWithOutliers]
  unfold Description.ofSamples
  rw [hkept]
  rfl

end

end RunCompare.Stats
