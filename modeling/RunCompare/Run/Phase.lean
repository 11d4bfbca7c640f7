/-
The two phases of a run: the matching of leaves, and the bottom-up matching.

As reported, a phase may lack any of its counters, and a report may lack a
phase; `Breakdown` is a report in which nothing is missing.  Times are in
milliseconds.  Fields that this library does not know are kept beside the known
ones at every level.
-/
import RunCompare.Json.Fields

namespace RunCompare

variable {α : Type}

/-! ### Reports that may be incomplete -/

/-- The counters of the leaves phase, as reported. -/
structure LeavesReport (α : Type) where
  totalTime : Option α
  totalComparisons : Option UInt64
  exactMatches : Option UInt64
  similarityTime : Option α
  similarityChecks : Option UInt64
  charactersCompared : Option UInt64
  others : KeyMap (Json α)

/-- The counters of the bottom-up phase, as reported. -/
structure BottomUpReport (α : Type) where
  totalTime : Option α
  similarityTime : Option α
  others : KeyMap (Json α)

/-- The phases of a run, as reported. -/
structure PhaseReport (α : Type) where
  leaves : Option (LeavesReport α)
  bottomUp : Option (BottomUpReport α)
  others : KeyMap (Json α)

/-! ### Complete reports -/

/-- The complete counters of the leaves phase. -/
structure LeavesPhase (α : Type) where
  totalTime : α
  totalComparisons : UInt64
  exactMatches : UInt64
  similarityTime : α
  similarityChecks : UInt64
  charactersCompared : UInt64
  others : KeyMap (Json α)

/-- The complete counters of the bottom-up phase. -/
structure BottomUpPhase (α : Type) where
  totalTime : α
  similarityTime : α
  others : KeyMap (Json α)

/-- Both phases of a run, nothing missing. -/
structure Breakdown (α : Type) where
  leaves : LeavesPhase α
  bottomUp : BottomUpPhase α
  others : KeyMap (Json α)

/-- The time that a run spent in its two phases. -/
def Breakdown.phaseTime [Add α] (b : Breakdown α) : α := b.leaves.totalTime + b.bottomUp.totalTime

/-! ### What is missing -/

/-- A part of a report that may be missing, in the order in which the parts are looked for. -/
inductive ReportPart where
  | report
  | leaves
  | leavesTotalTime
  | totalComparisons
  | exactMatches
  | leavesSimilarityTime
  | similarityChecks
  | charactersCompared
  | bottomUp
  | bottomUpTotalTime
  | bottomUpSimilarityTime
deriving DecidableEq, Repr

/-- The path of a part in a run's record. -/
def ReportPart.path : ReportPart → String
  | report => "diff_summary"
  | leaves => "diff_summary.leaves"
  | leavesTotalTime => "diff_summary.leaves.total_time"
  | totalComparisons => "diff_summary.leaves.total_comparisons"
  | exactMatches => "diff_summary.leaves.exact_matches"
  | leavesSimilarityTime => "diff_summary.leaves.similarity_time"
  | similarityChecks => "diff_summary.leaves.similarity_checks"
  | charactersCompared => "diff_summary.leaves.characters_compared"
  | bottomUp => "diff_summary.bottomup"
  | bottomUpTotalTime => "diff_summary.bottomup.total_time"
  | bottomUpSimilarityTime => "diff_summary.bottomup.similarity_time"

/-- A value, or the part whose absence it shows. -/
def orMissing {β : Type} (part : ReportPart) : Option β → Except ReportPart β
  | some v => .ok v
  | none => .error part

/-- The complete leaves phase, or the first counter that is missing. -/
def LeavesReport.complete (r : LeavesReport α) : Except ReportPart (LeavesPhase α) := do
  let totalTime ← orMissing .leavesTotalTime r.totalTime
  let totalComparisons ← orMissing .totalComparisons r.totalComparisons
  let exactMatches ← orMissing .exactMatches r.exactMatches
  let similarityTime ← orMissing .leavesSimilarityTime r.similarityTime
  let similarityChecks ← orMissing .similarityChecks r.similarityChecks
  let charactersCompared ← orMissing .charactersCompared r.charactersCompared
  return { totalTime, totalComparisons, exactMatches, similarityTime, similarityChecks,
           charactersCompared, others := r.others }

/-- The complete bottom-up phase, or the first counter that is missing. -/
def BottomUpReport.complete (r : BottomUpReport α) : Except ReportPart (BottomUpPhase α) := do
  let totalTime ← orMissing .bottomUpTotalTime r.totalTime
  let similarityTime ← orMissing .bottomUpSimilarityTime r.similarityTime
  return { totalTime, similarityTime, others := r.others }

/-- Both phases complete, or the first part that is missing. -/
def PhaseReport.complete (r : PhaseReport α) : Except ReportPart (Breakdown α) := do
  let leaves ← (← orMissing .leaves r.leaves).complete
  let bottomUp ← (← orMissing .bottomUp r.bottomUp).complete
  return { leaves, bottomUp, others := r.others }

/-! ### As JSON values -/

section Codec

variable [Scalar α]

open Json

/-- The known keys of a leaves phase. -/
def LeavesReport.keys : List String :=
  ["total_time", "total_comparisons", "exact_matches", "similarity_time", "similarity_checks",
    "characters_compared"]

/-- Reads a leaves phase. -/
def LeavesReport.ofJson (v : Json α) : Option (LeavesReport α) := do
  let entries ← v.entries? keys
  return {
    totalTime := ← optionalField finite "total_time" entries
    totalComparisons := ← optionalField count? "total_comparisons" entries
    exactMatches := ← optionalField count? "exact_matches" entries
    similarityTime := ← optionalField finite "similarity_time" entries
    similarityChecks := ← optionalField count? "similarity_checks" entries
    charactersCompared := ← optionalField count? "characters_compared" entries
    others := otherFields keys entries }

/-- The JSON value of a leaves phase, missing counters being null. -/
def LeavesReport.toJson (r : LeavesReport α) : Json α :=
  withOthers
    [("total_time", ofOption ofScalar r.totalTime),
      ("total_comparisons", ofOption ofCount r.totalComparisons),
      ("exact_matches", ofOption ofCount r.exactMatches),
      ("similarity_time", ofOption ofScalar r.similarityTime),
      ("similarity_checks", ofOption ofCount r.similarityChecks),
      ("characters_compared", ofOption ofCount r.charactersCompared)]
    r.others

/-- The known keys of a bottom-up phase. -/
def BottomUpReport.keys : List String := ["total_time", "similarity_time"]

/-- Reads a bottom-up phase. -/
def BottomUpReport.ofJson (v : Json α) : Option (BottomUpReport α) := do
  let entries ← v.entries? keys
  return {
    totalTime := ← optionalField finite "total_time" entries
    similarityTime := ← optionalField finite "similarity_time" entries
    others := otherFields keys entries }

/-- The JSON value of a bottom-up phase, missing counters being null. -/
def BottomUpReport.toJson (r : BottomUpReport α) : Json α :=
  withOthers
    [("total_time", ofOption ofScalar r.totalTime),
      ("similarity_time", ofOption ofScalar r.similarityTime)]
    r.others

/-- The known keys of a report. -/
def PhaseReport.keys : List String := ["leaves", "bottomup"]

/-- Reads a report. -/
def PhaseReport.ofJson (v : Json α) : Option (PhaseReport α) := do
  let entries ← v.entries? keys
  return {
    leaves := ← optionalField LeavesReport.ofJson "leaves" entries
    bottomUp := ← optionalField BottomUpReport.ofJson "bottomup" entries
    others := otherFields keys entries }

/-- The JSON value of a report, missing phases being null. -/
def PhaseReport.toJson (r : PhaseReport α) : Json α :=
  withOthers
    [("leaves", ofOption LeavesReport.toJson r.leaves),
      ("bottomup", ofOption BottomUpReport.toJson r.bottomUp)]
    r.others

/-- The JSON value of a complete leaves phase. -/
def LeavesPhase.toJson (p : LeavesPhase α) : Json α :=
  withOthers
    [("total_time", ofScalar p.totalTime), ("total_comparisons", ofCount p.totalComparisons),
      ("exact_matches", ofCount p.exactMatches), ("similarity_time", ofScalar p.similarityTime),
      ("similarity_checks", ofCount p.similarityChecks),
      ("characters_compared", ofCount p.charactersCompared)]
    p.others

/-- The JSON value of a complete bottom-up phase. -/
def BottomUpPhase.toJson (p : BottomUpPhase α) : Json α :=
  withOthers
    [("total_time", ofScalar p.totalTime), ("similarity_time", ofScalar p.similarityTime)]
    p.others

/-- The JSON value of a breakdown. -/
def Breakdown.toJson (b : Breakdown α) : Json α :=
  withOthers [("leaves", b.leaves.toJson), ("bottomup", b.bottomUp.toJson)] b.others

end Codec

end RunCompare
