/-
Complete reports.

A report in which nothing is missing is that of a breakdown, in which nothing can be.
Each phase is complete exactly if it is the report of a complete one, so a run is
complete exactly if its report is that of the breakdown found (`Run.breakdown_eq_ok`).
-/
import RunCompare.Run.Basic

namespace RunCompare

variable {α : Type}

/-- The report of a leaves phase in which nothing is missing. -/
def LeavesPhase.report (p : LeavesPhase α) : LeavesReport α :=
  ⟨some p.totalTime, some p.totalComparisons, some p.exactMatches, some p.similarityTime,
    some p.similarityChecks, some p.charactersCompared, p.others⟩

/-- The report of a bottom-up phase in which nothing is missing. -/
def BottomUpPhase.report (p : BottomUpPhase α) : BottomUpReport α :=
  ⟨some p.totalTime, some p.similarityTime, p.others⟩

/-- The report of both phases in which nothing is missing. -/
def Breakdown.report (b : Breakdown α) : PhaseReport α :=
  ⟨some b.leaves.report, some b.bottomUp.report, b.others⟩

theorem bind_eq_ok {ε β γ : Type} {x : Except ε β} {f : β → Except ε γ} {c : γ} :
    (x >>= f) = .ok c ↔ ∃ b, x = .ok b ∧ f b = .ok c := by
  cases x with
  | error e => exact ⟨fun h => (nomatch h), fun ⟨_, h, _⟩ => (nomatch h)⟩
  | ok b => exact ⟨fun h => ⟨b, rfl, h⟩, fun ⟨_, h, hf⟩ => by cases h; exact hf⟩

theorem orMissing_eq_ok {β : Type} {part : ReportPart} {v : Option β} {b : β} :
    orMissing part v = .ok b ↔ v = some b := by
  cases v with
  | none => exact ⟨fun h => (nomatch h), fun h => (nomatch h)⟩
  | some b' => exact ⟨fun h => by cases h; rfl, fun h => by cases h; rfl⟩

theorem LeavesReport.complete_eq_ok {r : LeavesReport α} {p : LeavesPhase α} :
    r.complete = .ok p ↔ r = p.report := by
  constructor
  · intro h
    unfold complete at h
    simp only [bind_eq_ok, orMissing_eq_ok] at h
    obtain ⟨_, h₁, _, h₂, _, h₃, _, h₄, _, h₅, _, h₆, h⟩ := h
    cases r
    cases h₁
    cases h₂
    cases h₃
    cases h₄
    cases h₅
    cases h₆
    cases h
    rfl
  · rintro rfl
    rfl

theorem BottomUpReport.complete_eq_ok {r : BottomUpReport α} {p : BottomUpPhase α} :
    r.complete = .ok p ↔ r = p.report := by
  constructor
  · intro h
    unfold complete at h
    simp only [bind_eq_ok, orMissing_eq_ok] at h
    obtain ⟨_, h₁, _, h₂, h⟩ := h
    cases r
    cases h₁
    cases h₂
    cases h
    rfl
  · rintro rfl
    rfl

theorem PhaseReport.complete_eq_ok {r : PhaseReport α} {b : Breakdown α} :
    r.complete = .ok b ↔ r = b.report := by
  constructor
  · intro h
    unfold complete at h
    simp only [bind_eq_ok, orMissing_eq_ok, LeavesReport.complete_eq_ok,
      BottomUpReport.complete_eq_ok] at h
    obtain ⟨_, h₁, _, rfl, _, h₂, _, rfl, h⟩ := h
    cases r
    cases h₁
    cases h₂
    cases h
    rfl
  · rintro rfl
    rfl

/-- **A run is complete exactly if its report is that of a breakdown.** -/
theorem Run.breakdown_eq_ok {r : Run α} {b : Breakdown α} :
    r.breakdown = .ok b ↔ r.report = some b.report := by
  unfold breakdown
  rw [bind_eq_ok]
  simp only [orMissing_eq_ok, PhaseReport.complete_eq_ok]
  exact ⟨fun ⟨_, h, heq⟩ => heq ▸ h, fun h => ⟨_, h, rfl⟩⟩

end RunCompare
