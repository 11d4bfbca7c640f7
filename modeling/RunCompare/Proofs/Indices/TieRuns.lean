/-
Ranking the pooled samples by position.

The ranks are defined on the runs of equal samples.  A pass by position finds
the end of a run by comparing the samples that follow with the first of it, and
takes the run as a slice.  Here the pass is written with every read and every
slice checked, so that a position outside would leave it without a result, and
so would a run that ends where it starts.  It gives the same ranks
(`rankedFrom_eq`), provided that equality is symmetric and transitive; that a
sample equals itself is not needed, and does not hold of one that is not a
number.
-/
import RunCompare.Stats.RankTest
import RunCompare.Proofs.Binary64.Order
import Mathlib.Data.List.SplitBy
import Mathlib.Tactic.Common

namespace RunCompare.Stats.RankTest

variable {α β : Type} [Scalar α] [Scalar β]

/-! ### The pass by position -/

/-- The part of a list from one position up to another; no result if it leaves the list. -/
def slice? {τ : Type} (xs : List τ) (start stop : Nat) : Option (List τ) :=
  if start ≤ stop ∧ stop ≤ xs.length then some ((xs.drop start).take (stop - start)) else none

/-- The position, from `stop` on, of the first sample that differs from the one at `start`. -/
def runEnd (pooled : List (β × Bool)) (start stop : Nat) : Option Nat :=
  if stop < pooled.length then do
    let next ← pooled[stop]?
    let first ← pooled[start]?
    if next.1 == first.1 then runEnd pooled start (stop + 1) else some stop
  else some stop
termination_by pooled.length - stop

/-- The ranks of the samples from a position on. -/
def rankedFrom (pooled : List (β × Bool)) (start : Nat) : Option (List (α × Bool)) :=
  if start < pooled.length then do
    let stop ← runEnd pooled start (start + 1)
    let run ← slice? pooled start stop
    if start < stop then
      let rank := ((start + 1 + stop : Nat) : α) / ((2 : Nat) : α)
      return run.map (fun e => (rank, e.2)) ++ (← rankedFrom pooled stop)
    else none
  else some []
termination_by pooled.length - start

/-! ### One run -/

theorem slice?_append {τ : Type} (before run after : List τ) :
    slice? (before ++ (run ++ after)) before.length (before.length + run.length) = some run := by
  rw [slice?, if_pos (by simp only [List.length_append]; omega), List.drop_left,
    Nat.add_sub_cancel_left, List.take_left]

/-- The scan reads the next sample and the first of the run, and both are there. -/
theorem runEnd_step (before : List (β × Bool)) (first : β × Bool) (passed : List (β × Bool))
    (next : β × Bool) (after : List (β × Bool)) :
    runEnd (before ++ first :: (passed ++ next :: after)) before.length
        (before.length + 1 + passed.length) =
      if next.1 == first.1 then
        runEnd (before ++ first :: (passed ++ next :: after)) before.length
          (before.length + 1 + passed.length + 1)
      else some (before.length + 1 + passed.length) := by
  have hfirst : (before ++ first :: (passed ++ next :: after))[before.length]? = some first := by
    rw [List.getElem?_append_right (Nat.le_refl _), Nat.sub_self, List.getElem?_cons_zero]
  have hnext : (before ++ first :: (passed ++ next :: after))[before.length + 1 + passed.length]? =
      some next := by
    have hplace : before.length + 1 + passed.length - before.length = passed.length + 1 := by omega
    rw [List.getElem?_append_right (by omega), hplace, List.getElem?_cons_succ,
      List.getElem?_append_right (Nat.le_refl _), Nat.sub_self, List.getElem?_cons_zero]
  rw [runEnd, if_pos (by simp only [List.length_append, List.length_cons]; omega), hnext, hfirst]
  rfl

/-- The scan passes over the samples that equal the first of the run, and stops behind them. -/
theorem runEnd_eq (before : List (β × Bool)) (first : β × Bool) {equal after : List (β × Bool)}
    (hequal : ∀ e ∈ equal, (e.1 == first.1) = true)
    (hafter : ∀ e ∈ after.head?, (e.1 == first.1) = false) (passed : List (β × Bool)) :
    runEnd (before ++ first :: (passed ++ (equal ++ after))) before.length
        (before.length + 1 + passed.length) =
      some (before.length + 1 + passed.length + equal.length) := by
  induction equal generalizing passed with
  | nil =>
      cases after with
      | nil =>
          rw [runEnd, if_neg (by simp; omega)]
          rfl
      | cons next after =>
          rw [List.nil_append, runEnd_step, if_neg (by simp [hafter next rfl])]
          rfl
  | cons e equal ih =>
      obtain ⟨he, hrest⟩ := List.forall_mem_cons.mp hequal
      have hpassed := ih hrest (passed ++ [e])
      rw [List.append_assoc, List.singleton_append, List.length_append, List.length_singleton,
        ← Nat.add_assoc] at hpassed
      rw [List.cons_append, runEnd_step, if_pos he, hpassed, List.length_cons]
      congr 1
      omega

/-! ### All runs -/

/-- The samples of a run are those that equal the first of it. -/
theorem eq_first_of_isChain [PartialEquivBEq β] {first : β × Bool} {run : List (β × Bool)}
    (h : (first :: run).IsChain fun a b => (a.1 == b.1) = true) :
    ∀ e ∈ run, (e.1 == first.1) = true := by
  intro e he
  have : @Trans (β × Bool) (β × Bool) (β × Bool) (fun a b => (a.1 == b.1) = true)
      (fun a b => (a.1 == b.1) = true) (fun a b => (a.1 == b.1) = true) :=
    ⟨PartialEquivBEq.trans⟩
  exact PartialEquivBEq.symm ((List.pairwise_cons.mp (List.isChain_iff_pairwise.mp h)).1 e he)

/-- A sample that differs from the last of a run differs from the first of it. -/
theorem ne_first_of_ne_last [PartialEquivBEq β] {first next : β × Bool} {equal : List (β × Bool)}
    (hequal : ∀ e ∈ equal, (e.1 == first.1) = true)
    (hlast : (((first :: equal).getLast (List.cons_ne_nil _ _)).1 == next.1) = false) :
    (next.1 == first.1) = false := by
  refine Bool.eq_false_iff.mpr fun hnext => Bool.eq_false_iff.mp hlast ?_
  have hsymm : (first.1 == next.1) = true := PartialEquivBEq.symm hnext
  rcases List.mem_cons.mp (List.getLast_mem (List.cons_ne_nil first equal)) with heq | hmem
  · rw [heq]
    exact hsymm
  · exact PartialEquivBEq.trans (hequal _ hmem) hsymm

/-- What follows a run differs from the first of it. -/
theorem ne_first_of_separated [PartialEquivBEq β] {first : β × Bool} {equal : List (β × Bool)}
    {runs : List (List (β × Bool))} (hequal : ∀ e ∈ equal, (e.1 == first.1) = true)
    (hsep : ((first :: equal) :: runs).IsChain fun run next =>
      ∃ (h : run ≠ []) (h' : next ≠ []), ((run.getLast h).1 == (next.head h').1) = false) :
    ∀ e ∈ runs.flatten.head?, (e.1 == first.1) = false := by
  cases runs with
  | nil => simp
  | cons next rest =>
      obtain ⟨⟨_, hnext, hlast⟩, -⟩ := List.isChain_cons_cons.mp hsep
      intro e he
      rw [List.flatten_cons, List.head?_append_of_ne_nil _ hnext,
        List.head?_eq_some_head hnext, Option.mem_some] at he
      exact ne_first_of_ne_last hequal (he ▸ hlast)

/-- **The pass by position gives the ranks of the runs.** -/
theorem rankedFrom_eq [PartialEquivBEq β] (before : List (β × Bool))
    {runs : List (List (β × Bool))} (hne : [] ∉ runs)
    (hequal : ∀ run ∈ runs, run.IsChain fun a b => (a.1 == b.1) = true)
    (hsep : runs.IsChain fun run next => ∃ (h : run ≠ []) (h' : next ≠ []),
      ((run.getLast h).1 == (next.head h').1) = false) :
    rankedFrom (before ++ runs.flatten) before.length =
      some (rankRuns (α := α) before.length runs) := by
  induction runs generalizing before with
  | nil =>
      rw [rankedFrom, if_neg (by simp)]
      rfl
  | cons run rest ih =>
      obtain ⟨first, equal, rfl⟩ :=
        List.exists_cons_of_ne_nil fun h => hne (h ▸ List.mem_cons_self)
      obtain ⟨hrun, hrest⟩ := List.forall_mem_cons.mp hequal
      have hfirst := eq_first_of_isChain hrun
      have hend := runEnd_eq before first hfirst (ne_first_of_separated hfirst hsep) []
      have hslice := slice?_append before (first :: equal) rest.flatten
      have hnext := ih (before ++ first :: equal) (fun h => hne (List.mem_cons_of_mem _ h)) hrest
        hsep.tail
      rw [List.append_assoc, List.length_append] at hnext
      have hlength : before.length + 1 + equal.length = before.length + (first :: equal).length := by
        rw [List.length_cons]
        omega
      rw [List.nil_append, List.length_nil, Nat.add_zero, hlength] at hend
      rw [List.cons_append] at hslice hnext
      rw [List.flatten_cons, rankedFrom, if_pos (by simp), List.cons_append, hend, rankRuns]
      simp only [Option.bind_eq_bind, Option.bind_some, hslice, hnext]
      rw [if_pos (by simp)]
      rfl

/-- **No read and no slice of the pass over the pooled samples leaves them.** -/
theorem rankedFrom_pool [PartialEquivBEq β] (first second : List β) :
    rankedFrom (pool first second) 0 = some (ranks (α := α) first second) := by
  have h := rankedFrom_eq (α := α) [] (List.nil_notMem_splitBy _ _)
    (fun _ => List.isChain_of_mem_splitBy)
    (List.isChain_getLast_head_splitBy (fun a b : β × Bool => a.1 == b.1) (pool first second))
  rwa [List.flatten_splitBy] at h

end RunCompare.Stats.RankTest
