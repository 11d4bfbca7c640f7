/-
The rank test on the program's numbers.

The samples are 64-bit floating-point numbers, the counts exact.  The sort ranks
the two zeros and the test ties them, so the samples are ordered by their place in
the numeric order, of which the sort is a refinement.  That is all that counting
pairs needs (`OrderedBy`), as long as every sample is a number: one that is not
ties with nothing, itself included.

`pairsWon` counts over the pairs themselves, without ranks.
-/
import RunCompare.Proofs.Binary64.Order
import RunCompare.Proofs.Stats.RankTest
import Mathlib.Data.List.ProdSigma

namespace RunCompare.Stats

open Scalar

/-! ### Counting pairs -/

/-- The number of pairs that the first sample wins, a level pair as half a pair. -/
def pairsWon (first second : List Binary64) : ℚ :=
  ((first ×ˢ second).countP fun p => decide (p.2 < p.1) : ℕ) +
    ((first ×ˢ second).countP fun p => p.1 == p.2 : ℕ) / 2

/-- The halves of all pairs, added up pair by pair. -/
theorem wins_eq_sum {β K : Type} [LinearOrder K] (key : β → K) (first second : List β) :
    wins key first second = ((first ×ˢ second).map fun p => halves (key p.1) (key p.2)).sum := by
  induction first with
  | nil => rfl
  | cons x rest ih =>
      have hcons : wins key (x :: rest) second = winsOver key (key x) second +
          wins key rest second := rfl
      rw [hcons, ih, List.product_cons, List.map_append, List.sum_append, List.map_map]
      rfl

variable {x y : Binary64}

theorem halves_numericKey (hx : x.isNaN = false) (hy : y.isNaN = false) :
    halves x.numericKey y.numericKey =
      2 * (if decide (y < x) = true then 1 else 0) + (if (x == y) = true then 1 else 0) := by
  have hlt : y < x ↔ y.numericKey < x.numericKey := by
    rw [Binary64.lt_iff, and_iff_right hy, and_iff_right hx]
  have hbeq : (x == y) = true ↔ x.numericKey = y.numericKey := by
    rw [Binary64.eq_iff, and_iff_right hx, and_iff_right hy]
  unfold halves
  simp only [decide_eq_true_eq, hlt, hbeq]
  by_cases h : y.numericKey < x.numericKey
  · rw [if_pos h, if_pos h, if_neg (ne_of_gt h)]
  · rw [if_neg h, if_neg h, mul_zero, zero_add]

/-- **The halves that a sample takes are twice the pairs that it wins.** -/
theorem cast_wins {first second : List Binary64}
    (hnumber : ∀ x ∈ first ++ second, x.isNaN = false) :
    (wins Binary64.numericKey first second : ℚ) = 2 * pairsWon first second := by
  have hpairs : ∀ p ∈ first ×ˢ second, p.1.isNaN = false ∧ p.2.isNaN = false := by
    intro p hp
    obtain ⟨h, h'⟩ := List.mem_product.mp hp
    exact ⟨hnumber _ (List.mem_append_left _ h), hnumber _ (List.mem_append_right _ h')⟩
  have hcount : ((first ×ˢ second).map fun p => halves p.1.numericKey p.2.numericKey).sum =
      2 * ((first ×ˢ second).countP fun p => decide (p.2 < p.1)) +
        (first ×ˢ second).countP fun p => p.1 == p.2 := by
    generalize first ×ˢ second = pairs at hpairs
    induction pairs with
    | nil => rfl
    | cons p rest ih =>
        obtain ⟨⟨hx, hy⟩, hrest⟩ := List.forall_mem_cons.mp hpairs
        rw [List.map_cons, List.sum_cons, ih hrest, halves_numericKey hx hy, List.countP_cons,
          List.countP_cons]
        ring
  rw [wins_eq_sum, hcount, pairsWon]
  push_cast
  ring

/-! ### The test -/

/-- Numbers are sorted by their place in the numeric order, and tied by it. -/
theorem orderedBy_numericKey {xs : List Binary64} (hnumber : ∀ x ∈ xs, x.isNaN = false) :
    OrderedBy Binary64.numericKey xs where
  trans := Binary64.totalLe_trans
  total := Binary64.totalLe_total
  le_of_totalLe _ _ _ _ := Binary64.numericKey_le_of_totalLe
  beq_iff x hx y hy := by
    rw [Binary64.eq_iff, and_iff_right (hnumber x hx), and_iff_right (hnumber y hy)]

section

variable [OpenFunctions]

/-- A count up to its mean has no deviation above zero. -/
theorem outcome_z_nonpos {n₁ n₂ won : Nat} (h : won ≤ n₁ * n₂) : (outcome n₁ n₂ won).z ≤ 0 := by
  have hwon : (won : ℚ) ≤ n₁ * n₂ := by exact_mod_cast h
  unfold outcome
  dsimp only
  split
  · rename_i hdeviation
    refine div_nonpos_of_nonpos_of_nonneg ?_ hdeviation.le
    linarith
  · exact le_refl 0

/-- The outcome of the test in terms of pairs. -/
structure RankTest.CountsPairs (first second : List Binary64) (t : RankTest ℚ) : Prop where
  /-- The count of the sample that wins fewer pairs. -/
  u_eq : t.u = min (pairsWon first second) (pairsWon second first)
  u_nonneg : 0 ≤ t.u
  u_le : t.u ≤ first.length * second.length / 2
  z_nonpos : t.z ≤ 0

theorem outcome_countsPairs {first second : List Binary64}
    (hnumber : ∀ x ∈ first ++ second, x.isNaN = false) :
    (outcome first.length second.length (min (wins Binary64.numericKey first second)
      (wins Binary64.numericKey second first))).CountsPairs first second := by
  have hnumber' : ∀ x ∈ second ++ first, x.isNaN = false := fun x hx =>
    hnumber x (List.mem_append.mpr (List.mem_append.mp hx).symm)
  have hwon : min (wins Binary64.numericKey first second) (wins Binary64.numericKey second first) ≤
      first.length * second.length := by
    have htotal : wins Binary64.numericKey first second + wins Binary64.numericKey second first =
        2 * (first.length * second.length) := wins_add_wins first second
    omega
  refine ⟨?_, ?_, ?_, outcome_z_nonpos hwon⟩
  · show ((min (wins Binary64.numericKey first second)
      (wins Binary64.numericKey second first) : ℕ) : ℚ) / 2 = _
    rw [Nat.cast_min, cast_wins hnumber, cast_wins hnumber', ← mul_min_of_nonneg _ _ two_pos.le,
      mul_div_cancel_left₀ _ two_ne_zero]
  · exact div_nonneg (Nat.cast_nonneg _) two_pos.le
  · exact div_le_div_of_nonneg_right (by exact_mod_cast hwon) two_pos.le

/--
**The test counts the pairs that the samples win.**

It has a result for any two samples of numbers, with or without ties, and the
result depends neither on which sample is the first nor on the order of the values.
-/
theorem ofSamples_countsPairs (first second : List Binary64) (hfirst : first ≠ [])
    (hsecond : second ≠ []) (hnumber : ∀ x ∈ first ++ second, x.isNaN = false) :
    (∃ t : RankTest ℚ, RankTest.ofSamples first second = some t ∧ t.CountsPairs first second) ∧
      (RankTest.ofSamples second first : Option (RankTest ℚ)) =
        RankTest.ofSamples first second ∧
      ∀ first' second', first.Perm first' → second.Perm second' →
        (RankTest.ofSamples first' second' : Option (RankTest ℚ)) =
          RankTest.ofSamples first second := by
  have hordered := orderedBy_numericKey hnumber
  refine ⟨⟨_, ?_, outcome_countsPairs hnumber⟩, ofSamples_comm hordered,
    fun first' second' h h' => (ofSamples_perm hordered h h').symm⟩
  rw [ofSamples_eq_outcome hordered, List.isEmpty_eq_false_iff.mpr hfirst,
    List.isEmpty_eq_false_iff.mpr hsecond]
  rfl

end

/-- Ties inside the first sample and across both, one of them between the zeros. -/
def tiedSamples : List Binary64 × List Binary64 :=
  ([.ofNat 1, .ofParts true 0, .ofNat 1, .infinity], [.ofNat 0, .ofNat 1, .negativeInfinity])

theorem ofSamples_tiedSamples :
    letI := OpenFunctions.rational
    tiedSamples.1 ≠ [] ∧ tiedSamples.2 ≠ [] ∧
    (∀ x ∈ tiedSamples.1 ++ tiedSamples.2, x.isNaN = false) ∧
    (∃ t : RankTest ℚ, RankTest.ofSamples tiedSamples.1 tiedSamples.2 = some t ∧
      t.CountsPairs tiedSamples.1 tiedSamples.2) ∧
    (RankTest.ofSamples tiedSamples.2 tiedSamples.1 : Option (RankTest ℚ)) =
      RankTest.ofSamples tiedSamples.1 tiedSamples.2 ∧
    ∀ first' second', tiedSamples.1.Perm first' → tiedSamples.2.Perm second' →
      (RankTest.ofSamples first' second' : Option (RankTest ℚ)) =
        RankTest.ofSamples tiedSamples.1 tiedSamples.2 := by
  let _ : OpenFunctions := OpenFunctions.rational
  have hfirst : tiedSamples.1 ≠ [] := List.cons_ne_nil _ _
  have hsecond : tiedSamples.2 ≠ [] := List.cons_ne_nil _ _
  have hnumber : ∀ x ∈ tiedSamples.1 ++ tiedSamples.2, x.isNaN = false := by decide +kernel
  exact ⟨hfirst, hsecond, hnumber, ofSamples_countsPairs _ _ hfirst hsecond hnumber⟩

example : pairsWon tiedSamples.1 tiedSamples.2 = 19 / 2 := by decide +kernel

end RunCompare.Stats
