/-
The rank test counts pairs.

In exact arithmetic the ranks are only a way of counting: the sum of the ranks
of the first sample, less what it would be on its own, is the number of pairs
that the first sample wins, ties as half a pair.  To stay with natural numbers
pairs are counted in halves (`wins`).

The samples themselves may be of any type.  `OrderedBy` is what is needed of
them: the sort puts them in the order of a key, and they are equal exactly if
their keys are.  `rankRuns_eq` is the induction over the runs of equal samples,
and `ofSamples_eq_outcome` the whole test, in which the two samples have the
same part.
-/
import RunCompare.Proofs.Exact
import RunCompare.Stats.RankTest
import Mathlib.Data.List.SplitBy
import Mathlib.Algebra.BigOperators.Group.List.Lemmas

namespace RunCompare.Stats

open Scalar

variable {β K : Type} [LinearOrder K]

/-! ### Pairs won -/

/-- The halves of a pair that go to its left side: both if it is greater, one if the sides are
level. -/
def halves (a b : K) : Nat := if b < a then 2 else if a = b then 1 else 0

/-- The halves that a value takes from samples. -/
def winsOver (key : β → K) (v : K) (xs : List β) : Nat := (xs.map fun x => halves v (key x)).sum

/-- The halves that the first sample takes in pairs with the second. -/
def wins (key : β → K) (first second : List β) : Nat :=
  (first.map fun x => winsOver key (key x) second).sum

theorem halves_add_halves (a b : K) : halves a b + halves b a = 2 := by
  unfold halves
  rcases lt_trichotomy a b with h | h | h
  · rw [if_neg (lt_asymm h), if_neg (ne_of_lt h), if_pos h]
  · rw [if_neg (by rw [h]; exact lt_irrefl b), if_pos h, if_neg (by rw [h]; exact lt_irrefl b),
      if_pos h.symm]
  · rw [if_pos h, if_neg (lt_asymm h), if_neg (ne_of_lt h)]

variable {key : β → K}

theorem winsOver_append (v : K) (xs ys : List β) :
    winsOver key v (xs ++ ys) = winsOver key v xs + winsOver key v ys := by
  unfold winsOver
  rw [List.map_append, List.sum_append]

theorem winsOver_perm (v : K) {xs ys : List β} (h : xs.Perm ys) :
    winsOver key v xs = winsOver key v ys := (h.map _).sum_nat

/-- What a value takes from samples of which each gives the same. -/
theorem winsOver_const {v : K} {n : Nat} {xs : List β} (h : ∀ x ∈ xs, halves v (key x) = n) :
    winsOver key v xs = xs.length * n := by
  unfold winsOver
  rw [List.map_congr_left h, List.map_const', List.sum_replicate_nat]

/-- Pairs are counted whatever the order of the samples. -/
theorem wins_perm {first first' second second' : List β} (h : first.Perm first')
    (h' : second.Perm second') : wins key first second = wins key first' second' := by
  unfold wins
  have hover : ∀ v, winsOver key v second = winsOver key v second' := fun v => winsOver_perm v h'
  simp only [hover]
  exact (h.map _).sum_nat

/-- Every pair is given away whole. -/
theorem wins_add_wins (first second : List β) :
    wins key first second + wins key second first = 2 * (first.length * second.length) := by
  induction first with
  | nil => simp [wins, winsOver]
  | cons x rest ih =>
      have hcons : ∀ ys : List β, wins key ys (x :: rest) =
          (ys.map fun y => halves (key y) (key x)).sum + wins key ys rest := by
        intro ys
        unfold wins winsOver
        rw [← List.sum_map_add]
        rfl
      have hpair : winsOver key (key x) second +
          (second.map fun y => halves (key y) (key x)).sum = second.length * 2 := by
        unfold winsOver
        rw [← List.sum_map_add]
        simp only [halves_add_halves, List.map_const', List.sum_replicate_nat]
      have hfirst : wins key (x :: rest) second = winsOver key (key x) second +
          wins key rest second := rfl
      rw [hfirst, hcons, List.length_cons]
      calc _ = (winsOver key (key x) second + (second.map fun y => halves (key y) (key x)).sum) +
            (wins key rest second + wins key second rest) := by omega
        _ = 2 * ((rest.length + 1) * second.length) := by rw [hpair, ih]; ring

theorem wins_self (xs : List β) : wins key xs xs = xs.length * xs.length := by
  have h : wins key xs xs + wins key xs xs = 2 * (xs.length * xs.length) := wins_add_wins xs xs
  omega

/-! ### Ranks -/

/-- Runs whose members have one key, each run below the next ones. -/
structure Tied (key : β → K) (runs : List (List (β × Bool))) : Prop where
  level : ∀ run ∈ runs, ∀ e ∈ run, ∀ e' ∈ run, key e.1 = key e'.1
  rising : runs.Pairwise fun run later => ∀ e ∈ run, ∀ e' ∈ later, key e.1 < key e'.1

/-- The rank that a value has after smaller samples and among others. -/
def rankAmong {α : Type} [Scalar α] (key : β → K) (start : Nat) (pooled : List (β × Bool)) (v : K) : α :=
  ((2 * start + winsOver (key ∘ Prod.fst) v pooled + 1 : Nat) : α) / ((2 : Nat) : α)

/-- **Each pooled sample has the rank that its pairs with the others give it.** -/
theorem rankRuns_eq {α : Type} [Scalar α] :
    ∀ {runs : List (List (β × Bool))} (start : Nat), Tied key runs →
      RankTest.rankRuns start runs =
        runs.flatten.map fun e => ((rankAmong key start runs.flatten (key e.1) : α), e.2) := by
  intro runs
  induction runs with
  | nil => intro start _; rfl
  | cons run rest ih =>
      intro start h
      obtain ⟨hbelow, hrising⟩ := List.pairwise_cons.mp h.rising
      have hrest : Tied key rest :=
        ⟨fun r hr => h.level r (List.mem_cons_of_mem _ hr), hrising⟩
      rw [RankTest.rankRuns, ih _ hrest, List.flatten_cons, List.map_append]
      refine congrArg₂ (· ++ ·) (List.map_congr_left fun e he => ?_) (List.map_congr_left fun e he => ?_)
      · -- Within the run all samples are level, and no later one is below them.
        have hrun : winsOver (key ∘ Prod.fst) (key e.1) run = run.length * 1 := by
          refine winsOver_const fun e' he' => ?_
          rw [halves, Function.comp_apply, h.level run List.mem_cons_self e he e' he',
            if_neg (lt_irrefl _), if_pos rfl]
        have hlater : winsOver (key ∘ Prod.fst) (key e.1) rest.flatten = rest.flatten.length * 0 := by
          refine winsOver_const fun e' he' => ?_
          obtain ⟨r, hr, he'⟩ := List.mem_flatten.mp he'
          have hlt := hbelow r hr e he e' he'
          rw [halves, Function.comp_apply, if_neg (lt_asymm hlt), if_neg (ne_of_lt hlt)]
        have hnat : start + 1 + (start + run.length) =
            2 * start + winsOver (key ∘ Prod.fst) (key e.1) (run ++ rest.flatten) + 1 := by
          rw [winsOver_append, hrun, hlater]
          omega
        rw [rankAmong, hnat]
      · -- A sample of a later run is above the whole run.
        obtain ⟨r, hr, he⟩ := List.mem_flatten.mp he
        have hrun : winsOver (key ∘ Prod.fst) (key e.1) run = run.length * 2 := by
          refine winsOver_const fun e' he' => ?_
          rw [halves, Function.comp_apply, if_pos (hbelow r hr e' he' e he)]
        have hnat : 2 * (start + run.length) + winsOver (key ∘ Prod.fst) (key e.1) rest.flatten + 1 =
            2 * start + winsOver (key ∘ Prod.fst) (key e.1) (run ++ rest.flatten) + 1 := by
          rw [winsOver_append, hrun]
          omega
        rw [rankAmong, rankAmong, hnat]

/-! ### Runs of equal samples -/

/-- Of a rising list the runs rise strictly if each begins with another key than the last ends. -/
theorem rising_of_isChain :
    ∀ {runs : List (List (β × Bool))},
      (∀ run ∈ runs, ∀ e ∈ run, ∀ e' ∈ run, key e.1 = key e'.1) →
      runs.flatten.Pairwise (fun e e' => key e.1 ≤ key e'.1) →
      runs.IsChain (fun run next => ∃ hrun hnext,
        key (run.getLast hrun).1 ≠ key (next.head hnext).1) →
      runs.Pairwise fun run later => ∀ e ∈ run, ∀ e' ∈ later, key e.1 < key e'.1 := by
  intro runs
  induction runs with
  | nil => intro _ _ _; exact List.Pairwise.nil
  | cons run rest ih =>
      intro level sorted chain
      cases rest with
      | nil => exact List.pairwise_singleton _ _
      | cons next more =>
          obtain ⟨⟨hrun, hnext, hne⟩, chain⟩ := List.isChain_cons_cons.mp chain
          rw [List.flatten_cons, List.pairwise_append] at sorted
          have hrest := ih (fun r hr => level r (List.mem_cons_of_mem _ hr)) sorted.2.1 chain
          have hstep : ∀ e ∈ run, ∀ e' ∈ next, key e.1 < key e'.1 := by
            intro e he e' he'
            have hlast := level run List.mem_cons_self e he _ (List.getLast_mem hrun)
            have hhead := level next (List.mem_cons_of_mem _ List.mem_cons_self) e' he' _
              (List.head_mem hnext)
            have hle : key e.1 ≤ key e'.1 :=
              sorted.2.2 e he e' (List.mem_flatten.mpr ⟨next, List.mem_cons_self, he'⟩)
            rw [hlast, hhead] at hle ⊢
            exact lt_of_le_of_ne hle hne
          refine List.pairwise_cons.mpr ⟨fun later hlater e he e' he' => ?_, hrest⟩
          rcases List.mem_cons.mp hlater with rfl | hmore
          · exact hstep e he e' he'
          · exact lt_trans (hstep e he _ (List.head_mem hnext))
              ((List.pairwise_cons.mp hrest).1 later hmore _ (List.head_mem hnext) e' he')

variable [Scalar β]

/-- Samples that sorting puts in the order of a key, and that are told apart by it. -/
structure OrderedBy (key : β → K) (xs : List β) : Prop where
  trans : ∀ x y z : β, totalLe x y = true → totalLe y z = true → totalLe x z = true
  total : ∀ x y : β, (totalLe x y || totalLe y x) = true
  le_of_totalLe : ∀ x ∈ xs, ∀ y ∈ xs, totalLe x y = true → key x ≤ key y
  beq_iff : ∀ x ∈ xs, ∀ y ∈ xs, (x == y) = true ↔ key x = key y

theorem OrderedBy.of_mem {xs ys : List β} (h : OrderedBy key xs) (hsub : ∀ y ∈ ys, y ∈ xs) :
    OrderedBy key ys where
  trans := h.trans
  total := h.total
  le_of_totalLe x hx y hy := h.le_of_totalLe x (hsub x hx) y (hsub y hy)
  beq_iff x hx y hy := h.beq_iff x (hsub x hx) y (hsub y hy)

theorem mem_pool {first second : List β} {e : β × Bool} (h : e ∈ RankTest.pool first second) :
    e.1 ∈ first ++ second := by
  have hmem : e ∈ first.map (·, true) ++ second.map (·, false) :=
    (List.mergeSort_perm _ _).mem_iff.mp h
  rcases List.mem_append.mp hmem with h | h
  · obtain ⟨x, hx, rfl⟩ := List.mem_map.mp h
    exact List.mem_append_left _ hx
  · obtain ⟨x, hx, rfl⟩ := List.mem_map.mp h
    exact List.mem_append_right _ hx

/-- **The pooled samples are cut into runs of one key each.** -/
theorem tied_tieRuns {first second : List β} (h : OrderedBy key (first ++ second)) :
    Tied key (RankTest.tieRuns (RankTest.pool first second)) := by
  have hmem : ∀ run ∈ RankTest.tieRuns (RankTest.pool first second), ∀ e ∈ run,
      e.1 ∈ first ++ second := by
    intro run hrun e he
    refine mem_pool ?_
    rw [← List.flatten_splitBy (fun a b => a.1 == b.1) (RankTest.pool first second)]
    exact List.mem_flatten.mpr ⟨run, hrun, he⟩
  have level : ∀ run ∈ RankTest.tieRuns (RankTest.pool first second), ∀ e ∈ run, ∀ e' ∈ run,
      key e.1 = key e'.1 := by
    intro run hrun
    have hchain : run.IsChain fun e e' => key e.1 = key e'.1 :=
      (List.isChain_of_mem_splitBy hrun).imp_of_mem_imp fun e e' he he' heq =>
        (h.beq_iff _ (hmem run hrun e he) _ (hmem run hrun e' he')).mp heq
    have hpairs : run.Pairwise fun e e' => key e.1 = key e'.1 := by
      have : IsTrans (β × Bool) fun e e' => key e.1 = key e'.1 := ⟨fun _ _ _ => Eq.trans⟩
      exact List.isChain_iff_pairwise.mp hchain
    intro e he e' he'
    have hself : ∀ e ∈ run, key e.1 = key e.1 := fun _ _ => rfl
    have : Std.Symm fun e e' : β × Bool => key e.1 = key e'.1 := ⟨fun _ _ => Eq.symm⟩
    exact hpairs.forall_of_forall hself he he'
  refine ⟨level, rising_of_isChain level ?_ ?_⟩
  · rw [RankTest.tieRuns, List.flatten_splitBy]
    have hsorted : (RankTest.pool first second).Pairwise fun a b => totalLe a.1 b.1 = true :=
      List.pairwise_mergeSort (fun a b c => h.trans a.1 b.1 c.1) (fun a b => h.total a.1 b.1) _
    exact hsorted.imp_of_mem fun ha hb hle => h.le_of_totalLe _ (mem_pool ha) _ (mem_pool hb) hle
  · refine (List.isChain_getLast_head_splitBy _ _).imp_of_mem_imp ?_
    rintro run next hrun hnext ⟨hr, hn, hfalse⟩
    refine ⟨hr, hn, fun heq => ?_⟩
    have htrue := (h.beq_iff _ (hmem run hrun _ (List.getLast_mem hr)) _
      (hmem next hnext _ (List.head_mem hn))).mpr heq
    rw [htrue] at hfalse
    cases hfalse

/-! ### The outcome -/

omit [Scalar β] in
/-- Half of what each of some values takes, and half of one for itself. -/
theorem sum_halves (first second xs : List β) :
    (xs.map fun x => (((0 + (winsOver key (key x) first + winsOver key (key x) second) + 1 : Nat) : ℚ) /
      ((2 : Nat) : ℚ))).sum =
      (wins key xs first + wins key xs second + xs.length : ℚ) / 2 := by
  induction xs with
  | nil => simp [wins]
  | cons x rest ih =>
      have hcons : ∀ ys, wins key (x :: rest) ys = winsOver key (key x) ys + wins key rest ys :=
        fun ys => rfl
      rw [List.map_cons, List.sum_cons, ih, hcons, hcons, List.length_cons]
      push_cast
      ring

variable [OpenFunctions]

/-- The ranks of the first sample add up to what they would be on their own and the pairs that
it wins. -/
theorem rankSum_eq {first second : List β} (h : OrderedBy key (first ++ second)) :
    (RankTest.rankSum first second : ℚ) =
      (first.length * (first.length + 1) + wins key first second : ℚ) / 2 := by
  have hranks : (RankTest.ranks first second : List (ℚ × Bool)) =
      (RankTest.pool first second).map fun e =>
        ((rankAmong key 0 (RankTest.pool first second) (key e.1) : ℚ), e.2) := by
    rw [RankTest.ranks, rankRuns_eq 0 (tied_tieRuns h), RankTest.tieRuns, List.flatten_splitBy]
  have hperm : (RankTest.pool first second).Perm (first.map (·, true) ++ second.map (·, false)) :=
    List.mergeSort_perm _ _
  have hrank : ∀ v, (rankAmong key 0 (RankTest.pool first second) v : ℚ) =
      ((0 + (winsOver key v first + winsOver key v second) + 1 : Nat) : ℚ) / ((2 : Nat) : ℚ) := by
    intro v
    have hmark : ∀ (mark : Bool) (xs : List β),
        winsOver (key ∘ Prod.fst) v (xs.map (·, mark)) = winsOver key v xs := by
      intro mark xs
      unfold winsOver
      rw [List.map_map]
      rfl
    rw [rankAmong, winsOver_perm v hperm, winsOver_append, hmark, hmark]
  have hfirst : ((RankTest.pool first second).filter (·.2)).Perm (first.map (·, true)) := by
    refine (hperm.filter (·.2)).trans (List.Perm.of_eq ?_)
    simp [List.filter_append, List.filter_map, Function.comp_def]
  unfold RankTest.rankSum
  rw [sum_eq, hranks, List.filter_map, List.map_map]
  refine ((hfirst.map _).sum_eq).trans ?_
  rw [List.map_map]
  simp only [Function.comp_def, hrank]
  rw [sum_halves, wins_self]
  push_cast
  ring

/-- The outcome for samples of some sizes, by the halves of pairs that the sample with the smaller
count takes. -/
def outcome (n₁ n₂ won : Nat) : RankTest ℚ :=
  let u : ℚ := won / 2
  let deviation := sqrt ((n₁ * n₂ * (n₁ + n₂ + 1) : ℚ) / 12)
  let z := if 0 < deviation then (u - n₁ * n₂ / 2) / deviation else 0
  { u, z, p := clamp 0 1 (2 * (1 - normalCdf |z|)) }

theorem outcome_comm (n₁ n₂ won : Nat) : outcome n₁ n₂ won = outcome n₂ n₁ won := by
  unfold outcome
  rw [mul_comm (n₁ : ℚ), add_comm (n₁ : ℚ)]

/-- **The test sees only the sizes of the samples and the pairs that each wins.** -/
theorem ofSamples_eq_outcome {first second : List β} (h : OrderedBy key (first ++ second)) :
    (RankTest.ofSamples first second : Option (RankTest ℚ)) =
      if first.isEmpty || second.isEmpty then none
      else some (outcome first.length second.length
        (min (wins key first second) (wins key second first))) := by
  have htotal : (wins key first second + wins key second first : ℚ) =
      2 * (first.length * second.length) := by exact_mod_cast wins_add_wins first second
  have hu : (RankTest.rankSum first second : ℚ) - first.length * (first.length + 1) / 2 =
      wins key first second / 2 := by
    rw [rankSum_eq h]
    ring
  have hu' : (first.length * second.length - wins key first second / 2 : ℚ) =
      wins key second first / 2 := by
    linarith
  have hmin : (if (wins key second first / 2 : ℚ) < wins key first second / 2 then
      (wins key second first / 2 : ℚ) else wins key first second / 2) =
      ((min (wins key first second) (wins key second first) : Nat) : ℚ) / 2 := by
    by_cases hlt : wins key second first < wins key first second
    · rw [min_eq_right hlt.le, if_pos]
      exact div_lt_div_of_pos_right (by exact_mod_cast hlt) two_pos
    · rw [min_eq_left (not_lt.mp hlt), if_neg]
      exact not_lt.mpr (div_le_div_of_nonneg_right (by exact_mod_cast not_lt.mp hlt) two_pos.le)
  unfold RankTest.ofSamples
  split
  · rfl
  · simp only [one_eq, zero_eq, Nat.cast_ofNat, hu, hu', hmin]
    rfl

/-- **The test does not depend on which sample is the first.** -/
theorem ofSamples_comm {first second : List β} (h : OrderedBy key (first ++ second)) :
    (RankTest.ofSamples second first : Option (RankTest ℚ)) =
      RankTest.ofSamples first second := by
  have h' : OrderedBy key (second ++ first) := h.of_mem fun y hy =>
    List.mem_append.mpr (List.mem_append.mp hy).symm
  rw [ofSamples_eq_outcome h, ofSamples_eq_outcome h', Bool.or_comm, outcome_comm, min_comm]

/-- **The test does not depend on the order of the samples.** -/
theorem ofSamples_perm {first first' second second' : List β}
    (hord : OrderedBy key (first ++ second)) (h : first.Perm first') (h' : second.Perm second') :
    (RankTest.ofSamples first second : Option (RankTest ℚ)) = RankTest.ofSamples first' second' := by
  have hord' : OrderedBy key (first' ++ second') :=
    hord.of_mem fun y hy => (h.append h').mem_iff.mpr hy
  rw [ofSamples_eq_outcome hord, ofSamples_eq_outcome hord', wins_perm h h', wins_perm h' h,
    h.length_eq, h'.length_eq, h.isEmpty_eq, h'.isEmpty_eq]

/-- Rationals are in the order of themselves. -/
theorem orderedBy_id (xs : List ℚ) : OrderedBy (id : ℚ → ℚ) xs where
  trans := totalLe_trans
  total := totalLe_total
  le_of_totalLe _ _ _ _ h := totalLe_iff.mp h
  beq_iff _ _ _ _ := beq_iff_eq

/-- **The test sees the order of the samples only.** -/
theorem ofSamples_map {f : ℚ → ℚ} (hf : StrictMono f) (first second : List ℚ) :
    (RankTest.ofSamples (first.map f) (second.map f) : Option (RankTest ℚ)) =
      RankTest.ofSamples first second := by
  have hhalves : ∀ x y, halves (f x) (f y) = halves x y := by
    intro x y
    unfold halves
    simp only [hf.lt_iff_lt, hf.injective.eq_iff]
  have hwins : ∀ xs ys : List ℚ, wins id (xs.map f) (ys.map f) = wins id xs ys := by
    intro xs ys
    unfold wins winsOver
    simp only [List.map_map, Function.comp_def, id_eq, hhalves]
  rw [ofSamples_eq_outcome (orderedBy_id _), ofSamples_eq_outcome (orderedBy_id _), hwins, hwins,
    List.length_map, List.length_map, List.isEmpty_map, List.isEmpty_map]

end RunCompare.Stats
