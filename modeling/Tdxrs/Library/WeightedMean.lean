import Mathlib.Algebra.BigOperators.Ring.List
import Mathlib.Algebra.Order.BigOperators.Group.List
import Mathlib.Algebra.Order.Field.Basic
import Mathlib.Tactic.Ring

set_option relaxedAutoImplicit false
set_option autoImplicit false

/-!
# Weighted means

The mean of the values of a list, each with its weight. Where no weight is negative and not all of
them are zero, the mean is between the least and the greatest value.

## Main definitions

* `WeightedMean.total`, `WeightedMean.mean` — the sum of the weights, and the mean.

## Main results

* `WeightedMean.exists_le_mean`, `WeightedMean.exists_mean_le` — the mean is between two of the
  values.
-/

namespace WeightedMean

variable {α K : Type*} [Field K] (value weight : α → K)

/-- The sum of the weights. -/
def total (l : List α) : K := (l.map weight).sum

/-- The sum of the values, each times its weight. -/
def weighted (l : List α) : K := (l.map fun a => value a * weight a).sum

/-- The mean of the values. -/
def mean (l : List α) : K := weighted value weight l / total weight l

@[simp] lemma total_append (l l' : List α) :
    total weight (l ++ l') = total weight l + total weight l' := by
  rw [total, List.map_append, List.sum_append, total, total]

@[simp] lemma total_singleton (a : α) : total weight [a] = weight a := by
  rw [total, List.map_singleton, List.sum_singleton]

@[simp] lemma weighted_append (l l' : List α) :
    weighted value weight (l ++ l') = weighted value weight l + weighted value weight l' := by
  rw [weighted, List.map_append, List.sum_append, weighted, weighted]

@[simp] lemma weighted_singleton (a : α) : weighted value weight [a] = value a * weight a := by
  rw [weighted, List.map_singleton, List.sum_singleton]

lemma mean_neg (l : List α) : mean (fun a => -value a) weight l = -mean value weight l := by
  have hsum : weighted (fun a => -value a) weight l = -weighted value weight l := by
    induction l with
    | nil => simp [weighted]
    | cons a l ih =>
      rw [← List.singleton_append, weighted_append, weighted_append, ih, weighted_singleton,
        weighted_singleton]
      ring
  rw [mean, hsum, neg_div, mean]

variable {value weight} [LinearOrder K] [IsStrictOrderedRing K] {l : List α}

/-- **The mean is not less than all values.** Otherwise replacing every value by the mean would make
the sum smaller, but it is the sum. -/
theorem exists_le_mean (hweight : ∀ a ∈ l, 0 ≤ weight a) (htotal : 0 < total weight l) :
    ∃ a ∈ l, value a ≤ mean value weight l := by
  by_contra! hless
  have hsome : ∃ a ∈ l, 0 < weight a := by
    refine List.exists_lt_of_sum_lt (fun _ => 0) weight ?_
    rw [List.map_const', List.sum_replicate, nsmul_zero]
    exact htotal
  obtain ⟨a, ha, hpos⟩ := hsome
  have hlt : (l.map fun a => mean value weight l * weight a).sum < weighted value weight l :=
    List.sum_lt_sum _ _
      (fun b hb => mul_le_mul_of_nonneg_right (hless b hb).le (hweight b hb))
      ⟨a, ha, mul_lt_mul_of_pos_right (hless a ha) hpos⟩
  have hsum : (l.map fun a => mean value weight l * weight a).sum = weighted value weight l := by
    rw [List.sum_map_mul_left]
    exact div_mul_cancel₀ _ htotal.ne'
  exact hlt.ne hsum

/-- **The mean is not greater than all values.** -/
theorem exists_mean_le (hweight : ∀ a ∈ l, 0 ≤ weight a) (htotal : 0 < total weight l) :
    ∃ a ∈ l, mean value weight l ≤ value a := by
  obtain ⟨a, ha, hle⟩ : ∃ a ∈ l, -value a ≤ mean (fun a => -value a) weight l :=
    exists_le_mean hweight htotal
  rw [mean_neg] at hle
  exact ⟨a, ha, neg_le_neg_iff.mp hle⟩

end WeightedMean
