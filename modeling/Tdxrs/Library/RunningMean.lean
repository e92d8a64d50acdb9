import Mathlib.Algebra.GroupWithZero.Nat
import Mathlib.Algebra.BigOperators.Group.List.Basic
import Mathlib.Data.Nat.Notation

set_option relaxedAutoImplicit false
set_option autoImplicit false

/-!
# The mean of a growing list

The mean of natural numbers, rounded down, can be updated from the one before and from how many
numbers there were. What was rounded off before is lost, and the update gives the new mean only if
this does not matter.

## Main definitions

* `RunningMean.mean` — the mean, rounded down.
* `RunningMean.update` — the mean from the one before.

## Main results

* `RunningMean.update_mean_eq_iff` — when the update is the mean.
-/

namespace RunningMean

/-- The mean of natural numbers, rounded down; 0 if there are none. -/
def mean (l : List ℕ) : ℕ := l.sum / l.length

/-- The mean of one number more, from the mean of `n` numbers. -/
def update (mean n x : ℕ) : ℕ := (mean * n + x) / (n + 1)

@[simp] lemma mean_nil : mean [] = 0 := Nat.zero_div _

/-- The sum that the mean stands for. -/
lemma mean_mul_length (l : List ℕ) : mean l * l.length = l.sum - l.sum % l.length := by
  have hsplit := Nat.mod_add_div l.sum l.length
  rw [mean, Nat.mul_comm]
  omega

/-- Taking off no more than the remainder does not change a quotient. -/
lemma sub_div_eq_iff {a b r : ℕ} (hr : r ≤ a) (hb : 0 < b) :
    (a - r) / b = a / b ↔ r ≤ a % b := by
  have hsplit := Nat.mod_add_div a b
  have hmod := Nat.mod_lt a hb
  constructor
  · intro h
    have hle := Nat.mul_div_le (a - r) b
    rw [h] at hle
    omega
  · intro h
    have hrest : a - r = (a % b - r) + b * (a / b) := by omega
    rw [hrest, Nat.add_mul_div_left _ _ hb, Nat.div_eq_of_lt (by omega), Nat.zero_add]

/-- **When the update is the mean**: what was rounded off is no more than what is rounded off
now. -/
theorem update_mean_eq_iff (l : List ℕ) (x : ℕ) :
    update (mean l) l.length x = mean (l ++ [x]) ↔
      l.sum % l.length ≤ (l.sum + x) % (l.length + 1) := by
  have hmod := Nat.mod_le l.sum l.length
  have hsum : l.sum - l.sum % l.length + x = l.sum + x - l.sum % l.length := by omega
  rw [update, mean_mul_length, hsum, mean, List.sum_append, List.sum_singleton, List.length_append,
    List.length_singleton]
  exact sub_div_eq_iff (by omega) (Nat.succ_pos _)

end RunningMean
