import Mathlib.Algebra.Order.Field.Power
import Mathlib.Order.Monotone.Basic
import Mathlib.Tactic.FieldSimp
import Mathlib.Tactic.Linarith
import Mathlib.Tactic.Positivity
import Mathlib.Tactic.Ring

set_option relaxedAutoImplicit false
set_option autoImplicit false

/-!
# Words that stand for binary floating-point numbers

A word holds an exponent above `p` bits of mantissa. It stands for a power of two times a number
from one on and below two, the mantissa being what is behind the leading one. There is no sign, and
no exponent is taken out for small numbers or for infinity.

## Main definitions

* `BinaryFloat.value` — the number that a word stands for.

## Main results

* `BinaryFloat.value_eq_mul` — the number as a whole mantissa times a power of two.
* `BinaryFloat.value_strictMono` — numbers are in the order of their words.
-/

namespace BinaryFloat

variable {α : Type*} [Field α] [LinearOrder α] [IsStrictOrderedRing α]

/-- The number that a word with `p` bits of mantissa stands for. -/
def value (p : ℕ) (bias : ℤ) (word : ℕ) : α :=
  2 ^ (((word / 2 ^ p : ℕ) : ℤ) - bias) * (1 + ((word % 2 ^ p : ℕ) : α) / 2 ^ p)

/-- The mantissa with the leading one, as a whole number. -/
lemma value_eq_mul (p : ℕ) (bias : ℤ) (word : ℕ) :
    (value p bias word : α) =
      (2 ^ p + (word % 2 ^ p : ℕ)) * 2 ^ (((word / 2 ^ p : ℕ) : ℤ) - bias - p) := by
  rw [value, zpow_sub₀ (two_ne_zero : (2 : α) ≠ 0) _ (p : ℤ), zpow_natCast]
  field_simp

/-- The next word with the same exponent, or the first one with the next exponent. -/
lemma succ_cases (p word : ℕ) :
    ((word + 1) / 2 ^ p = word / 2 ^ p ∧ (word + 1) % 2 ^ p = word % 2 ^ p + 1) ∨
      (word + 1) / 2 ^ p = word / 2 ^ p + 1 ∧ (word + 1) % 2 ^ p = 0 := by
  have hpos : 0 < 2 ^ p := Nat.two_pow_pos p
  have hlt := Nat.mod_lt word hpos
  have hsplit := Nat.mod_add_div word (2 ^ p)
  by_cases hroom : word % 2 ^ p + 1 < 2 ^ p
  · exact .inl ((Nat.div_mod_unique hpos).mpr ⟨by omega, hroom⟩)
  · refine .inr ((Nat.div_mod_unique hpos).mpr ⟨?_, hpos⟩)
    rw [Nat.mul_succ]
    omega

/-- **The next word stands for a greater number**: the mantissa is greater, or it was the greatest
one and the exponent is greater.

**Proof sketch.** By `succ_cases` the next word has either the same exponent and a greater mantissa,
or the next exponent and the mantissa zero. In the first case the factor `1 + mantissa / 2 ^ p`
grows; in the second it was below two, and the power of two doubles. -/
lemma value_lt_succ (p : ℕ) (bias : ℤ) (word : ℕ) :
    (value p bias word : α) < value p bias (word + 1) := by
  have hpow : (0 : α) < 2 ^ p := by positivity
  rw [value, value]
  rcases succ_cases p word with ⟨hexponent, hmantissa⟩ | ⟨hexponent, hmantissa⟩
  · rw [hexponent, hmantissa]
    gcongr
    exact Nat.lt_succ_self _
  · have hbelow : (((word % 2 ^ p : ℕ) : α)) / 2 ^ p < 1 := by
      rw [div_lt_one hpow]
      exact_mod_cast Nat.mod_lt word (Nat.two_pow_pos p)
    have hnext : (((word / 2 ^ p + 1 : ℕ) : ℤ) - bias) = ((word / 2 ^ p : ℕ) : ℤ) - bias + 1 := by
      push_cast
      ring
    rw [hexponent, hmantissa, hnext, zpow_add_one₀ two_ne_zero, Nat.cast_zero, zero_div, add_zero,
      mul_one]
    gcongr
    linarith

/-- **Numbers are in the order of their words.** -/
theorem value_strictMono (p : ℕ) (bias : ℤ) : StrictMono (value p bias : ℕ → α) :=
  strictMono_nat_of_lt_succ (value_lt_succ p bias)

end BinaryFloat
