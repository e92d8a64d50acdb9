import Tdxrs.Library.BinaryFloat
import Tdxrs.Protocol.Parsers

set_option relaxedAutoImplicit false
set_option autoImplicit false

/-!
# Volume words

`get_volume` of `src/helpers.rs` puts a number together from the four bytes of a word. What it gives
is the number that the word stands for with eight bits of exponent and more, and 23 bits of
mantissa: where the word is a normal number of single precision without a sign, it is this number.

## Main results

* `Tdxrs.getVolume_eq_value` — a volume as a binary floating-point number.
* `Tdxrs.ofBits_eq_getVolume_iff` — the words whose volume is the number in single precision.
* `Tdxrs.volume_word_value` — value, order and single precision together.
-/

namespace Tdxrs

/-! ## The four bytes -/

/-- A branch for negative exponents gives the power of two all the same. -/
lemma ite_zpow_neg (e : ℤ) {p : Prop} [Decidable p] :
    (if p then (1 : ℚ) / 2 ^ (-e) else 2 ^ e) = 2 ^ e := by
  split
  · rw [zpow_neg, one_div, inv_inv]
  · rfl

/-- The same for a branch with a factor. -/
lemma ite_zpow_neg_mul (e : ℤ) (x : ℚ) {p : Prop} [Decidable p] :
    (if p then 2 ^ e * x else 1 / 2 ^ (-e) * x) = 2 ^ e * x := by
  split
  · rfl
  · rw [zpow_neg, one_div, inv_inv]

/-- The part of a volume that comes from the third byte: its high bit counts as much as the leading
one. -/
lemma third_byte (e : ℤ) (hleax : ℕ) :
    (if 0x80 < hleax then (2 : ℚ) ^ e * 128 + ((hleax % 128 : ℕ) : ℚ) * 2 ^ (e + 1)
      else 2 ^ e * hleax) =
      if 128 ≤ hleax then (2 : ℚ) ^ e * (128 + 2 * (hleax % 128 : ℕ))
      else 2 ^ e * (hleax % 128 : ℕ) := by
  rw [zpow_add_one₀ two_ne_zero]
  rcases Nat.lt_trichotomy hleax 128 with hlow | rfl | hhigh
  · rw [if_neg (by omega), if_neg (by omega), Nat.mod_eq_of_lt hlow]
  · norm_num
  · rw [if_pos hhigh, if_pos hhigh.le]
    ring

/-- **A volume is a binary floating-point number** with 23 bits of mantissa.

**Proof sketch.** All the powers of two of the code are multiples of the one of the lowest byte. The
bytes below the exponent, without the highest bit, are the mantissa; that bit is the lowest of the
exponent, and the two branches of the code for it double the number when it is set. -/
theorem getVolume_eq_value {vol : ℕ} (hvol : vol ≠ 0) :
    getVolume vol = BinaryFloat.value 23 127 vol := by
  have hpow (e : ℤ) (k : ℕ) : (2 : ℚ) ^ (e + k) = 2 ^ e * 2 ^ k := by
    rw [zpow_add₀ two_ne_zero, zpow_natCast]
  rw [BinaryFloat.value_eq_mul, getVolume, if_neg hvol]
  simp only [ite_zpow_neg, ite_zpow_neg_mul, third_byte]
  -- all powers of two by the one of the lowest byte
  generalize hlowest : ((vol / 2 ^ 24 : ℕ) : ℤ) * 2 - 0x96 = lowest
  have hsi : ((vol / 2 ^ 24 : ℕ) : ℤ) * 2 - 0x8E = lowest + (8 : ℕ) := by omega
  have hdx : ((vol / 2 ^ 24 : ℕ) : ℤ) * 2 - 0x86 = lowest + (16 : ℕ) := by omega
  have hcx : ((vol / 2 ^ 24 : ℕ) : ℤ) * 2 - 0x7F = lowest + (23 : ℕ) := by omega
  rw [hsi, hdx, hcx, hpow, hpow, hpow]
  have hmantissa : vol % 2 ^ 23 =
      vol / 2 ^ 16 % 256 % 128 * 2 ^ 16 + vol / 2 ^ 8 % 256 * 2 ^ 8 + vol % 256 := by omega
  rw [hmantissa]
  by_cases hhigh : 128 ≤ vol / 2 ^ 16 % 256
  · have hexponent : ((vol / 2 ^ 23 : ℕ) : ℤ) - 127 - (23 : ℕ) = lowest + (1 : ℕ) := by omega
    rw [if_pos hhigh, if_pos hhigh, hexponent, hpow]
    push_cast
    ring
  · have hexponent : ((vol / 2 ^ 23 : ℕ) : ℤ) - 127 - (23 : ℕ) = lowest := by omega
    rw [if_neg hhigh, if_neg hhigh, hexponent]
    push_cast
    ring

/-! ## Single precision -/

/-- A volume is not negative, and only the word zero stands for zero. -/
lemma getVolume_pos {vol : ℕ} (hvol : vol ≠ 0) : 0 < getVolume vol := by
  rw [getVolume_eq_value hvol, BinaryFloat.value]
  positivity

/-- **The words whose volume is the number in single precision**: zero, and the words without a sign
that are neither subnormal nor infinite. A subnormal word has no leading one, and a word with a sign
stands for a negative number.

**Proof sketch.** Without a sign the word has the same mantissa and exponent in both readings
(`getVolume_eq_value`), unless its exponent is the greatest one, which in single precision is no
number, or zero, where in single precision the leading one is missing: equality would need a
mantissa of one. With a sign the number in single precision is not positive, and a volume is. -/
theorem ofBits_eq_getVolume_iff {vol : ℕ} (hword : vol < 2 ^ 32) :
    Single.ofBits vol = .finite (getVolume vol) ↔
      vol = 0 ∨ 1 ≤ vol / 2 ^ 23 ∧ vol / 2 ^ 23 ≤ 254 := by
  rcases Nat.eq_zero_or_pos vol with rfl | hpos
  · simp [Single.ofBits, getVolume]
  have hvol := hpos.ne'
  rw [or_iff_right hvol]
  rcases Nat.lt_or_ge vol (2 ^ 31) with hsign | hsign
  · have hclear : ¬ vol / 2 ^ 31 % 2 = 1 := by omega
    have hfield : vol / 2 ^ 23 % 256 = vol / 2 ^ 23 := by omega
    simp only [Single.ofBits, beq_iff_eq, hclear, if_false, hfield, one_mul]
    rw [getVolume_eq_value hvol, BinaryFloat.value_eq_mul]
    by_cases hinfinite : vol / 2 ^ 23 = 255
    · rw [if_pos hinfinite]
      refine iff_of_false (fun h => ?_) (by omega)
      split at h <;> exact nomatch h
    · rw [if_neg hinfinite]
      by_cases hsubnormal : vol / 2 ^ 23 = 0
      · rw [if_pos hsubnormal, hsubnormal]
        refine iff_of_false (fun h => ?_) (by omega)
        -- without the leading one the mantissa would have to be the leading one
        have hmantissa : ((vol % 2 ^ 23 : ℕ) : ℚ) < 8388608 := by
          exact_mod_cast Nat.mod_lt vol (by decide : 0 < 2 ^ 23)
        have hvalue := Single.finite.inj h
        generalize ((vol % 2 ^ 23 : ℕ) : ℚ) = mantissa at hmantissa hvalue
        norm_num at hvalue
        linarith
      · rw [if_neg hsubnormal]
        refine iff_of_true (congrArg Single.finite ?_) (by omega)
        have hexponent : ((vol / 2 ^ 23 : ℕ) : ℤ) - 127 - (23 : ℕ) =
            ((vol / 2 ^ 23 : ℕ) : ℤ) - 150 := by omega
        rw [hexponent]
  · have hset : vol / 2 ^ 31 % 2 = 1 := by omega
    refine iff_of_false (fun h => ?_) (by omega)
    have hpositive := getVolume_pos hvol
    simp only [Single.ofBits, beq_iff_eq, hset, if_true] at h
    split at h
    · split at h <;> exact nomatch h
    · split at h <;> rw [← Single.finite.inj h] at hpositive
      · have hmantissa : (0 : ℚ) ≤ (vol % 2 ^ 23 : ℕ) / 2 ^ 149 := by positivity
        linarith
      · have hnormal : (0 : ℚ) ≤ (2 ^ 23 + (vol % 2 ^ 23 : ℕ)) *
            2 ^ (((vol / 2 ^ 23 % 256 : ℕ) : ℤ) - 150) := by positivity
        linarith

/-- **The value of a volume word**: for every word but zero, with what is above its 23 low bits as
the exponent and these as the mantissa. So volumes are in the order of their words, and where a word
has no sign and its exponent is the one of a normal number, its volume is the number in single
precision.

**Proof sketch.** The third byte has the lowest bit of the exponent and seven bits of the mantissa.
If its high bit is set, the leading one counts twice, which the code adds as 128 units of the byte,
and the mantissa counts twice as well. -/
theorem volume_word_value {v : ℕ} (hv : v ≠ 0) :
    getVolume v = 2 ^ (((v / 2 ^ 23 : ℕ) : ℤ) - 127) * (1 + ((v % 2 ^ 23 : ℕ) : ℚ) / 2 ^ 23) ∧
      (∀ w, v < w → getVolume v < getVolume w) ∧
      (v < 2 ^ 31 → 1 ≤ v / 2 ^ 23 → v / 2 ^ 23 ≤ 254 →
        Single.ofBits v = .finite (getVolume v)) := by
  refine ⟨getVolume_eq_value hv, fun w hw => ?_, fun hsign hone hle => ?_⟩
  · rw [getVolume_eq_value hv, getVolume_eq_value (Nat.zero_lt_of_lt hw).ne']
    exact BinaryFloat.value_strictMono 23 127 hw
  · exact (ofBits_eq_getVolume_iff (hsign.trans (by decide))).mpr (.inr ⟨hone, hle⟩)

/-- The word of 1 in single precision, and the one of 1.5. -/
theorem volume_word_value_one : Single.ofBits 0x3F800000 = .finite (getVolume 0x3F800000) ∧
    getVolume 0x3F800000 < getVolume 0x3FC00000 :=
  have h := volume_word_value (v := 0x3F800000) (by decide)
  ⟨h.2.2 (by decide) (by decide) (by decide), h.2.1 _ (by decide)⟩

end Tdxrs
