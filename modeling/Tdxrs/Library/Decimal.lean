import Mathlib.Data.List.Basic
import Mathlib.Data.Nat.Notation
import Mathlib.Data.Rat.Floor
import Mathlib.Order.Basic

set_option relaxedAutoImplicit false
set_option autoImplicit false

/-!
# Decimal texts

`pad w n` is the decimal text of `n`, filled up with zeros on the left to `w` characters, and
`parse` reads a text of digits. Texts are lists of characters. Texts of one length are in the
order of the numbers they stand for, which is why dates of fixed width can be compared as texts.

## Main definitions

* `Decimal.pad` — the zero-padded decimal text of a number.
* `Decimal.parse` — the number that a text of digits stands for.
* `Decimal.roundHalfEven`, `Decimal.fixed` — a rational number with a number of decimal places.

## Main results

* `Decimal.parse_pad` — reading a padded number.
* `Decimal.pad_lt_pad_iff` — padded numbers are in the order of the numbers.
* `Decimal.append_lt_append_iff`, `Decimal.pad_append_lt_iff` — the order of texts whose first
  parts have one length.
* `Decimal.pad_add` — the text of a number that is put together from two.
* `Decimal.toDigits_eq_append` — the text of a number, cut before its last digits.
* `Decimal.roundHalfEven_div`, `Decimal.leftpad_fixed` — rounding a fraction, and its padded text.
-/

namespace Decimal

/-- The decimal text of `n`, filled up with zeros on the left to `w` characters. -/
def pad (w n : ℕ) : List Char := (Nat.toDigits 10 n).leftpad w '0'

/-- The number that a text of digits stands for; `none` for other texts. -/
def parse (s : List Char) : Option ℕ :=
  if s ≠ [] ∧ s.all Char.isDigit then some (Nat.ofDigitChars 10 s 0) else none

/-- A number rounded to an integer, halves to the even one. -/
def roundHalfEven (q : ℚ) : ℤ :=
  if Int.fract q < 1 / 2 ∨ Int.fract q = 1 / 2 ∧ ⌊q⌋ % 2 = 0 then ⌊q⌋ else ⌊q⌋ + 1

/-- The text of an integer. -/
def integer (z : ℤ) : List Char :=
  if z < 0 then '-' :: Nat.toDigits 10 z.natAbs else Nat.toDigits 10 z.natAbs

/-- The text of a number with a number of decimal places. -/
def fixed (places : ℕ) (q : ℚ) : List Char :=
  let n := (roundHalfEven (|q| * 10 ^ places)).natAbs
  let text := Nat.toDigits 10 (n / 10 ^ places) ++ '.' :: pad places (n % 10 ^ places)
  if q < 0 then '-' :: text else text

/-! ## Padded numbers -/

/-- A number of at most `w` digits fills `w` characters. -/
lemma length_pad {w n : ℕ} (hw : 0 < w) (h : n < 10 ^ w) : (pad w n).length = w := by
  have hlen := (Nat.length_toDigits_le_iff (by decide : 1 < 10) hw).mpr h
  rw [pad, List.length_leftpad]
  omega

/-- Padded numbers are texts of digits. -/
lemma isDigit_of_mem_pad {w n : ℕ} {c : Char} (h : c ∈ pad w n) : c.isDigit := by
  rw [pad, List.leftpad, List.mem_append] at h
  rcases h with h | h
  · rw [(List.mem_replicate.mp h).2]
    decide
  · exact Nat.isDigit_of_mem_toDigits (by decide) (by decide) h

/-- The value of a padded number. -/
lemma ofDigitChars_pad (w n : ℕ) : Nat.ofDigitChars 10 (pad w n) 0 = n := by
  rw [pad, List.leftpad, Nat.ofDigitChars_append, Nat.ofDigitChars_replicate_zero, Nat.mul_zero,
    Nat.ofDigitChars_ten_toDigits]

/-- **Reading a padded number** gives it back. -/
theorem parse_pad (w n : ℕ) : parse (pad w n) = some n := by
  have hne : pad w n ≠ [] := by
    rw [pad, List.leftpad]
    simp
  rw [parse, if_pos ⟨hne, List.all_eq_true.mpr fun c hc => isDigit_of_mem_pad hc⟩,
    ofDigitChars_pad]

/-- Padded numbers of one width are different for different numbers. -/
lemma pad_inj {w m n : ℕ} (h : pad w m = pad w n) : m = n := by
  rw [← ofDigitChars_pad w m, h, ofDigitChars_pad]

/-! ## The order of texts -/

/-- The value of a digit. -/
lemma toNat_of_isDigit {c : Char} (h : c.isDigit) : 48 ≤ c.toNat ∧ c.toNat ≤ 57 := by
  simp only [Char.isDigit, Bool.and_eq_true, decide_eq_true_eq, UInt32.le_iff_toNat_le] at h
  exact h

/-- The value of a text of digits, by its first digit. -/
lemma ofDigitChars_cons_eq (c : Char) (s : List Char) :
    Nat.ofDigitChars 10 (c :: s) 0 =
      10 ^ s.length * (c.toNat - 48) + Nat.ofDigitChars 10 s 0 := by
  rw [Nat.ofDigitChars_cons, Nat.ofDigitChars_eq_ofDigitChars_zero, Nat.mul_zero, Nat.zero_add]
  rfl

/-- A text of digits stands for a number below the power of its length. -/
lemma ofDigitChars_lt {s : List Char} (h : ∀ c ∈ s, c.isDigit) :
    Nat.ofDigitChars 10 s 0 < 10 ^ s.length := by
  induction s with
  | nil => simp [Nat.ofDigitChars_nil]
  | cons c s ih =>
    have hc := toNat_of_isDigit (h c List.mem_cons_self)
    have hs := ih fun c' hc' => h c' (List.mem_cons_of_mem _ hc')
    have hmul : 10 ^ s.length * (c.toNat - 48) ≤ 10 ^ s.length * 9 :=
      Nat.mul_le_mul_left _ (by omega)
    rw [ofDigitChars_cons_eq, List.length_cons, pow_succ]
    omega

/-- Texts of as many digits are in the order of the numbers they stand for.

**Proof sketch.** Induction on the first text. What stands behind the first digit is less than one
in the place of that digit (`ofDigitChars_lt`), so the first digits decide when they differ; when
they are equal, the induction hypothesis decides. -/
lemma lt_iff_ofDigitChars_lt {a b : List Char} (hlen : a.length = b.length)
    (ha : ∀ c ∈ a, c.isDigit) (hb : ∀ c ∈ b, c.isDigit) :
    a < b ↔ Nat.ofDigitChars 10 a 0 < Nat.ofDigitChars 10 b 0 := by
  induction a generalizing b with
  | nil =>
    obtain rfl := List.length_eq_zero_iff.mp hlen.symm
    simp
  | cons x a ih =>
    obtain ⟨y, b, rfl⟩ := List.exists_cons_of_length_pos (by rw [← hlen]; simp : 0 < b.length)
    have hlen : a.length = b.length := by simpa using hlen
    have ha' := fun c hc => ha c (List.mem_cons_of_mem _ hc)
    have hb' := fun c hc => hb c (List.mem_cons_of_mem _ hc)
    have hx := toNat_of_isDigit (ha x List.mem_cons_self)
    have hy := toNat_of_isDigit (hb y List.mem_cons_self)
    have hlta := ofDigitChars_lt ha'
    have hltb := ofDigitChars_lt hb'
    rw [List.cons_lt_cons_iff, ih hlen ha' hb', ofDigitChars_cons_eq, ofDigitChars_cons_eq, hlen]
    rw [hlen] at hlta
    have hxy : x < y ↔ x.toNat < y.toNat := Iff.rfl
    rcases Nat.lt_trichotomy x.toNat y.toNat with h | h | h
    · have hstep : 10 ^ b.length * (x.toNat - 48) + 10 ^ b.length ≤
          10 ^ b.length * (y.toNat - 48) := by
        rw [← Nat.mul_succ]
        exact Nat.mul_le_mul_left _ (by omega)
      exact iff_of_true (.inl (hxy.mpr h)) (by omega)
    · have heq : x = y := Char.toNat_inj.mp h
      subst heq
      simp
    · have hstep : 10 ^ b.length * (y.toNat - 48) + 10 ^ b.length ≤
          10 ^ b.length * (x.toNat - 48) := by
        rw [← Nat.mul_succ]
        exact Nat.mul_le_mul_left _ (by omega)
      refine iff_of_false ?_ (by omega)
      rintro (hlt | ⟨rfl, -⟩)
      · have := hxy.mp hlt
        omega
      · omega

/-- **Padded numbers are in the order of the numbers.** -/
theorem pad_lt_pad_iff {w m n : ℕ} (hw : 0 < w) (hm : m < 10 ^ w) (hn : n < 10 ^ w) :
    pad w m < pad w n ↔ m < n := by
  rw [lt_iff_ofDigitChars_lt ((length_pad hw hm).trans (length_pad hw hn).symm)
    (fun _ => isDigit_of_mem_pad) (fun _ => isDigit_of_mem_pad), ofDigitChars_pad,
    ofDigitChars_pad]

/-- Texts of as many digits are the same when they stand for the same number. -/
lemma eq_of_ofDigitChars_eq {a b : List Char} (hlen : a.length = b.length)
    (ha : ∀ c ∈ a, c.isDigit) (hb : ∀ c ∈ b, c.isDigit)
    (h : Nat.ofDigitChars 10 a 0 = Nat.ofDigitChars 10 b 0) : a = b := by
  have hab : ¬ a < b := fun hlt => ((lt_iff_ofDigitChars_lt hlen ha hb).mp hlt).ne h
  have hba : ¬ b < a := fun hlt => ((lt_iff_ofDigitChars_lt hlen.symm hb ha).mp hlt).ne' h
  exact List.le_antisymm hba hab

/-- The order of texts whose first parts have one length. -/
theorem append_lt_append_iff {a b c d : List Char} (h : a.length = b.length) :
    a ++ c < b ++ d ↔ a < b ∨ a = b ∧ c < d := by
  induction a generalizing b with
  | nil =>
    obtain rfl := List.length_eq_zero_iff.mp h.symm
    simp
  | cons x a ih =>
    obtain ⟨y, b, rfl⟩ := List.exists_cons_of_length_pos (by rw [← h]; simp : 0 < b.length)
    have hlen : a.length = b.length := by simpa using h
    simp only [List.cons_append, List.cons_lt_cons_iff, ih hlen, List.cons.injEq]
    tauto

/-- The order of texts that begin with a padded number and a separator. -/
theorem pad_append_lt_iff {w m n : ℕ} (hw : 0 < w) (hm : m < 10 ^ w) (hn : n < 10 ^ w) {c : Char}
    {s t : List Char} :
    pad w m ++ c :: s < pad w n ++ c :: t ↔ m < n ∨ m = n ∧ s < t := by
  have hlen := (length_pad hw hm).trans (length_pad hw hn).symm
  have heq : pad w m = pad w n ↔ m = n := ⟨pad_inj, congrArg (pad w)⟩
  rw [append_lt_append_iff hlen, pad_lt_pad_iff hw hm hn, heq, List.cons_lt_cons_self]

/-! ## Numbers put together -/

/-- **A number that is put together from two** has the text of the one and then of the other.

**Proof sketch.** Both texts have the same length and digits only, and both stand for the same
number. -/
theorem pad_add {w v a b : ℕ} (hw : 0 < w) (hv : 0 < v) (ha : a < 10 ^ w) (hb : b < 10 ^ v) :
    pad (w + v) (a * 10 ^ v + b) = pad w a ++ pad v b := by
  have hlt : a * 10 ^ v + b < 10 ^ (w + v) := by
    have hstep := Nat.mul_le_mul_right (10 ^ v) (Nat.succ_le_of_lt ha)
    rw [← pow_add, Nat.succ_mul] at hstep
    omega
  have hv' := length_pad hv hb
  refine eq_of_ofDigitChars_eq ?_ (fun _ => isDigit_of_mem_pad) ?_ ?_
  · rw [length_pad (by omega) hlt, List.length_append, length_pad hw ha, hv']
  · intro c hc
    rcases List.mem_append.mp hc with hc | hc <;> exact isDigit_of_mem_pad hc
  · rw [Nat.ofDigitChars_append, ofDigitChars_pad, ofDigitChars_pad,
      Nat.ofDigitChars_eq_ofDigitChars_zero, ofDigitChars_pad, hv', Nat.mul_comm]

/-- A number that has `w` digits needs no zeros. -/
lemma pad_eq_toDigits {w n : ℕ} (h : w ≤ (Nat.toDigits 10 n).length) :
    pad w n = Nat.toDigits 10 n := by
  rw [pad, List.leftpad, Nat.sub_eq_zero_of_le h, List.replicate_zero, List.nil_append]

/-- How many digits a number has. -/
lemma length_toDigits_eq {w n : ℕ} (hw : 0 < w) (hle : 10 ^ w ≤ n) (hlt : n < 10 ^ (w + 1)) :
    (Nat.toDigits 10 n).length = w + 1 := by
  have hge := (Nat.length_toDigits_le_iff (by decide : 1 < 10) hw).not.mpr (not_lt.mpr hle)
  have hle := (Nat.length_toDigits_le_iff (by decide : 1 < 10) (Nat.succ_pos w)).mpr hlt
  omega

/-- **A number cut before its last digits**.

**Proof sketch.** Let `k + 1` be the number of digits of `n / 10 ^ w`. Then `n` has at least `k + 1
+ w` digits, so padding it to that width adds nothing (`pad_eq_toDigits`), and `pad_add` cuts a
padded number behind its first `k + 1` digits. -/
theorem toDigits_eq_append {w n : ℕ} (hw : 0 < w) (h : 10 ^ w ≤ n) :
    Nat.toDigits 10 n = Nat.toDigits 10 (n / 10 ^ w) ++ pad w (n % 10 ^ w) := by
  have hpow : 0 < 10 ^ w := Nat.pow_pos (by decide)
  have hhead : 0 < n / 10 ^ w := Nat.div_pos h hpow
  obtain ⟨k, hk⟩ := Nat.exists_eq_succ_of_ne_zero
    (Nat.length_toDigits_pos (b := 10) (n := n / 10 ^ w)).ne'
  have hlt : n / 10 ^ w < 10 ^ (k + 1) :=
    (Nat.length_toDigits_le_iff (by decide) (Nat.succ_pos k)).mp hk.le
  have hle : 10 ^ k ≤ n / 10 ^ w := by
    rcases Nat.eq_zero_or_pos k with rfl | hpos
    · exact hhead
    · refine not_lt.mp fun hlt' => ?_
      have := (Nat.length_toDigits_le_iff (by decide : 1 < 10) hpos).mpr hlt'
      omega
  have hlen : k + 1 + w ≤ (Nat.toDigits 10 n).length := by
    have hn : 10 ^ (k + w) ≤ n := by
      rw [pow_add]
      exact (Nat.mul_le_mul_right _ hle).trans (Nat.div_mul_le_self _ _)
    refine not_lt.mp fun hlt' => ?_
    have := (Nat.length_toDigits_le_iff (by decide : 1 < 10) (by omega : 0 < k + w)).mp
      (by omega : (Nat.toDigits 10 n).length ≤ k + w)
    omega
  calc Nat.toDigits 10 n
      = pad (k + 1 + w) (n / 10 ^ w * 10 ^ w + n % 10 ^ w) := by
        rw [Nat.div_add_mod', pad_eq_toDigits hlen]
    _ = pad (k + 1) (n / 10 ^ w) ++ pad w (n % 10 ^ w) :=
        pad_add (Nat.succ_pos k) hw hlt (Nat.mod_lt _ hpow)
    _ = Nat.toDigits 10 (n / 10 ^ w) ++ pad w (n % 10 ^ w) := by rw [pad_eq_toDigits hk.ge]

/-! ## Fractions -/

@[simp] lemma roundHalfEven_natCast (n : ℕ) : roundHalfEven n = n := by
  simp [roundHalfEven]

/-- **Rounding a fraction** that is not half between two integers.

**Proof sketch.** The fraction part of `a / b` is `(a % b) / b`. Below one half the number is
rounded down, and `2 * (a % b) + b` does not reach `2 * b`; above, it is rounded up, and `2 * (a %
b) + b` reaches `2 * b` once. -/
theorem roundHalfEven_div {a b : ℕ} (hb : 0 < b) (hhalf : 2 * (a % b) ≠ b) :
    roundHalfEven (a / b : ℚ) = ((2 * a + b) / (2 * b) : ℕ) := by
  have hb' : (0 : ℚ) < b := Nat.cast_pos.mpr hb
  have hfract : Int.fract (a / b : ℚ) = ((a % b : ℕ) : ℚ) / b :=
    Int.fract_div_natCast_eq_div_natCast_mod
  have hfloor : ⌊(a / b : ℚ)⌋ = (a / b : ℕ) := Rat.floor_natCast_div_natCast a b
  have hsplit : 2 * a + b = 2 * (a % b) + b + 2 * b * (a / b) := by
    have := Nat.mod_add_div a b
    nlinarith
  rw [roundHalfEven, hfract, hfloor, hsplit, Nat.add_mul_div_left _ _ (by omega)]
  rcases lt_or_gt_of_ne hhalf with hless | hmore
  · have hdown : ((a % b : ℕ) : ℚ) / b < 1 / 2 := by
      rw [div_lt_div_iff₀ hb' two_pos, one_mul, mul_comm]
      exact_mod_cast hless
    have hzero : (2 * (a % b) + b) / (2 * b) = 0 := Nat.div_eq_of_lt (by omega)
    rw [if_pos (.inl hdown), hzero, Nat.zero_add]
  · have hup : 1 / 2 < ((a % b : ℕ) : ℚ) / b := by
      rw [div_lt_div_iff₀ two_pos hb', one_mul, mul_comm (_ : ℚ) 2]
      exact_mod_cast hmore
    have hmod := Nat.mod_lt a hb
    have hone : (2 * (a % b) + b) / (2 * b) = 1 := Nat.div_eq_of_lt_le (by omega) (by omega)
    rw [if_neg (by rintro (h | ⟨h, -⟩) <;> linarith), hone, Nat.add_comm 1]
    rfl

/-- Filling up a text whose end has its full width. -/
lemma leftpad_append (w : ℕ) (c : Char) (a b : List Char) :
    (a ++ b).leftpad (w + b.length) c = a.leftpad w c ++ b := by
  rw [List.leftpad, List.leftpad, List.length_append, Nat.add_sub_add_right, List.append_assoc]

/-- The text of a number that is not negative, filled up with zeros on the left. -/
theorem leftpad_fixed {w places n : ℕ} {q : ℚ} (hq : 0 ≤ q)
    (hround : roundHalfEven (q * 10 ^ places) = n) (hw : 0 < places) :
    (fixed places q).leftpad (w + (places + 1)) '0' =
      pad w (n / 10 ^ places) ++ '.' :: pad places (n % 10 ^ places) := by
  have hlen : ('.' :: pad places (n % 10 ^ places)).length = places + 1 := by
    rw [List.length_cons, length_pad hw (Nat.mod_lt _ (Nat.pow_pos (by decide)))]
  rw [fixed, abs_of_nonneg hq, hround, if_neg hq.not_gt, Int.natAbs_natCast, ← hlen,
    leftpad_append, ← pad]

end Decimal
