import Mathlib.Algebra.BigOperators.Fin
import Mathlib.Data.List.Basic
import Mathlib.Data.Nat.Notation
import Mathlib.Tactic.Ring

set_option relaxedAutoImplicit false
set_option autoImplicit false

/-!
# Signed numbers of variable length

A number is written in bytes of which each but the last has its high bit set. The first byte
holds the sign and the low six bits, every further byte a group of seven more bits. This is the
format over unbounded numbers; a decoder of machine integers is compared with it.

## Main definitions

* `Varint.groups`, `Varint.readGroups` — the groups of seven bits.
* `Varint.put`, `Varint.read` — writing and reading a signed number.
* `Varint.Whole` — the bytes of one number, in whatever form.
* `Varint.magnitude`, `Varint.value` — what such bytes stand for, by their positions.

## Main results

* `Varint.readGroups_groups`, `Varint.read_put` — reading what was written, whatever follows it.
* `Varint.length_groups_le` — how many bytes the shortest form takes.
* `Varint.read_whole` — reading the bytes of a number, whatever follows them.
* `Varint.unended_or_whole` — bytes begin with those of a number, or end before it does.
* `Varint.magnitude_lt`, `Varint.magnitude_concat` — how large a number of some bytes is.
-/

namespace Varint

/-! ## Groups of seven bits -/

/-- The groups of seven bits of a number, lowest first, in their shortest form. -/
def groups (n : ℕ) : List UInt8 :=
  if n < 128 then [UInt8.ofNat n] else UInt8.ofNat (n % 128 + 128) :: groups (n / 128)
termination_by n
decreasing_by omega

/-- The number that groups of seven bits make, and how many bytes they take; `none` when the bytes
end before the last group. -/
def readGroups : List UInt8 → Option (ℕ × ℕ)
  | [] => none
  | b :: rest =>
    if b.toNat < 128 then some (b.toNat, 1)
    else (readGroups rest).map fun p => (b.toNat % 128 + 128 * p.1, p.2 + 1)

/-- A small number is one group. -/
lemma groups_of_lt {n : ℕ} (h : n < 128) : groups n = [UInt8.ofNat n] := by
  rw [groups, if_pos h]

/-- The lowest group of a larger number, and the others. -/
lemma groups_of_le {n : ℕ} (h : 128 ≤ n) :
    groups n = UInt8.ofNat (n % 128 + 128) :: groups (n / 128) := by
  rw [groups, if_neg (by omega)]

/-- **Reading the groups of a number** gives the number back, whatever follows them.

**Proof sketch.** Strong induction on the number. A number below 128 is one byte without the mark
that more follow; any other is its low seven bits with the mark, followed by the groups of the
quotient by 128, which is smaller. -/
theorem readGroups_groups (n : ℕ) (rest : List UInt8) :
    readGroups (groups n ++ rest) = some (n, (groups n).length) := by
  induction n using Nat.strong_induction_on with
  | h n ih =>
    rcases Nat.lt_or_ge n 128 with h | h
    · have hbyte : (UInt8.ofNat n).toNat = n := by
        rw [UInt8.toNat_ofNat']
        omega
      rw [groups_of_lt h, List.singleton_append, readGroups, hbyte, if_pos h]
      rfl
    · have hbyte : (UInt8.ofNat (n % 128 + 128)).toNat = n % 128 + 128 := by
        rw [UInt8.toNat_ofNat']
        omega
      rw [groups_of_le h, List.cons_append, readGroups, hbyte, if_neg (by omega),
        ih _ (by omega)]
      simp only [Option.map_some, Option.some.injEq, Prod.mk.injEq, List.length_cons, and_true]
      omega

/-- A number below `2 ^ (7 * k)` takes at most `k` groups.

**Proof sketch.** Induction on `k`. A number that needs a second group is at least 128, its quotient
by 128 is below `2 ^ (7 * k)`, and the bound for `k + 1` groups shows that `k` is not zero. -/
lemma length_groups_le {n k : ℕ} (hk : 0 < k) (h : n < 2 ^ (7 * k)) : (groups n).length ≤ k := by
  induction k generalizing n with
  | zero => omega
  | succ k ih =>
    rcases Nat.lt_or_ge n 128 with hn | hn
    · rw [groups_of_lt hn]
      simp
    · have hk' : 0 < k := by
        rcases Nat.eq_zero_or_pos k with rfl | hk'
        · omega
        · exact hk'
      have hdiv : n / 128 < 2 ^ (7 * k) := by
        rw [Nat.mul_succ, pow_add] at h
        omega
      rw [groups_of_le hn, List.length_cons]
      exact Nat.succ_le_succ (ih hk' hdiv)

/-- Groups take at least one byte. -/
lemma readGroups_pos {data : List UInt8} {n k : ℕ} (h : readGroups data = some (n, k)) :
    0 < k := by
  cases data with
  | nil => cases h
  | cons b rest =>
    rw [readGroups] at h
    split at h
    · obtain ⟨-, rfl⟩ := Prod.mk.inj (Option.some.inj h)
      exact Nat.one_pos
    · obtain ⟨p, -, hp⟩ := Option.map_eq_some_iff.mp h
      obtain ⟨-, rfl⟩ := Prod.mk.inj hp
      exact Nat.succ_pos _

/-! ## Signed numbers -/

/-- The first byte of a number of magnitude `n`: a continuation bit, the sign and six bits. -/
def firstByte (negative : Bool) (n : ℕ) : UInt8 :=
  UInt8.ofNat ((if 64 ≤ n then 128 else 0) + (if negative then 64 else 0) + n % 64)

/-- A signed number in its shortest form. -/
def put (z : ℤ) : List UInt8 :=
  firstByte (z < 0) z.natAbs :: if 64 ≤ z.natAbs then groups (z.natAbs / 64) else []

/-- A magnitude with a sign. -/
def signed (negative : Bool) (n : ℕ) : ℤ := if negative then -n else n

/-- The signed number at the start of a byte string, and how many bytes it takes. -/
def read : List UInt8 → Option (ℤ × ℕ)
  | [] => none
  | b :: rest =>
    if b.toNat < 128 then some (signed (64 ≤ b.toNat % 128) (b.toNat % 64), 1)
    else
      (readGroups rest).map fun p =>
        (signed (64 ≤ b.toNat % 128) (b.toNat % 64 + 64 * p.1), p.2 + 1)

/-- The three parts of a first byte. -/
lemma toNat_firstByte (negative : Bool) (n : ℕ) :
    (firstByte negative n).toNat =
      (if 64 ≤ n then 128 else 0) + (if negative then 64 else 0) + n % 64 := by
  rw [firstByte, UInt8.toNat_ofNat']
  split <;> split <;> omega

/-- The sign and the magnitude make the number. -/
lemma signed_natAbs (z : ℤ) : signed (z < 0) z.natAbs = z := by
  unfold signed
  by_cases h : z < 0
  · rw [if_pos (by simpa using h)]
    omega
  · rw [if_neg (by simpa using h)]
    omega

/-- **Reading a signed number** gives the number back, whatever follows it.

**Proof sketch.** The first byte has the sign in its bit 6, the low six bits of the magnitude below
it and the mark above it (`toNat_firstByte`). If the magnitude is below 64 the number ends here;
otherwise `readGroups_groups` reads the rest of it, and the two parts are put together. -/
theorem read_put (z : ℤ) (rest : List UInt8) :
    read (put z ++ rest) = some (z, (put z).length) := by
  have hfirst := toNat_firstByte (z < 0) z.natAbs
  have hsign : decide (64 ≤ (firstByte (z < 0) z.natAbs).toNat % 128) = decide (z < 0) := by
    rw [hfirst]
    by_cases h : z < 0 <;> simp only [h, decide_true, decide_false, if_true, Bool.false_eq_true,
      if_false, decide_eq_true_eq, decide_eq_false_iff_not] <;> split <;> omega
  have hlow : (firstByte (z < 0) z.natAbs).toNat % 64 = z.natAbs % 64 := by
    rw [hfirst]
    split <;> split <;> omega
  unfold put
  by_cases h : 64 ≤ z.natAbs
  · have hmore : ¬ (firstByte (z < 0) z.natAbs).toNat < 128 := by
      rw [hfirst, if_pos h]
      omega
    have hmagnitude : z.natAbs % 64 + 64 * (z.natAbs / 64) = z.natAbs := by omega
    rw [if_pos h, List.cons_append, read, if_neg hmore, readGroups_groups, Option.map_some,
      hsign, hlow]
    simp only [hmagnitude, signed_natAbs, List.length_cons]
  · have hless : (firstByte (z < 0) z.natAbs).toNat < 128 := by
      rw [hfirst, if_neg h]
      split <;> omega
    have hmagnitude : z.natAbs % 64 = z.natAbs := by omega
    rw [if_neg h, List.cons_append, read, if_pos hless, hsign, hlow, hmagnitude, signed_natAbs]
    rfl

/-- A written number takes at least one byte. -/
lemma length_put_pos (z : ℤ) : 0 < (put z).length := by simp [put]

/-! ## The bytes of a number -/

/-- The bytes of one number: each but the last has its high bit set. -/
def Whole (bytes : List UInt8) : Prop :=
  ∃ more last, bytes = more ++ [last] ∧ (∀ b ∈ more, 128 ≤ b.toNat) ∧ last.toNat < 128

/-- The groups of seven bits of some bytes, the `i`-th one shifted by `7 * i`. -/
def groupsValue (bytes : List UInt8) : ℕ :=
  ∑ i : Fin bytes.length, (bytes.get i).toNat % 128 * 2 ^ (7 * (i : ℕ))

/-- The magnitude that some bytes stand for: the low six bits of the first one, and the `i`-th group
of seven bits behind it shifted by `6 + 7 * i`. -/
def magnitude : List UInt8 → ℕ
  | [] => 0
  | b :: rest =>
    b.toNat % 64 + ∑ i : Fin rest.length, (rest.get i).toNat % 128 * 2 ^ (6 + 7 * (i : ℕ))

/-- The signed number that some bytes stand for. -/
def value : List UInt8 → ℤ
  | [] => 0
  | b :: rest => signed (64 ≤ b.toNat % 128) (magnitude (b :: rest))

@[simp] lemma groupsValue_nil : groupsValue [] = 0 := rfl

lemma groupsValue_cons (b : UInt8) (rest : List UInt8) :
    groupsValue (b :: rest) = b.toNat % 128 + 128 * groupsValue rest := by
  have hzero : b.toNat % 128 * 2 ^ (7 * 0) = b.toNat % 128 := Nat.mul_one _
  refine (Fin.sum_univ_succ _).trans (congrArg₂ _ hzero ?_)
  rw [groupsValue, Finset.mul_sum]
  refine Finset.sum_congr rfl fun i _ => ?_
  have hget : (b :: rest).get i.succ = rest.get i := rfl
  rw [hget, Fin.val_succ, Nat.mul_add, Nat.mul_one, pow_add]
  ring

lemma magnitude_cons (b : UInt8) (rest : List UInt8) :
    magnitude (b :: rest) = b.toNat % 64 + 64 * groupsValue rest := by
  rw [magnitude, groupsValue, Finset.mul_sum]
  refine congrArg _ (Finset.sum_congr rfl fun i _ => ?_)
  rw [pow_add]
  ring

lemma whole_singleton {b : UInt8} : Whole [b] ↔ b.toNat < 128 := by
  constructor
  · rintro ⟨more, last, h, -, hlast⟩
    obtain ⟨-, rfl⟩ := List.append_singleton_inj.mp ((List.nil_append [b]).trans h)
    exact hlast
  · exact fun h => ⟨[], b, rfl, (fun _ h => nomatch h), h⟩

/-- The first of several bytes has its high bit set. -/
lemma whole_cons_cons {b c : UInt8} {rest : List UInt8} :
    Whole (b :: c :: rest) ↔ 128 ≤ b.toNat ∧ Whole (c :: rest) := by
  constructor
  · rintro ⟨more, last, h, hmore, hlast⟩
    cases more with
    | nil => exact nomatch (List.cons.inj h).2
    | cons d more =>
      obtain ⟨rfl, hrest⟩ := List.cons.inj h
      rw [List.forall_mem_cons] at hmore
      exact ⟨hmore.1, more, last, hrest, hmore.2, hlast⟩
  · rintro ⟨hb, more, last, h, hmore, hlast⟩
    exact ⟨b :: more, last, congrArg _ h, List.forall_mem_cons.mpr ⟨hb, hmore⟩, hlast⟩

lemma Whole.ne_nil {bytes : List UInt8} (h : Whole bytes) : bytes ≠ [] := by
  obtain ⟨more, last, rfl, -⟩ := h
  exact List.append_ne_nil_of_right_ne_nil _ (List.cons_ne_nil _ _)

/-- Groups of seven bits up to the last one are read, whatever follows them.

**Proof sketch.** Induction on the bytes. The last byte has no mark and is taken as it is; a byte
before it has the mark, and the value of the rest is the induction hypothesis. -/
lemma readGroups_whole {bytes : List UInt8} (h : Whole bytes) (rest : List UInt8) :
    readGroups (bytes ++ rest) = some (groupsValue bytes, bytes.length) := by
  induction bytes with
  | nil => exact absurd rfl h.ne_nil
  | cons b bytes ih =>
    rw [List.cons_append, readGroups, groupsValue_cons]
    cases bytes with
    | nil =>
      have hlast := whole_singleton.mp h
      rw [if_pos hlast, Nat.mod_eq_of_lt hlast]
      rfl
    | cons c bytes =>
      obtain ⟨hmore, hrest⟩ := whole_cons_cons.mp h
      rw [if_neg (by omega), ih hrest]
      rfl

/-- **Reading the bytes of a number** gives what they stand for, whatever follows them.

**Proof sketch.** The first byte has the sign; whether it is the last one is its top bit, and if it
is not, the groups behind it are read by themselves. -/
theorem read_whole {bytes : List UInt8} (h : Whole bytes) (rest : List UInt8) :
    read (bytes ++ rest) = some (value bytes, bytes.length) := by
  cases bytes with
  | nil => exact absurd rfl h.ne_nil
  | cons b bytes =>
    rw [List.cons_append, read, value, magnitude_cons]
    cases bytes with
    | nil =>
      rw [if_pos (whole_singleton.mp h)]
      rfl
    | cons c bytes =>
      obtain ⟨hmore, hrest⟩ := whole_cons_cons.mp h
      rw [if_neg (by omega), readGroups_whole hrest]
      rfl

/-- **Bytes begin with those of a number**, or end before the last one of it. -/
lemma unended_or_whole (data : List UInt8) :
    (∀ b ∈ data, 128 ≤ b.toNat) ∨ ∃ bytes rest, data = bytes ++ rest ∧ Whole bytes := by
  induction data with
  | nil => exact .inl fun _ h => nomatch h
  | cons b data ih =>
    rcases Nat.lt_or_ge b.toNat 128 with hlast | hmore
    · exact .inr ⟨[b], data, rfl, whole_singleton.mpr hlast⟩
    · rcases ih with hall | ⟨bytes, rest, rfl, more, last, rfl, hbytes, hlast⟩
      · exact .inl (List.forall_mem_cons.mpr ⟨hmore, hall⟩)
      · exact .inr ⟨_, rest, rfl, b :: more, last, rfl,
          List.forall_mem_cons.mpr ⟨hmore, hbytes⟩, hlast⟩

/-- How large groups of seven bits are together. -/
lemma groupsValue_lt (bytes : List UInt8) : groupsValue bytes < 2 ^ (7 * bytes.length) := by
  induction bytes with
  | nil => exact Nat.one_pos
  | cons b bytes ih =>
    rw [groupsValue_cons, List.length_cons, Nat.mul_succ, pow_add]
    omega

/-- The magnitude of a number of some bytes. -/
lemma magnitude_lt (b : UInt8) (rest : List UInt8) :
    magnitude (b :: rest) < 2 ^ (6 + 7 * rest.length) := by
  have hgroups := groupsValue_lt rest
  rw [magnitude_cons, pow_add]
  omega

/-- One more group of seven bits. -/
lemma groupsValue_concat (bytes : List UInt8) (last : UInt8) :
    groupsValue (bytes ++ [last]) =
      groupsValue bytes + last.toNat % 128 * 2 ^ (7 * bytes.length) := by
  induction bytes with
  | nil => exact (groupsValue_cons last []).trans (by simp)
  | cons b bytes ih =>
    rw [List.cons_append, groupsValue_cons, groupsValue_cons, ih, List.length_cons, Nat.mul_succ,
      pow_add]
    ring

/-- One more byte. -/
lemma magnitude_concat (b : UInt8) (rest : List UInt8) (last : UInt8) :
    magnitude (b :: rest ++ [last]) =
      magnitude (b :: rest) + last.toNat % 128 * 2 ^ (6 + 7 * rest.length) := by
  rw [List.cons_append, magnitude_cons, magnitude_cons, groupsValue_concat, pow_add]
  ring

end Varint
