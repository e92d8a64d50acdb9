import Tdxrs.Library.Varint
import Tdxrs.Protocol.Encoding
import Tdxrs.Protocol.Fields

set_option relaxedAutoImplicit false
set_option autoImplicit false

/-!
# Decoding a price

`get_price` of `src/helpers.rs` on any bytes. A price that is cut off or has too many bytes is
refused: the result is zero and the end of the data. As this may also be the result for a price, the
function is modelled once more with the exit that it takes, and over the operations that put bits
into the result. The operations of `i64` drop bits that are shifted out; the exact ones fault where
the result is not the one of whole numbers.

## Main definitions

* `Tdxrs.I64Ops` — the operations, `Tdxrs.I64Ops.wrapping` and `Tdxrs.I64Ops.exact`.
* `Tdxrs.getPriceOptionM`, `Tdxrs.getPriceOption` — the function with its exit.
* `Tdxrs.PriceRefusal` — what is to be refused.
* `Tdxrs.PriceExact` — what is to be refused is, and the rest is decoded without overflow.
* `Tdxrs.TopGroupFits` — a tenth byte has no bits but the lowest one.

## Main results

* `Tdxrs.getPrice_eq_getD` — the function with its exit is `get_price`.
* `Tdxrs.getPriceOptionM_whole` — what is decoded, whatever follows it.
* `Tdxrs.price_exact_iff` — when decoding is exact.
* `Tdxrs.PriceExact.read_eq` — what is decoded then is what is read over unbounded numbers.
-/

namespace Tdxrs

/-! ## The function with its exit -/

/-- The operations on `i64` that put a price together. -/
structure I64Ops (m : Type → Type) where
  /-- `a << shift` -/
  shl : Int64 → ℕ → m Int64
  or : Int64 → Int64 → m Int64
  neg : Int64 → m Int64

/-- Bits that are shifted out are lost, and the negation wraps around. -/
def I64Ops.wrapping : I64Ops Id where
  shl a shift := a <<< Int64.ofNat shift
  or a b := a ||| b
  neg a := -a

/-- A shift is a product, putting bits together is a sum, and both and the negation are in range. -/
def I64Ops.exact : I64Ops (Except Fault) where
  shl a shift :=
    if shift < 64 ∧ FitsI64 (a.toInt * 2 ^ shift) then .ok (a <<< Int64.ofNat shift)
    else .error .overflow
  or a b := if (a ||| b).toInt = a.toInt + b.toInt then .ok (a ||| b) else .error .overflow
  neg a := if FitsI64 (-a.toInt) then .ok (-a) else .error .overflow

section

variable {m : Type → Type} [Monad m] (ops : I64Ops m)

/-- The loop over the continuation bytes. -/
def getPriceLoopM : Bytes → ℕ → ℕ → Int64 → m (Option (Int64 × ℕ))
  | [], _, _, _ => pure none
  | b :: rest, pos, shift, result =>
    if 64 ≤ shift then pure none
    else do
      let result ← ops.or result (← ops.shl (b &&& 0x7F).toUInt64.toInt64 shift)
      if b &&& 0x80 = 0 then pure (some (result, pos))
      else getPriceLoopM rest (pos + 1) (shift + 7) result

/-- `get_price` with the exit that it takes: `none` where it refuses the bytes. -/
def getPriceOptionM (data : Bytes) (pos : ℕ) : m (Option (Int64 × ℕ)) :=
  match data.drop pos with
  | [] => pure none
  | first :: rest => do
    let low := (first &&& 0x3F).toUInt64.toInt64
    let decoded ← (if first &&& 0x80 ≠ 0 then getPriceLoopM ops rest (pos + 1) 6 low
      else pure (some (low, pos)))
    match decoded with
    | none => pure none
    | some (result, pos) =>
      if first &&& 0x40 ≠ 0 then do
        let val ← ops.neg result
        pure (some (val, pos + 1))
      else pure (some (result, pos + 1))

end

/-- `get_price` with its exit, on `i64`. -/
def getPriceOption (data : Bytes) (pos : ℕ) : Option (Int64 × ℕ) :=
  (getPriceOptionM I64Ops.wrapping data pos).run

lemma getPriceLoopM_wrapping (rest : Bytes) : ∀ (pos shift : ℕ) (result : Int64),
    (getPriceLoopM I64Ops.wrapping rest pos shift result).run =
      getPriceLoop rest pos shift result := by
  induction rest with
  | nil => exact fun _ _ _ => rfl
  | cons b rest ih =>
    intro pos shift result
    rw [getPriceLoopM, getPriceLoop]
    split
    · rfl
    · show (if b &&& 0x80 = 0 then _ else
        (getPriceLoopM I64Ops.wrapping rest (pos + 1) (shift + 7) _).run) = _
      rw [ih]
      rfl

/-- **The function with its exit is `get_price`**: where bytes are refused, the result is zero and
the end of the data.

**Proof sketch.** The two have the same steps; only where the bytes end or there are too many of
them, the one returns nothing and the other zero and the end of the data. So after the first byte
and the loop (`getPriceLoopM_wrapping`) the cases are read off. -/
theorem getPrice_eq_getD (data : Bytes) (pos : ℕ) :
    getPrice data pos = (getPriceOption data pos).getD (0, data.length) := by
  unfold getPriceOption getPriceOptionM getPrice
  rcases data.drop pos with _ | ⟨first, rest⟩
  · rfl
  · have hdecoded : (if first &&& 0x80 ≠ 0 then
          getPriceLoopM I64Ops.wrapping rest (pos + 1) 6 (first &&& 0x3F).toUInt64.toInt64
        else pure (some ((first &&& 0x3F).toUInt64.toInt64, pos))) =
        (if first &&& 0x80 ≠ 0 then
          getPriceLoop rest (pos + 1) 6 (first &&& 0x3F).toUInt64.toInt64
        else some ((first &&& 0x3F).toUInt64.toInt64, pos) : Id (Option (Int64 × ℕ))) := by
      rw [← getPriceLoopM_wrapping]
      rfl
    simp only [hdecoded]
    rcases (if first &&& 0x80 ≠ 0 then getPriceLoop rest (pos + 1) 6
      (first &&& 0x3F).toUInt64.toInt64 else some ((first &&& 0x3F).toUInt64.toInt64, pos))
      with _ | ⟨result, pos'⟩
    · rfl
    · by_cases hsign : first &&& 0x40 ≠ 0
      · simp only [if_pos hsign]
        rfl
      · simp only [if_neg hsign]
        rfl

/-! ## What is decoded -/

/-- The operations put groups of seven bits together, and negate what is put together, as long as it
`Fits`. -/
structure I64Ops.Puts {m : Type → Type} [Monad m] (ops : I64Ops m) (Fits : ℕ → Prop) : Prop where
  mono : ∀ {n n' : ℕ}, n ≤ n' → Fits n' → Fits n
  put : ∀ {r shift : ℕ} (b : UInt8), r < 2 ^ shift → shift < 64 →
    Fits (r + b.toNat % 128 * 2 ^ shift) →
      (ops.shl (b &&& 0x7F).toUInt64.toInt64 shift >>= fun group => ops.or (Int64.ofNat r) group) =
        pure (Int64.ofNat (r + b.toNat % 128 * 2 ^ shift))
  neg : ∀ {n : ℕ}, Fits n → ops.neg (Int64.ofNat n) = pure (-Int64.ofNat n)

/-- Without checks everything fits, modulo `2 ^ 64`. -/
lemma puts_wrapping : I64Ops.wrapping.Puts fun _ => True where
  mono _ _ := trivial
  put b hr hshift _ := or_shiftLeft b hr hshift
  neg _ := rfl

lemma and_group (b : UInt8) : (b &&& 0x7F).toUInt64.toInt64 = Int64.ofNat (b.toNat % 128) := by
  revert b
  exact forall_byte (by decide +kernel)

/-- A group that is shifted, without losing bits. -/
lemma toInt_shiftLeft {shift : ℕ} (b : UInt8) (hshift : shift < 64)
    (hfits : b.toNat % 128 * 2 ^ shift < 2 ^ 63) :
    ((b &&& 0x7F).toUInt64.toInt64 <<< Int64.ofNat shift).toInt =
      (b.toNat % 128 * 2 ^ shift : ℕ) := by
  have hshifted := or_shiftLeft b (Nat.two_pow_pos shift) hshift
  have hzero : Int64.ofNat 0 = 0 := rfl
  rw [hzero, Int64.zero_or, Nat.zero_add] at hshifted
  rw [hshifted, Int64.toInt_ofNat_of_lt hfits]

/-- Exactly, what is below `2 ^ 63` fits.

**Proof sketch.** A group that is shifted to its place stays below `2 ^ 63`, so neither the shift
nor the sign bit loses anything; the bits put in before lie below the shift (`hr`), so that putting
in is adding (`or_shiftLeft`). The sum fits by assumption, and with it the negative of it. -/
lemma puts_exact : I64Ops.exact.Puts (· < 2 ^ 63) where
  mono hle hlt := hle.trans_lt hlt
  put {r shift} b hr hshift hfits := by
    have hgroup : b.toNat % 128 * 2 ^ shift < 2 ^ 63 := (Nat.le_add_left _ _).trans_lt hfits
    have hlow : r < 2 ^ 63 := (Nat.le_add_right _ _).trans_lt hfits
    have hproduct : FitsI64 ((b &&& 0x7F).toUInt64.toInt64.toInt * 2 ^ shift) := by
      rw [and_group, Int64.toInt_ofNat_of_lt (by omega), FitsI64]
      have hcast : ((b.toNat % 128 : ℕ) : ℤ) * 2 ^ shift = (b.toNat % 128 * 2 ^ shift : ℕ) := by
        push_cast
        rfl
      rw [hcast]
      omega
    have hsum : (Int64.ofNat r ||| (b &&& 0x7F).toUInt64.toInt64 <<< Int64.ofNat shift).toInt =
        (Int64.ofNat r).toInt +
          ((b &&& 0x7F).toUInt64.toInt64 <<< Int64.ofNat shift).toInt := by
      rw [or_shiftLeft b hr hshift, toInt_shiftLeft b hshift hgroup, Int64.toInt_ofNat_of_lt hfits,
        Int64.toInt_ofNat_of_lt hlow, Nat.cast_add]
    rw [← or_shiftLeft b hr hshift]
    exact (congrArg (· >>= _) (if_pos ⟨hshift, hproduct⟩)).trans (if_pos hsum)
  neg {n} hfits := by
    have hneg : FitsI64 (-(Int64.ofNat n).toInt) := by
      rw [Int64.toInt_ofNat_of_lt hfits, FitsI64]
      omega
    exact if_pos hneg

section

variable {m : Type → Type} [Monad m] [LawfulMonad m] {ops : I64Ops m} {Fits : ℕ → Prop}

/-- The loop over the continuation bytes adds the groups of seven bits, unless the last one would be
shifted out of 64 bits. By induction on the bytes; below `shift` are the bits put in before.

**Proof sketch.** A byte at a shift of 64 or more is refused. Otherwise it is put in above the bits
that are there, which is the invariant `r < 2 ^ shift` for the next byte, seven bits higher; the
last byte ends the loop. The shift of byte `k` is seven times `k` more, so the refusal is a matter
of the number of bytes. -/
lemma getPriceLoopM_whole (hops : ops.Puts Fits) {bytes : Bytes} (h : Varint.Whole bytes)
    (rest : Bytes) : ∀ {pos shift r : ℕ}, r < 2 ^ shift →
      Fits (r + Varint.groupsValue bytes * 2 ^ shift) →
      getPriceLoopM ops (bytes ++ rest) pos shift (Int64.ofNat r) =
        pure (if 71 ≤ shift + 7 * bytes.length then none
          else some (Int64.ofNat (r + Varint.groupsValue bytes * 2 ^ shift),
            pos + bytes.length - 1)) := by
  induction bytes with
  | nil => exact absurd rfl h.ne_nil
  | cons b bytes ih =>
    intro pos shift r hr hfits
    rw [List.cons_append, getPriceLoopM, List.length_cons]
    by_cases hlong : 64 ≤ shift
    · rw [if_pos hlong, if_pos (by omega)]
    rw [if_neg hlong]
    have hsum : r + Varint.groupsValue (b :: bytes) * 2 ^ shift =
        r + b.toNat % 128 * 2 ^ shift + Varint.groupsValue bytes * 2 ^ (shift + 7) := by
      rw [Varint.groupsValue_cons, pow_add]
      ring
    rw [hsum] at hfits ⊢
    have hput := hops.put b hr (not_le.mp hlong) (hops.mono (Nat.le_add_right _ _) hfits)
    rw [← bind_assoc, hput, pure_bind]
    cases bytes with
    | nil =>
      have hlast := (and_high b).mpr (Varint.whole_singleton.mp h)
      rw [if_pos hlast, if_neg (by rw [List.length_nil]; omega), Varint.groupsValue_nil,
        Nat.zero_mul, Nat.add_zero]
      rfl
    | cons c bytes =>
      obtain ⟨hmore, hrest⟩ := Varint.whole_cons_cons.mp h
      have hnext : r + b.toNat % 128 * 2 ^ shift < 2 ^ (shift + 7) := by
        have hgroup : b.toNat % 128 * 2 ^ shift ≤ 127 * 2 ^ shift :=
          Nat.mul_le_mul_right _ (by omega)
        rw [pow_add]
        omega
      have hpos : pos + 1 + (c :: bytes).length - 1 = pos + ((c :: bytes).length + 1) - 1 := by
        omega
      have hshift : shift + 7 + 7 * (c :: bytes).length =
          shift + 7 * ((c :: bytes).length + 1) := by omega
      rw [if_neg (and_high_ne_zero hmore), ih hrest hnext hfits, hpos, hshift]

/-- **What is decoded** from the bytes of a price, whatever follows them: what they stand for,
unless there are more than ten of them.

**Proof sketch.** The first byte gives the sign and the low six bits. If it is the last, they are
the magnitude; otherwise the loop puts the groups of seven bits above them (`getPriceLoopM_whole`,
from shift 6), and refuses an eleventh byte. `Puts.neg` applies the sign. -/
theorem getPriceOptionM_whole (hops : ops.Puts Fits) {data bytes rest : Bytes} {pos : ℕ}
    (hdrop : data.drop pos = bytes ++ rest) (h : Varint.Whole bytes)
    (hfits : Fits (Varint.magnitude bytes)) :
    getPriceOptionM ops data pos =
      pure (if 10 < bytes.length then none
        else some (Int64.ofInt (Varint.value bytes), pos + bytes.length)) := by
  cases bytes with
  | nil => exact absurd rfl h.ne_nil
  | cons first bytes =>
    -- the result with the sign of the first byte
    have hsigned (p : ℕ) : (if first &&& 0x40 ≠ 0 then do
          let val ← ops.neg (Int64.ofNat (Varint.magnitude (first :: bytes)))
          pure (some (val, p + 1))
        else pure (some (Int64.ofNat (Varint.magnitude (first :: bytes)), p + 1))) =
        (pure (some (Int64.ofInt (Varint.value (first :: bytes)), p + 1)) :
          m (Option (Int64 × ℕ))) := by
      rw [hops.neg hfits, pure_bind, Varint.value, ← ofNat_signed]
      split <;> rfl
    rw [getPriceOptionM, hdrop, List.cons_append, List.length_cons]
    simp only [and_low]
    cases bytes with
    | nil =>
      have hlast := (and_high first).mpr (Varint.whole_singleton.mp h)
      have hmagnitude : Varint.magnitude [first] = first.toNat % 64 := by
        rw [Varint.magnitude_cons, Varint.groupsValue_nil, Nat.mul_zero, Nat.add_zero]
      rw [if_neg (not_not.mpr hlast), pure_bind, if_neg (by decide), ← hmagnitude]
      exact hsigned pos
    | cons c bytes =>
      obtain ⟨hmore, hrest⟩ := Varint.whole_cons_cons.mp h
      have hmagnitude : first.toNat % 64 + Varint.groupsValue (c :: bytes) * 2 ^ 6 =
          Varint.magnitude (first :: c :: bytes) := by
        rw [Varint.magnitude_cons]
        omega
      rw [if_pos (and_high_ne_zero hmore),
        getPriceLoopM_whole hops hrest rest (by omega) (hmagnitude ▸ hfits), pure_bind, hmagnitude]
      by_cases hlong : 10 < (c :: bytes).length + 1
      · rw [if_pos hlong, if_pos (by omega)]
      · rw [if_neg hlong, if_neg (by omega)]
        refine (hsigned _).trans ?_
        rw [List.length_cons]
        congr 3
        omega

end

/-! ## What is refused -/

/-- What is to be refused: a position behind the data, data that end before a byte without the high
bit, more than nine bytes behind the first one, and a magnitude that does not fit in an `i64`. -/
def PriceRefusal (data : Bytes) (pos : ℕ) : Prop :=
  data.length ≤ pos ∨ (∀ b ∈ data.drop pos, 128 ≤ b.toNat) ∨
    ∃ bytes rest, data.drop pos = bytes ++ rest ∧ Varint.Whole bytes ∧
      (9 < bytes.length - 1 ∨ ¬ FitsI64 (Varint.magnitude bytes))

/-- What is to be refused is, and only this; everything else is the bytes of one number, of which
the value is decoded with no operation out of range. -/
structure PriceExact (data : Bytes) (pos : ℕ) : Prop where
  refused : getPriceOption data pos = none ↔ PriceRefusal data pos
  zero : PriceRefusal data pos → getPrice data pos = (0, data.length)
  decoded : ∀ v p, getPriceOption data pos = some (v, p) →
    getPrice data pos = (v, p) ∧ pos < p ∧ p ≤ data.length ∧
      Varint.Whole ((data.drop pos).take (p - pos)) ∧
      v.toInt = Varint.value ((data.drop pos).take (p - pos)) ∧
      getPriceOptionM I64Ops.exact data pos = .ok (some (v, p))

/-- The condition on the bytes: where nine bytes with the high bit are followed by one without, this
one is 0 or 1. -/
def TopGroupFits (data : Bytes) (pos : ℕ) : Prop :=
  (∀ b ∈ (data.drop pos).take 9, 128 ≤ b.toNat) →
    ∀ last ∈ (data.drop pos)[9]?, last.toNat < 128 → last.toNat < 2

instance (data : Bytes) (pos : ℕ) : Decidable (TopGroupFits data pos) :=
  inferInstanceAs (Decidable (_ → _))

/-- A loop that meets no byte without the high bit refuses the bytes. -/
lemma getPriceLoop_unended {rest : Bytes} (h : ∀ b ∈ rest, 128 ≤ b.toNat) :
    ∀ (pos shift : ℕ) (result : Int64), getPriceLoop rest pos shift result = none := by
  induction rest with
  | nil => exact fun _ _ _ => rfl
  | cons b rest ih =>
    intro pos shift result
    obtain ⟨hb, hrest⟩ := List.forall_mem_cons.mp h
    rw [getPriceLoop]
    simp only [if_neg (and_high_ne_zero hb), ih hrest, ite_self]

/-- Data that end before a byte without the high bit are refused. -/
lemma getPriceOption_unended {data : Bytes} {pos : ℕ}
    (h : ∀ b ∈ data.drop pos, 128 ≤ b.toNat) : getPriceOption data pos = none := by
  unfold getPriceOption getPriceOptionM
  rcases hdrop : data.drop pos with _ | ⟨first, rest⟩
  · rfl
  · rw [hdrop] at h
    obtain ⟨hfirst, hrest⟩ := List.forall_mem_cons.mp h
    have hloop := getPriceLoop_unended hrest (pos + 1) 6 (first &&& 0x3F).toUInt64.toInt64
    rw [← getPriceLoopM_wrapping] at hloop
    simp only [if_pos (and_high_ne_zero hfirst), Id.run_bind, hloop]
    rfl

/-- What is decoded from the bytes of a price on `i64`. -/
lemma getPriceOption_whole {data bytes rest : Bytes} {pos : ℕ}
    (hdrop : data.drop pos = bytes ++ rest) (h : Varint.Whole bytes) :
    getPriceOption data pos =
      if 10 < bytes.length then none
      else some (Int64.ofInt (Varint.value bytes), pos + bytes.length) :=
  congrArg Id.run (getPriceOptionM_whole puts_wrapping hdrop h trivial)

/-! ## When the magnitude fits -/

/-- Up to nine bytes have a magnitude of at most 62 bits. -/
lemma magnitude_lt_of_length {bytes : Bytes} (h : bytes.length ≤ 9) :
    Varint.magnitude bytes < 2 ^ 62 := by
  cases bytes with
  | nil => decide
  | cons b rest =>
    rw [List.length_cons] at h
    exact (Varint.magnitude_lt b rest).trans_le (Nat.pow_le_pow_right (by decide) (by omega))

/-- The tenth byte holds the bits from the 62nd on. -/
lemma magnitude_lt_iff {more : Bytes} (hmore : more.length = 9) {last : UInt8}
    (hlast : last.toNat < 128) :
    Varint.magnitude (more ++ [last]) < 2 ^ 63 ↔ last.toNat < 2 := by
  have hlow := magnitude_lt_of_length hmore.le
  cases more with
  | nil => exact absurd hmore (by decide)
  | cons b more =>
    have hshift : 6 + 7 * more.length = 62 := by
      rw [List.length_cons] at hmore
      omega
    rw [Varint.magnitude_concat, hshift, Nat.mod_eq_of_lt hlast]
    omega

/-- Under the condition, up to ten bytes have a magnitude that fits.

**Proof sketch.** By the number of bytes. Nine bytes have at most 62 bits; with a tenth one, which
stands behind the nine in the data, the condition says that its group fits. -/
lemma magnitude_lt_of_topGroupFits {data bytes rest : Bytes} {pos : ℕ}
    (hfits : TopGroupFits data pos) (hdrop : data.drop pos = bytes ++ rest)
    (h : Varint.Whole bytes) (hlength : bytes.length ≤ 10) :
    Varint.magnitude bytes < 2 ^ 63 := by
  obtain ⟨more, last, rfl, hmore, hlast⟩ := h
  rw [List.length_append, List.length_singleton] at hlength
  rcases Nat.lt_or_ge more.length 9 with hshort | hlong
  · have hbytes : (more ++ [last]).length ≤ 9 := by
      rw [List.length_append, List.length_singleton]
      omega
    exact (magnitude_lt_of_length hbytes).trans (by decide)
  · have hnine : more.length = 9 := by omega
    refine (magnitude_lt_iff hnine hlast).mpr (hfits ?_ last ?_ hlast)
    · rwa [hdrop, List.append_assoc, List.take_left' hnine]
    · rw [hdrop, List.append_assoc, List.getElem?_append_right hnine.le, hnine]
      rfl

/-- A magnitude that fits, as a number. -/
lemma fitsI64_magnitude {bytes : Bytes} :
    FitsI64 (Varint.magnitude bytes) ↔ Varint.magnitude bytes < 2 ^ 63 := by
  rw [FitsI64]
  omega

/-- The value of a magnitude that fits is in range. -/
lemma toInt_value {bytes : Bytes} (h : Varint.magnitude bytes < 2 ^ 63) :
    (Int64.ofInt (Varint.value bytes)).toInt = Varint.value bytes := by
  have hrange : -2 ^ 63 ≤ Varint.value bytes ∧ Varint.value bytes < 2 ^ 63 := by
    cases bytes with
    | nil => decide
    | cons b rest =>
      rw [Varint.value, Varint.signed]
      split <;> omega
  exact Int64.toInt_ofInt_of_le hrange.1 hrange.2

/-- Under the condition, what is decoded is not to be refused.

**Proof sketch.** Up to ten whole bytes are decoded (`getPriceOption_whole`), so none of the four
reasons to refuse applies: the data do not end, the bytes have an end, there are not more than ten
of them, and under `TopGroupFits` the magnitude is below `2 ^ 63`. -/
lemma not_priceRefusal {data bytes rest : Bytes} {pos : ℕ} (hfits : TopGroupFits data pos)
    (hdrop : data.drop pos = bytes ++ rest) (h : Varint.Whole bytes)
    (hlength : bytes.length ≤ 10) : ¬ PriceRefusal data pos := by
  have hdecoded := getPriceOption_whole hdrop h
  rw [if_neg (not_lt.mpr hlength)] at hdecoded
  rintro (hend | hunended | ⟨bytes', rest', hdrop', h', hlong | hlarge⟩)
  · rw [List.drop_eq_nil_of_le hend] at hdrop
    exact h.ne_nil (List.append_eq_nil_iff.mp hdrop.symm).1
  · rw [getPriceOption_unended hunended] at hdecoded
    exact nomatch hdecoded
  · rw [getPriceOption_whole hdrop' h', if_pos (by omega)] at hdecoded
    exact nomatch hdecoded
  · by_cases hlong : 10 < bytes'.length
    · rw [getPriceOption_whole hdrop' h', if_pos hlong] at hdecoded
      exact nomatch hdecoded
    · exact hlarge (fitsI64_magnitude.mpr
        (magnitude_lt_of_topGroupFits hfits hdrop' h' (not_lt.mp hlong)))

/-- What is refused, as it is to be. -/
lemma priceExact_of_none {data : Bytes} {pos : ℕ} (hnone : getPriceOption data pos = none)
    (hrefusal : PriceRefusal data pos) : PriceExact data pos where
  refused := iff_of_true hnone hrefusal
  zero _ := by
    rw [getPrice_eq_getD, hnone]
    rfl
  decoded _ _ hsome := absurd (hnone.symm.trans hsome) (Option.some_ne_none _).symm

/-- Under the condition, up to ten bytes are decoded, and no operation is out of range.

**Proof sketch.** By `getPriceOption_whole` the bytes are decoded to what they stand for, and
`not_priceRefusal` says that they are not to be refused. The bytes up to the returned position are
these bytes, their value is within 64 bits (`magnitude_lt_of_topGroupFits`), and in exact integers
the same steps are taken (`puts_exact`). -/
lemma priceExact_of_whole {data bytes rest : Bytes} {pos : ℕ} (hfits : TopGroupFits data pos)
    (hdrop : data.drop pos = bytes ++ rest) (h : Varint.Whole bytes)
    (hlength : bytes.length ≤ 10) : PriceExact data pos := by
  have hdecoded := (getPriceOption_whole hdrop h).trans (if_neg (not_lt.mpr hlength))
  have hrefusal := not_priceRefusal hfits hdrop h hlength
  have hmagnitude := magnitude_lt_of_topGroupFits hfits hdrop h hlength
  refine ⟨iff_of_false (by rw [hdecoded]; exact Option.some_ne_none _) hrefusal,
    fun hrefused => absurd hrefused hrefusal, fun v p hsome => ?_⟩
  obtain ⟨rfl, rfl⟩ := Prod.mk.inj (Option.some.inj (hdecoded.symm.trans hsome))
  have hpos := List.length_pos_iff.mpr h.ne_nil
  have hbytes : (data.drop pos).take (pos + bytes.length - pos) = bytes := by
    rw [hdrop, Nat.add_sub_cancel_left, List.take_left]
  rw [hbytes]
  refine ⟨by rw [getPrice_eq_getD, hdecoded]; rfl, by omega, le_length_of_drop hdrop hpos, h,
    toInt_value hmagnitude, ?_⟩
  exact (getPriceOptionM_whole puts_exact hdrop h hmagnitude).trans
    (congrArg _ (if_neg (not_lt.mpr hlength)))

/-- **When decoding a price is exact**, for all data and every position: unless nine bytes with the
high bit are followed by a tenth one without it that holds more than one bit.

**Proof sketch.** The `i`-th byte is shifted by `7 * i - 1`, so that the bytes up to the ninth one
stay below bit 62. The tenth one is shifted by 62: its lowest bit is the highest one of a magnitude,
the next one would be the sign of the `i64`, and the others are shifted out. An eleventh one is
refused. -/
theorem price_exact_iff (data : Bytes) (pos : ℕ) :
    PriceExact data pos ↔ TopGroupFits data pos := by
  constructor
  · intro hexact hmore last hlast hend
    obtain ⟨hlength, rfl⟩ := List.getElem?_eq_some_iff.mp hlast
    have hnine : ((data.drop pos).take 9).length = 9 := List.length_take_of_le hlength.le
    have hdrop : data.drop pos =
        ((data.drop pos).take 9 ++ [(data.drop pos)[9]]) ++ (data.drop pos).drop 10 := by
      rw [List.append_assoc, List.singleton_append, ← List.drop_eq_getElem_cons hlength,
        List.take_append_drop]
    have hwhole : Varint.Whole ((data.drop pos).take 9 ++ [(data.drop pos)[9]]) :=
      ⟨_, _, rfl, hmore, hend⟩
    have hten : ((data.drop pos).take 9 ++ [(data.drop pos)[9]]).length = 10 := by
      rw [List.length_append, hnine]
      rfl
    -- it is decoded, so that it is not to be refused
    have hdecoded := getPriceOption_whole hdrop hwhole
    rw [if_neg (by omega)] at hdecoded
    by_contra hlarge
    have hrefusal : PriceRefusal data pos := by
      refine .inr (.inr ⟨_, _, hdrop, hwhole, .inr fun hfits => hlarge ?_⟩)
      exact (magnitude_lt_iff hnine hend).mp (fitsI64_magnitude.mp hfits)
    rw [hexact.refused.mpr hrefusal] at hdecoded
    exact nomatch hdecoded
  · intro hfits
    rcases Varint.unended_or_whole (data.drop pos) with hunended | ⟨bytes, rest, hdrop, h⟩
    · exact priceExact_of_none (getPriceOption_unended hunended) (.inr (.inl hunended))
    by_cases hlong : 10 < bytes.length
    · exact priceExact_of_none ((getPriceOption_whole hdrop h).trans (if_pos hlong))
        (.inr (.inr ⟨bytes, rest, hdrop, h, .inl (by omega)⟩))
    · exact priceExact_of_whole hfits hdrop h (not_lt.mp hlong)

/-- **The decoder and the format**: a price that is decoded exactly is what is read in the format
over unbounded numbers, and takes as many bytes. -/
theorem PriceExact.read_eq {data : Bytes} {pos : ℕ} (h : PriceExact data pos) {v : Int64} {p : ℕ}
    (hsome : getPriceOption data pos = some (v, p)) :
    Varint.read (data.drop pos) = some (v.toInt, p - pos) := by
  obtain ⟨-, hpos, hle, hwhole, hvalue, -⟩ := h.decoded v p hsome
  have hread := Varint.read_whole hwhole ((data.drop pos).drop (p - pos))
  have hlength : p - pos ≤ (data.drop pos).length := by
    rw [List.length_drop]
    omega
  rwa [List.take_append_drop, ← hvalue, List.length_take_of_le hlength] at hread

/-- Ten bytes whose magnitude is `2 ^ 63`. -/
def tenByteVarint : Bytes := List.replicate 9 0x80 ++ [2]

/-- **A lost sign**: the bytes of a magnitude that does not fit are not refused. -/
theorem price_of_ten_bytes : ¬ PriceExact tenByteVarint 0 := by
  intro hexact
  have hwhole : Varint.Whole tenByteVarint :=
    ⟨List.replicate 9 0x80, 2, rfl, fun b hb => (List.eq_of_mem_replicate hb) ▸ le_rfl, by decide⟩
  have hrefusal : PriceRefusal tenByteVarint 0 :=
    .inr (.inr ⟨tenByteVarint, [], rfl, hwhole, .inr (by decide +kernel)⟩)
  have hnone := hexact.refused.mpr hrefusal
  revert hnone
  decide +kernel

/-- It is decoded as the least number. -/
example : getPrice tenByteVarint 0 = (Int64.minValue, 10) := by decide +kernel

end Tdxrs
