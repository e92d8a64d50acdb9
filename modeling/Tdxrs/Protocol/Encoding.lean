import Mathlib.Tactic.Linarith
import Tdxrs.Library.Varint
import Tdxrs.Protocol.Parsers

set_option relaxedAutoImplicit false
set_option autoImplicit false

/-!
# The wire encoding of K-lines

What a server sends for a list of K-line records, with its chain of price differences, and that the
client's decoders read the parts of it back: the signed numbers of variable length with 64-bit
arithmetic, and the two date layouts.

## Main definitions

* `Tdxrs.KLineRecord` — a bar as it travels: prices in thousandths, volume and amount as words.
* `Tdxrs.KLineRecord.Encodable` — the records that the format can carry.
* `Tdxrs.encodeSecurityBars` — the response body.

## Main results

* `Tdxrs.getPrice_eq` — `get_price` reads a signed number of variable length.
* `Tdxrs.getDatetime_of_drop` — a date is read back.
-/

namespace Tdxrs

/-! ## Signed numbers in 64 bits -/

/-- A property of bytes that is checked for all 256 of them. -/
lemma forall_byte {P : UInt8 → Prop} (h : ∀ n : Fin 256, P (UInt8.ofFin n)) (b : UInt8) : P b := by
  have hb := h b.toFin
  rwa [UInt8.ofFin_toFin] at hb

lemma and_high (b : UInt8) : b &&& 0x80 = 0 ↔ b.toNat < 128 := by
  revert b
  exact forall_byte (by decide +kernel)

lemma and_high_ne_zero {b : UInt8} (h : 128 ≤ b.toNat) : b &&& 0x80 ≠ 0 :=
  mt (and_high b).mp (not_lt.mpr h)

lemma and_sign (b : UInt8) : b &&& 0x40 = 0 ↔ b.toNat % 128 < 64 := by
  revert b
  exact forall_byte (by decide +kernel)

lemma and_low (b : UInt8) : (b &&& 0x3F).toUInt64.toInt64 = Int64.ofNat (b.toNat % 64) := by
  revert b
  exact forall_byte (by decide +kernel)

/-- A shift by less than 64 is not reduced. -/
lemma shiftAmount : ∀ s < 64, (Int64.ofNat s).toBitVec.smod 64 = BitVec.ofNat 64 s := by
  decide

/-- Seven more bits are put in above the `shift` bits at hand.

**Proof sketch.** On bit vectors: seven bits that are shifted by `shift` have no bit below it, and
`r` has none above, so the disjunction is a sum (`Nat.shiftLeft_add_eq_or_of_lt`); what is shifted
out of 64 bits is lost on both sides. -/
lemma or_shiftLeft {r shift : ℕ} (b : UInt8) (hr : r < 2 ^ shift) (hs : shift < 64) :
    (Int64.ofNat r ||| ((b &&& 0x7F).toUInt64.toInt64 <<< Int64.ofNat shift)) =
      Int64.ofNat (r + b.toNat % 128 * 2 ^ shift) := by
  rw [← Int64.toBitVec_inj]
  have hlow : (b &&& 0x7F).toUInt64.toInt64.toBitVec.toNat = b.toNat % 128 := by
    show (b &&& 0x7F).toUInt64.toNat = _
    rw [UInt8.toNat_toUInt64, UInt8.toNat_and]
    exact Nat.and_two_pow_sub_one_eq_mod b.toNat 7
  have hor : r ||| b.toNat % 128 * 2 ^ shift = r + b.toNat % 128 * 2 ^ shift := by
    rw [Nat.or_comm, Nat.add_comm, ← Nat.shiftLeft_eq, Nat.shiftLeft_add_eq_or_of_lt hr]
  have hnat : ∀ n, (Int64.ofNat n).toBitVec.toNat = n % 2 ^ 64 := fun n => rfl
  rw [Int64.toBitVec_or, Int64.toBitVec_shiftLeft, shiftAmount shift hs]
  apply BitVec.eq_of_toNat_eq
  rw [BitVec.toNat_or, BitVec.shiftLeft_eq', BitVec.toNat_shiftLeft, hlow, hnat, hnat,
    BitVec.toNat_ofNat, Nat.mod_eq_of_lt (by omega : shift < 2 ^ 64), Nat.shiftLeft_eq,
    ← Nat.or_mod_two_pow, hor]

/-- The loop over the continuation bytes adds the groups of seven bits, as long as they are
shifted by less than 64.

**Proof sketch.** Induction on the bytes. The bound says that the last group is still shifted by
less than 64, so every one before it is too. A group is put in above the bits that are there
(`or_shiftLeft`), which keeps `r < 2 ^ shift` for the next one. -/
lemma getPriceLoop_eq {data : Bytes} {pos shift r n k : ℕ}
    (hread : Varint.readGroups data = some (n, k)) (hr : r < 2 ^ shift)
    (hk : shift + 7 * k < 71) :
    getPriceLoop data pos shift (Int64.ofNat r) =
      some (Int64.ofNat (r + n * 2 ^ shift), pos + k - 1) := by
  induction data generalizing pos shift r n k with
  | nil => cases hread
  | cons b rest ih =>
    rw [Varint.readGroups] at hread
    have hshift : shift < 64 := by
      split at hread
      · obtain ⟨rfl, rfl⟩ := Prod.mk.inj (Option.some.inj hread)
        omega
      · obtain ⟨⟨m, j⟩, -, hj⟩ := Option.map_eq_some_iff.mp hread
        obtain ⟨rfl, rfl⟩ := Prod.mk.inj hj
        omega
    rw [getPriceLoop, if_neg (by omega)]
    simp only [or_shiftLeft b hr hshift, and_high]
    split
    · rename_i hlast
      rw [if_pos hlast] at hread
      obtain ⟨rfl, rfl⟩ := Prod.mk.inj (Option.some.inj hread)
      rw [Nat.mod_eq_of_lt hlast]
      rfl
    · rename_i hmore
      rw [if_neg hmore] at hread
      obtain ⟨⟨m, j⟩, hm, hj⟩ := Option.map_eq_some_iff.mp hread
      obtain ⟨rfl, rfl⟩ := Prod.mk.inj hj
      have hpow : 2 ^ (shift + 7) = 128 * 2 ^ shift := by ring
      have hnext : r + b.toNat % 128 * 2 ^ shift < 2 ^ (shift + 7) := by
        have hgroup : b.toNat % 128 * 2 ^ shift ≤ 127 * 2 ^ shift :=
          Nat.mul_le_mul_right _ (by omega)
        rw [hpow]
        omega
      rw [ih hm hnext (by omega)]
      simp only [hpow, Option.some.injEq, Prod.mk.injEq]
      refine ⟨congrArg _ ?_, by omega⟩
      ring

/-- A magnitude with the sign of the first byte. -/
lemma ofNat_signed (first : UInt8) (n : ℕ) :
    (if first &&& 0x40 ≠ 0 then -Int64.ofNat n else Int64.ofNat n) =
      Int64.ofInt (Varint.signed (64 ≤ first.toNat % 128) n) := by
  unfold Varint.signed
  by_cases h : first &&& 0x40 = 0
  · rw [if_neg (not_not.mpr h), if_neg (by simpa using (and_sign first).mp h),
      Int64.ofInt_eq_ofNat]
  · rw [if_pos h, if_pos (by simpa using mt (and_sign first).mpr h), Int64.neg_ofNat]

/-- **`get_price` reads a signed number of variable length**, up to ten bytes of it, modulo
`2^64`.

**Proof sketch.** A single byte holds the number itself. Otherwise the first byte holds its low six
bits, and `getPriceLoop_eq` adds the groups behind it from shift 6 on; `ofNat_signed` turns
magnitude and sign into the number. -/
theorem getPrice_eq {data : Bytes} {pos k : ℕ} {z : ℤ}
    (hread : Varint.read (data.drop pos) = some (z, k)) (hk : k ≤ 10) :
    getPrice data pos = (Int64.ofInt z, pos + k) := by
  unfold getPrice
  cases hdrop : data.drop pos with
  | nil => rw [hdrop] at hread; cases hread
  | cons first rest =>
    rw [hdrop, Varint.read] at hread
    simp only [and_low]
    by_cases hlast : first.toNat < 128
    · rw [if_pos hlast] at hread
      obtain ⟨rfl, rfl⟩ := Prod.mk.inj (Option.some.inj hread)
      rw [if_neg (not_not.mpr ((and_high first).mpr hlast))]
      simp only [ofNat_signed]
    · rw [if_neg hlast] at hread
      obtain ⟨⟨n, j⟩, hn, hj⟩ := Option.map_eq_some_iff.mp hread
      obtain ⟨rfl, rfl⟩ := Prod.mk.inj hj
      rw [if_pos (mt (and_high first).mp hlast),
        getPriceLoop_eq hn (by omega : first.toNat % 64 < 2 ^ 6) (by omega)]
      simp only [ofNat_signed, Nat.mul_comm n, Prod.mk.injEq]
      exact ⟨rfl, by have := Varint.readGroups_pos hn; omega⟩

/-! ## Reading at a position -/

/-- After what stands at a position comes the rest. -/
lemma drop_add {body a rest : Bytes} {pos : ℕ} (h : body.drop pos = a ++ rest) :
    body.drop (pos + a.length) = rest := by
  rw [← List.drop_drop, h, List.drop_left]

/-- What stands at a position is inside. -/
lemma le_length_of_drop {body a rest : Bytes} {pos : ℕ} (h : body.drop pos = a ++ rest)
    (ha : 0 < a.length) : pos + a.length ≤ body.length := by
  have hlen := congrArg List.length h
  rw [List.length_drop, List.length_append] at hlen
  omega

/-- A 16-bit number at a position. -/
lemma readU16_of_drop {body rest : Bytes} {pos n : ℕ}
    (h : body.drop pos = LittleEndian.toLE 2 n ++ rest) (hn : n < 2 ^ 16) :
    readU16 body pos = n := by
  have hlen := le_length_of_drop h (by simp)
  rw [LittleEndian.length_toLE] at hlen
  rw [readU16, if_neg (by omega), LittleEndian.field, h,
    List.take_left' (LittleEndian.length_toLE 2 n), LittleEndian.ofLE_toLE]
  exact Nat.mod_eq_of_lt hn

/-- A 32-bit number at a position. -/
lemma readU32_of_drop {body rest : Bytes} {pos n : ℕ}
    (h : body.drop pos = LittleEndian.toLE 4 n ++ rest) (hn : n < 2 ^ 32) :
    readU32 body pos = n := by
  have hlen := le_length_of_drop h (by simp)
  rw [LittleEndian.length_toLE] at hlen
  rw [readU32, if_neg (by omega), LittleEndian.field, h,
    List.take_left' (LittleEndian.length_toLE 4 n), LittleEndian.ofLE_toLE]
  exact Nat.mod_eq_of_lt hn

/-- A number below `2 ^ 62` takes at most nine bytes. -/
lemma length_put_le {z : ℤ} (hz : z.natAbs < 2 ^ 62) : (Varint.put z).length ≤ 9 := by
  unfold Varint.put
  split
  · have hgroups := Varint.length_groups_le (by omega : 0 < 8)
      (by omega : z.natAbs / 64 < 2 ^ (7 * 8))
    rw [List.length_cons]
    omega
  · simp

/-- A signed number at a position. -/
lemma getPrice_of_drop {body rest : Bytes} {pos : ℕ} {z : ℤ}
    (h : body.drop pos = Varint.put z ++ rest) (hz : z.natAbs < 2 ^ 62) :
    getPrice body pos = (Int64.ofInt z, pos + (Varint.put z).length) := by
  refine getPrice_eq ?_ ((length_put_le hz).trans (by omega))
  rw [h, Varint.read_put]

/-! ## K-line records -/

/-- A bar as it travels: prices in thousandths, volume and amount as words. -/
structure KLineRecord where
  year : ℕ
  month : ℕ
  day : ℕ
  hour : ℕ
  minute : ℕ
  «open» : ℤ
  close : ℤ
  high : ℤ
  low : ℤ
  vol : ℕ
  amount : ℕ
deriving DecidableEq

namespace KLineRecord

/-- The dates that the layout of a category can carry: two words within a day, else one number. -/
def FitsLayout (category : UInt8) (r : KLineRecord) : Prop :=
  if isMinuteCategory category then
    2004 ≤ r.year ∧ r.year < 2036 ∧ r.minute < 60 ∧ r.hour * 60 + r.minute < 2 ^ 16
  else r.year * 10000 + 1231 < 2 ^ 32 ∧ r.hour = 0 ∧ r.minute = 0

/-- The records that the format can carry and the parser accepts. -/
structure Encodable (maxValidYear : ℕ) (category : UInt8) (r : KLineRecord) : Prop where
  year : 1980 ≤ r.year ∧ r.year ≤ maxValidYear
  month : 1 ≤ r.month ∧ r.month ≤ 12
  day : 1 ≤ r.day ∧ r.day ≤ 31
  layout : r.FitsLayout category
  prices : r.open.natAbs < 2 ^ 55 ∧ r.close.natAbs < 2 ^ 55 ∧ r.high.natAbs < 2 ^ 55 ∧
    r.low.natAbs < 2 ^ 55
  words : r.vol < 2 ^ 32 ∧ r.amount < 2 ^ 32

/-- The bar of a record. -/
def bar (category : UInt8) (r : KLineRecord) : SecurityBar where
  «open» := r.open / 1000
  close := r.close / 1000
  high := r.high / 1000
  low := r.low / 1000
  vol := getVolume r.vol
  amount := getVolume r.amount
  year := r.year
  month := r.month
  day := r.day
  hour := r.hour
  minute := r.minute
  datetime := formatDatetime category r.year r.month r.day r.hour r.minute

/-- The date of a record in the layout of a category. -/
def encodeDate (category : UInt8) (r : KLineRecord) : Bytes :=
  if isMinuteCategory category then
    LittleEndian.toLE 2 ((r.year - 2004) * 2048 + r.month * 100 + r.day) ++
      LittleEndian.toLE 2 (r.hour * 60 + r.minute)
  else LittleEndian.toLE 4 (dateKey r.year r.month r.day)

/-- A record after one that closed at `prev`. -/
def encode (category : UInt8) (prev : ℤ) (r : KLineRecord) : Bytes :=
  r.encodeDate category ++ (Varint.put (r.open - prev) ++ (Varint.put (r.close - r.open) ++
    (Varint.put (r.high - r.open) ++ (Varint.put (r.low - r.open) ++
      (LittleEndian.toLE 4 r.vol ++ LittleEndian.toLE 4 r.amount)))))

/-- A date takes four bytes. -/
@[simp] lemma length_encodeDate (category : UInt8) (r : KLineRecord) :
    (r.encodeDate category).length = 4 := by
  unfold encodeDate
  split <;> simp

/-- A record takes at least 16 bytes. -/
lemma length_encode_ge (category : UInt8) (prev : ℤ) (r : KLineRecord) :
    16 ≤ (r.encode category prev).length := by
  have h1 := Varint.length_put_pos (r.open - prev)
  have h2 := Varint.length_put_pos (r.close - r.open)
  have h3 := Varint.length_put_pos (r.high - r.open)
  have h4 := Varint.length_put_pos (r.low - r.open)
  simp only [encode, List.length_append, length_encodeDate, LittleEndian.length_toLE]
  omega

end KLineRecord

/-- The records of a response, after a record that closed at `prev`. -/
def encodeRecords (category : UInt8) : ℤ → List KLineRecord → Bytes
  | _, [] => []
  | prev, r :: rs => r.encode category prev ++ encodeRecords category r.close rs

/-- The body of a security K-line response. -/
def encodeSecurityBars (category : UInt8) (rs : List KLineRecord) : Bytes :=
  LittleEndian.toLE 2 rs.length ++ encodeRecords category 0 rs

/-! ## Reading records back -/

variable {maxValidYear : ℕ} {category : UInt8} {r : KLineRecord}

/-- A date is read back.

**Proof sketch.** In the layout of minutes the first two bytes hold year, month and day, and the
next two the minutes of the day; in the other layout four bytes hold the digits of the date.
`FitsLayout` bounds each part by the place it has, so that the quotients and remainders give the
parts back. -/
lemma getDatetime_of_drop (hr : r.Encodable maxValidYear category) {body rest : Bytes} {pos : ℕ}
    (h : body.drop pos = r.encodeDate category ++ rest) :
    getDatetime category body pos = (r.year, r.month, r.day, r.hour, r.minute, pos + 4) := by
  have hmonth := hr.month
  have hdays := hr.day
  have hlayout := hr.layout
  unfold KLineRecord.FitsLayout at hlayout
  unfold KLineRecord.encodeDate at h
  unfold getDatetime
  split at hlayout <;> rename_i hcategory <;> simp only [hcategory, if_true, Bool.false_eq_true,
    if_false] at h ⊢
  · rw [List.append_assoc] at h
    have hminutes := drop_add h
    rw [LittleEndian.length_toLE] at hminutes
    have hday : ((r.year - 2004) * 2048 + r.month * 100 + r.day) % 2048 =
        r.month * 100 + r.day := by omega
    rw [readU16_of_drop h (by omega), readU16_of_drop hminutes hlayout.2.2.2, hday]
    simp only [Prod.mk.injEq, and_true]
    refine ⟨?_, ?_, ?_, ?_, ?_⟩ <;> omega
  · unfold dateKey at h
    rw [readU32_of_drop h (by omega)]
    simp only [Prod.mk.injEq]
    refine ⟨?_, ?_, ?_, ?_, ?_, trivial⟩ <;> omega

/-- A price within range is read in thousandths. -/
lemma thousandths_ofInt {z : ℤ} (hz : z.natAbs < 2 ^ 55) :
    thousandths (Int64.ofInt z) = z / 1000 := by
  rw [thousandths, Int64.toInt_ofInt_of_le (by omega) (by omega)]

end Tdxrs
