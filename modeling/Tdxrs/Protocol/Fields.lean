import Tdxrs.Library.Checked
import Tdxrs.Library.Records
import Tdxrs.Protocol.Parsers

set_option relaxedAutoImplicit false
set_option autoImplicit false

/-!
# Fields of responses, read with and without checks

The fields that the parsers of `src/protocol/parsers.rs` read: prices of variable length and numbers
of two and four bytes. A field that is not all there is zero (`src/helpers.rs`,
`src/constants.rs`).

A release build wraps around where a sum or a negation leaves the range of `i64`, and a build with
overflow checks panics there; an index out of range panics in both. The parsers are written once,
over a `Machine` with these operations, and run on the one that wraps or on the one that checks.

## Main definitions

* `Tdxrs.Machine` — the operations that can panic, `Tdxrs.Machine.wrapping`,
  `Tdxrs.Machine.checked` — the two builds.
* `Tdxrs.getPriceM`, `Tdxrs.Field`, `Tdxrs.readField`, `Tdxrs.readFieldsM` — the fields.

## Main results

* `Tdxrs.runs_getPrice`, `Tdxrs.runs_readFields` — when reading does not panic.
* `Tdxrs.lenient_readField` — how fields are read where the bytes run out.
-/

namespace Tdxrs

/-! ## Machines -/

/-- A panic. -/
inductive Fault where
  | overflow
  | outOfRange
deriving DecidableEq, Repr

/-- The number is in the range of `i64`. -/
def FitsI64 (z : ℤ) : Prop := -2 ^ 63 ≤ z ∧ z < 2 ^ 63

instance (z : ℤ) : Decidable (FitsI64 z) := inferInstanceAs (Decidable (_ ∧ _))

/-- The operations that can panic. -/
structure Machine (m : Type → Type) where
  add : Int64 → Int64 → m Int64
  sub : Int64 → Int64 → m Int64
  mul : Int64 → Int64 → m Int64
  neg : Int64 → m Int64
  /-- `data[pos]` -/
  index : Bytes → ℕ → m UInt8
  /-- `data[pos..pos + n]` -/
  slice : Bytes → ℕ → ℕ → m Bytes

namespace Machine

/-- Arithmetic wraps around. -/
def wrapping : Machine Id where
  add a b := a + b
  sub a b := a - b
  mul a b := a * b
  neg a := -a
  index data pos := data.getD pos 0
  slice data pos n := (data.drop pos).take n

/-- Every operation is checked. -/
def checked : Machine (Except Fault) where
  add a b := if FitsI64 (a.toInt + b.toInt) then .ok (a + b) else .error .overflow
  sub a b := if FitsI64 (a.toInt - b.toInt) then .ok (a - b) else .error .overflow
  mul a b := if FitsI64 (a.toInt * b.toInt) then .ok (a * b) else .error .overflow
  neg a := if FitsI64 (-a.toInt) then .ok (-a) else .error .overflow
  index data pos := if pos < data.length then .ok (data.getD pos 0) else .error .outOfRange
  slice data pos n :=
    if pos + n ≤ data.length then .ok ((data.drop pos).take n) else .error .outOfRange

end Machine

/-! ## Reading fields -/

section

variable {m : Type → Type} [Monad m] (M : Machine m)

/-- Decodes a price on a machine. -/
def getPriceM (data : Bytes) (pos : ℕ) : m (Int64 × ℕ) :=
  match data.drop pos with
  | [] => pure (0, data.length)
  | first :: rest =>
    let low := (first &&& 0x3F).toUInt64.toInt64
    let decoded := if first &&& 0x80 ≠ 0 then getPriceLoop rest (pos + 1) 6 low
      else some (low, pos)
    match decoded with
    | none => pure (0, data.length)
    | some (result, pos) =>
      if first &&& 0x40 ≠ 0 then do
        let val ← M.neg result
        pure (val, pos + 1)
      else pure (result, pos + 1)

/-- A kind of field. -/
inductive Field where
  | price
  | u16
  | u32
deriving DecidableEq, Repr

/-- The value of a field, and the position after it. -/
def readField : Field → Bytes → ℕ → Int64 × ℕ
  | .price, data, pos => getPrice data pos
  | .u16, data, pos => (Int64.ofNat (readU16 data pos), pos + 2)
  | .u32, data, pos => (Int64.ofNat (readU32 data pos), pos + 4)

/-- The values of fields one after the other, and the position after them. -/
abbrev readFields : List Field → Bytes → ℕ → List Int64 × ℕ := Records.readFields readField

/-- The positions after the fields. -/
abbrev fieldEnds : List Field → Bytes → ℕ → List ℕ := Records.ends readField

/-- A field on a machine. -/
def readFieldM : Field → Bytes → ℕ → m (Int64 × ℕ)
  | .price, data, pos => getPriceM M data pos
  | .u16, data, pos => pure (Int64.ofNat (readU16 data pos), pos + 2)
  | .u32, data, pos => pure (Int64.ofNat (readU32 data pos), pos + 4)

/-- Fields on a machine. -/
def readFieldsM : List Field → Bytes → ℕ → m (List Int64 × ℕ)
  | [], _, pos => pure ([], pos)
  | f :: fs, data, pos => do
    let (v, pos) ← readFieldM M f data pos
    let (vs, pos) ← readFieldsM fs data pos
    pure (v :: vs, pos)

end

/-- The 32-bit number that a field holds. -/
def word (v : Int64) : ℕ := v.toInt.toNat

/-- Decodes a volume word on a machine. -/
def getVolumeM {m : Type → Type} [Monad m] (M : Machine m) (vol : ℕ) : m ℚ :=
  if vol = 0 then pure 0
  else do
    let logpoint := Int64.ofNat (vol / 2 ^ 24)
    let hleax : ℕ := vol / 2 ^ 16 % 256
    let lheax : ℕ := vol / 2 ^ 8 % 256
    let lleax : ℕ := vol % 256
    let exponent (offset : ℕ) : m Int64 := do M.sub (← M.mul logpoint 2) (Int64.ofNat offset)
    let dwEcx ← exponent 0x7F
    let dwEdx ← exponent 0x86
    let dwEsi ← exponent 0x8E
    let dwEax ← exponent 0x96
    let tmpEax ← if dwEcx < 0 then M.neg dwEcx else pure dwEcx
    let dblXmm6 : ℚ := if dwEcx < 0 then 1 / 2 ^ tmpEax.toInt else 2 ^ tmpEax.toInt
    let dblXmm4 : ℚ ←
      if 0x80 < hleax then do
        let dwtmpeax ← M.add dwEdx 1
        pure (2 ^ dwEdx.toInt * 128 + ((hleax % 128 : ℕ) : ℚ) * 2 ^ dwtmpeax.toInt)
      else if 0 ≤ dwEdx then pure (2 ^ dwEdx.toInt * hleax)
      else do
        let negated ← M.neg dwEdx
        pure (1 / 2 ^ negated.toInt * hleax)
    let dblXmm3 : ℚ := 2 ^ dwEsi.toInt * lheax
    let dblXmm1 : ℚ := 2 ^ dwEax.toInt * lleax
    pure (if 128 ≤ hleax then dblXmm6 + dblXmm4 + dblXmm3 * 2 + dblXmm1 * 2
      else dblXmm6 + dblXmm4 + dblXmm3 + dblXmm1)

/-! ## The wrapping machine -/

lemma getPriceM_wrapping (data : Bytes) (pos : ℕ) :
    getPriceM Machine.wrapping data pos = getPrice data pos := by
  unfold getPriceM getPrice
  rcases data.drop pos with _ | ⟨first, rest⟩
  · rfl
  · simp only
    rcases (if first &&& 0x80 ≠ 0 then getPriceLoop rest (pos + 1) 6
      (first &&& 0x3F).toUInt64.toInt64 else some ((first &&& 0x3F).toUInt64.toInt64, pos))
      with _ | ⟨result, pos'⟩
    · rfl
    · by_cases hsign : first &&& 0x40 ≠ 0
      · simp only [if_pos hsign]
        rfl
      · simp only [if_neg hsign]
        rfl

lemma readFieldM_wrapping (f : Field) (data : Bytes) (pos : ℕ) :
    readFieldM Machine.wrapping f data pos = readField f data pos := by
  cases f with
  | price => exact getPriceM_wrapping data pos
  | u16 => rfl
  | u32 => rfl

lemma readFieldsM_wrapping (fs : List Field) (data : Bytes) : ∀ pos : ℕ,
    readFieldsM Machine.wrapping fs data pos = readFields fs data pos := by
  induction fs with
  | nil => exact fun _ => rfl
  | cons f fs ih =>
    intro pos
    show (let (v, pos) := readFieldM Machine.wrapping f data pos
      let (vs, pos) := readFieldsM Machine.wrapping fs data pos
      ((v :: vs, pos) : List Int64 × ℕ)) = _
    simp only [readFieldM_wrapping, ih]
    rfl

/-! ## The checked machine -/

lemma runs_add (a b : Int64) :
    Checked.Runs (Machine.checked.add a b) (a + b) (FitsI64 (a.toInt + b.toInt)) :=
  .check _ _

lemma runs_neg (a : Int64) :
    Checked.Runs (Machine.checked.neg a) (-a) (FitsI64 (-a.toInt)) :=
  .check _ _

/-- Only the least number has no negative. -/
lemma fitsI64_neg (a : Int64) : FitsI64 (-a.toInt) ↔ a ≠ Int64.minValue := by
  have hle := a.minValue_le_toInt
  have hlt := a.toInt_lt
  rw [← Int64.toInt_inj.ne, FitsI64]
  have hmin : Int64.minValue.toInt = -2 ^ 63 := rfl
  rw [hmin] at hle ⊢
  omega

/-- The price at the position is not the least number with a sign: its negation is in range. -/
def PriceFits (data : Bytes) (pos : ℕ) : Prop :=
  ¬ ((getPrice data pos).1 = Int64.minValue ∧ data.getD pos 0 &&& 0x40 ≠ 0)

instance (data : Bytes) (pos : ℕ) : Decidable (PriceFits data pos) :=
  inferInstanceAs (Decidable (¬ (_ ∧ _)))

/-- **When reading a price does not panic.**

**Proof sketch.** The decoding itself cannot panic; the negation at its end does exactly on the
least number. The result is the least number with the sign byte set in that case and in no other,
which is how `PriceFits` says it. -/
lemma runs_getPrice (data : Bytes) (pos : ℕ) :
    Checked.Runs (getPriceM Machine.checked data pos) (getPrice data pos) (PriceFits data pos) := by
  have hzero : (0 : Int64) ≠ Int64.minValue := by decide
  unfold PriceFits
  unfold getPriceM getPrice
  rcases hdrop : data.drop pos with _ | ⟨first, rest⟩
  · exact (Checked.Runs.pure _).of_iff (by simp [hzero])
  · have hfirst : data.getD pos 0 = first := by
      rw [List.getD_eq_getElem?_getD, ← List.head?_drop, hdrop]
      rfl
    simp only [hfirst]
    rcases (if first &&& 0x80 ≠ 0 then getPriceLoop rest (pos + 1) 6
      (first &&& 0x3F).toUInt64.toInt64 else some ((first &&& 0x3F).toUInt64.toInt64, pos))
      with _ | ⟨result, pos'⟩
    · exact (Checked.Runs.pure _).of_iff (by simp [hzero])
    · by_cases hsign : first &&& 0x40 ≠ 0
      · simp only [if_pos hsign]
        refine ((runs_neg result).map fun val => (val, pos' + 1)).of_iff ?_
        rw [fitsI64_neg]
        have hneg : -result = Int64.minValue ↔ result = Int64.minValue := by
          constructor
          · intro h
            rw [← Int64.neg_neg (a := result), h]
            rfl
          · rintro rfl
            rfl
        simp [hsign, hneg]
      · simp only [if_neg hsign]
        exact (Checked.Runs.pure _).of_iff (by simp [hsign])

/-! ## Volume words -/

/-- On the machine, an operation whose exact result is in range gives that result. -/
structure Machine.InRange {m : Type → Type} [Monad m] (M : Machine m) : Prop where
  add {a b : Int64} : FitsI64 (a.toInt + b.toInt) → M.add a b = pure (a + b)
  sub {a b : Int64} : FitsI64 (a.toInt - b.toInt) → M.sub a b = pure (a - b)
  mul {a b : Int64} : FitsI64 (a.toInt * b.toInt) → M.mul a b = pure (a * b)
  neg {a : Int64} : FitsI64 (-a.toInt) → M.neg a = pure (-a)
  index {data : Bytes} {pos : ℕ} : pos < data.length → M.index data pos = pure (data.getD pos 0)
  slice {data : Bytes} {pos n : ℕ} : pos + n ≤ data.length →
    M.slice data pos n = pure ((data.drop pos).take n)

lemma inRange_wrapping : Machine.wrapping.InRange :=
  ⟨fun _ => rfl, fun _ => rfl, fun _ => rfl, fun _ => rfl, fun _ => rfl, fun _ => rfl⟩

lemma inRange_checked : Machine.checked.InRange :=
  ⟨fun h => if_pos h, fun h => if_pos h, fun h => if_pos h, fun h => if_pos h, fun h => if_pos h,
    fun h => if_pos h⟩

/-- A number of a few bits is in range. -/
lemma fitsI64_of_small {z : ℤ} (h : -2 ^ 32 ≤ z ∧ z < 2 ^ 32) : FitsI64 z := by
  constructor <;> omega

lemma toInt_ofInt_small {z : ℤ} (h : -2 ^ 32 ≤ z ∧ z < 2 ^ 32) : (Int64.ofInt z).toInt = z :=
  Int64.toInt_ofInt_of_le (fitsI64_of_small h).1 (fitsI64_of_small h).2

/-- The exponents of a volume word are small. -/
lemma exponent_eq {m : Type → Type} [Monad m] [LawfulMonad m] {M : Machine m} (hM : M.InRange)
    {logpoint offset : ℕ} (hlog : logpoint < 2 ^ 8) (hoff : offset < 2 ^ 8) :
    (M.mul (Int64.ofNat logpoint) 2 >>= fun d => M.sub d (Int64.ofNat offset)) =
      pure (Int64.ofInt (logpoint * 2 - offset)) := by
  have hdouble : (Int64.ofNat logpoint).toInt * (2 : Int64).toInt = (logpoint * 2 : ℕ) := by
    rw [Int64.toInt_ofNat_of_lt (by omega)]
    rfl
  have hsum : Int64.ofNat logpoint * 2 = Int64.ofInt (logpoint * 2 : ℕ) := by
    rw [← hdouble, Int64.ofInt_mul, Int64.ofInt_toInt, Int64.ofInt_toInt]
  rw [hM.mul (by rw [hdouble]; exact fitsI64_of_small (by omega)), pure_bind, hsum, hM.sub]
  · rw [Int64.ofInt_sub, ← Int64.ofInt_eq_ofNat]
    rfl
  · rw [toInt_ofInt_small (by omega), Int64.toInt_ofNat_of_lt (by omega)]
    exact fitsI64_of_small (by omega)

/-- **Volume words never overflow**: a 32-bit word is decoded on every machine, to the same
number.

**Proof sketch.** The top byte of the word is below 256, so each of the four exponents is a small
integer (`exponent_eq`), and so are their negatives and successors: all operations are in range.
After they are replaced by the integers they compute, both sides take the same branches. -/
lemma getVolumeM_eq {m : Type → Type} [Monad m] [LawfulMonad m] {M : Machine m} (hM : M.InRange)
    {vol : ℕ} (hvol : vol < 2 ^ 32) : getVolumeM M vol = pure (getVolume vol) := by
  unfold getVolumeM getVolume
  by_cases hzero : vol = 0
  · rw [if_pos hzero, if_pos hzero]
  · have hlog : vol / 2 ^ 24 < 2 ^ 8 := by omega
    have hneg {z : ℤ} (hz : -2 ^ 9 ≤ z ∧ z < 2 ^ 9) :
        M.neg (Int64.ofInt z) = pure (Int64.ofInt (-z)) := by
      rw [hM.neg, Int64.ofInt_neg]
      rw [toInt_ofInt_small (by omega)]
      exact fitsI64_of_small (by omega)
    have hsucc {z : ℤ} (hz : -2 ^ 9 ≤ z ∧ z < 2 ^ 9) :
        M.add (Int64.ofInt z) 1 = pure (Int64.ofInt (z + 1)) := by
      rw [hM.add, Int64.ofInt_add]
      · rfl
      · rw [toInt_ofInt_small (by omega)]
        exact fitsI64_of_small (by simp; omega)
    rw [if_neg hzero, if_neg hzero]
    simp only [exponent_eq hM hlog (show 0x7F < 2 ^ 8 by decide),
      exponent_eq hM hlog (show 0x86 < 2 ^ 8 by decide),
      exponent_eq hM hlog (show 0x8E < 2 ^ 8 by decide),
      exponent_eq hM hlog (show 0x96 < 2 ^ 8 by decide), pure_bind, Int64.lt_iff_toInt_lt,
      Int64.le_iff_toInt_le, Nat.cast_ofNat]
    generalize hcx : ((vol / 2 ^ 24 : ℕ) : ℤ) * 2 - 0x7F = ecx
    generalize hdx : ((vol / 2 ^ 24 : ℕ) : ℤ) * 2 - 0x86 = edx
    generalize hsi : ((vol / 2 ^ 24 : ℕ) : ℤ) * 2 - 0x8E = esi
    generalize hax : ((vol / 2 ^ 24 : ℕ) : ℤ) * 2 - 0x96 = eax
    have hcx' : -2 ^ 9 ≤ ecx ∧ ecx < 2 ^ 9 := by omega
    have hdx' : -2 ^ 9 ≤ edx ∧ edx < 2 ^ 9 := by omega
    have hzeroInt : (0 : Int64).toInt = 0 := rfl
    rw [hneg hcx', hneg hdx', hsucc hdx', toInt_ofInt_small (z := ecx) (by omega),
      toInt_ofInt_small (z := edx) (by omega), toInt_ofInt_small (z := esi) (by omega),
      toInt_ofInt_small (z := eax) (by omega)]
    simp only [pure_bind, toInt_ofInt_small (z := -edx) (by omega),
      toInt_ofInt_small (z := edx + 1) (by omega), hzeroInt]
    by_cases hnegative : ecx < 0
    · simp only [if_pos hnegative, toInt_ofInt_small (z := -ecx) (by omega)]
      split
      · rfl
      · split <;> rfl
    · simp only [if_neg hnegative]
      split
      · rfl
      · split <;> rfl

lemma word_ofNat {n : ℕ} (h : n < 2 ^ 32) : word (Int64.ofNat n) = n := by
  rw [word, Int64.toInt_ofNat_of_lt (by omega), Int.toNat_natCast]

lemma readU32_lt (data : Bytes) (pos : ℕ) : readU32 data pos < 2 ^ 32 := by
  rw [readU32]
  split
  · decide
  · exact LittleEndian.field_lt data pos 4

lemma getVolumeM_wrapping (data : Bytes) (pos : ℕ) :
    getVolumeM Machine.wrapping (readU32 data pos) = getVolume (readU32 data pos) :=
  getVolumeM_eq inRange_wrapping (readU32_lt data pos)

/-! ## Fields with checks -/

/-- None of the fields panics. -/
def FieldsFit : List Field → Bytes → ℕ → Prop
  | [], _, _ => True
  | f :: fs, data, pos =>
    (f = .price → PriceFits data pos) ∧ FieldsFit fs data (readField f data pos).2

lemma runs_readField (f : Field) (data : Bytes) (pos : ℕ) :
    Checked.Runs (readFieldM Machine.checked f data pos) (readField f data pos)
      (f = .price → PriceFits data pos) := by
  cases f with
  | price => exact (runs_getPrice data pos).of_iff (by simp)
  | u16 => exact (Checked.Runs.pure _).of_iff (by simp)
  | u32 => exact (Checked.Runs.pure _).of_iff (by simp)

/-- **When reading fields does not panic.** -/
lemma runs_readFields (fs : List Field) (data : Bytes) : ∀ pos : ℕ,
    Checked.Runs (readFieldsM Machine.checked fs data pos) (readFields fs data pos)
      (FieldsFit fs data pos) := by
  induction fs with
  | nil => exact fun _ => .pure _
  | cons f fs ih =>
    exact fun pos => (runs_readField f data pos).bind
      ((ih _).map fun r => ((readField f data pos).1 :: r.1, r.2))

/-! ## Fields that are cut off -/

/-- Where a price of several bytes ends.

**Proof sketch.** Induction on the bytes: the last byte ends the price where it stands, and a byte
before it leaves the bounds to those behind it. -/
lemma getPriceLoop_bounds (rest : Bytes) : ∀ {pos shift : ℕ} {result v : Int64} {p : ℕ},
    getPriceLoop rest pos shift result = some (v, p) → pos ≤ p ∧ p < pos + rest.length := by
  induction rest with
  | nil => exact fun h => nomatch h
  | cons b rest ih =>
    intro pos shift result v p h
    rw [getPriceLoop] at h
    rw [List.length_cons]
    split at h
    · exact nomatch h
    · simp only at h
      split at h
      · obtain ⟨-, rfl⟩ := Prod.mk.inj (Option.some.inj h)
        omega
      · have := ih h
        omega

/-- A price of several bytes is read from a part of the data exactly if it ends there.

**Proof sketch.** Induction on the bytes. Where nothing is left of the part, a price that ends at
all ends later (`getPriceLoop_bounds`); a byte that is left is read alike in both. -/
lemma getPriceLoop_take (rest : Bytes) : ∀ (k pos shift : ℕ) (result : Int64),
    getPriceLoop (rest.take k) pos shift result =
      (getPriceLoop rest pos shift result).filter fun r => r.2 < pos + k := by
  induction rest with
  | nil => exact fun k _ _ _ => by rw [List.take_nil]; rfl
  | cons b rest ih =>
    intro k pos shift result
    cases k with
    | zero =>
      rw [List.take_zero, getPriceLoop]
      refine (Option.filter_eq_none_iff.mpr fun r hr => ?_).symm
      have := (getPriceLoop_bounds _ hr).1
      simp only [decide_eq_true_eq]
      omega
    | succ k =>
      rw [List.take_succ_cons, getPriceLoop, getPriceLoop]
      split
      · rfl
      · simp only
        split
        · rw [Option.filter_some, if_pos (by simp)]
        · rw [ih]
          congr 1
          funext r
          rw [Nat.add_right_comm, Nat.add_assoc]

/-- A price takes at least one byte, and no more than there are.

**Proof sketch.** One byte is always read; a price of several bytes ends within those that follow
(`getPriceLoop_bounds`), and one that does not end is read to the end of the data. -/
lemma getPrice_bounds {data : Bytes} {pos : ℕ} (h : pos < data.length) :
    pos < (getPrice data pos).2 ∧ (getPrice data pos).2 ≤ data.length := by
  unfold getPrice
  rcases hdrop : data.drop pos with _ | ⟨first, rest⟩
  · exact ⟨h, le_rfl⟩
  · have hlength : data.length = pos + (rest.length + 1) := by
      have := congrArg List.length hdrop
      rw [List.length_drop, List.length_cons] at this
      omega
    simp only
    by_cases hmore : first &&& 0x80 ≠ 0
    · rw [if_pos hmore]
      rcases hloop : getPriceLoop rest (pos + 1) 6 _ with _ | ⟨v, p⟩
      · exact ⟨h, le_rfl⟩
      · have := getPriceLoop_bounds _ hloop
        simp only
        omega
    · rw [if_neg hmore]
      simp only
      omega

lemma getPrice_of_le {data : Bytes} {pos : ℕ} (h : data.length ≤ pos) :
    getPrice data pos = (0, data.length) := by
  rw [getPrice, List.drop_eq_nil_of_le h]

/-- **A price that is cut off** is zero and ends at the cut; otherwise the cut is not noticed.

**Proof sketch.** If the cut is at or before the price, nothing of it is left. Otherwise its first
byte is, and `getPriceLoop_take` says that the bytes behind it are read exactly when the price ends
before the cut; if it does not, the exit of `get_price` returns zero and the end of the part, which
is the cut. -/
lemma getPrice_take {data : Bytes} {cut : ℕ} (hcut : cut ≤ data.length) (pos : ℕ) :
    getPrice (data.take cut) pos =
      if (getPrice data pos).2 ≤ cut then getPrice data pos else (0, cut) := by
  have hsize : (data.take cut).length = cut := List.length_take_of_le hcut
  by_cases hcutPos : cut ≤ pos
  · rw [getPrice_of_le (hsize.le.trans hcutPos), hsize]
    by_cases hpos : pos < data.length
    · rw [if_neg]
      have := (getPrice_bounds hpos).1
      omega
    · rw [getPrice_of_le (not_lt.mp hpos)]
      split
      · simp only [Prod.mk.injEq, true_and]
        omega
      · rfl
  · obtain ⟨k, rfl⟩ : ∃ k, cut = pos + (k + 1) := ⟨cut - pos - 1, by omega⟩
    rcases hdrop : data.drop pos with _ | ⟨first, rest⟩
    · rw [List.drop_eq_nil_iff] at hdrop
      omega
    · have hlength : data.length = pos + (rest.length + 1) := by
        have := congrArg List.length hdrop
        rw [List.length_drop, List.length_cons] at this
        omega
      have htake : (data.take (pos + (k + 1))).drop pos = first :: rest.take k := by
        rw [List.drop_take, hdrop, Nat.add_sub_cancel_left, List.take_succ_cons]
      unfold getPrice
      rw [htake, hdrop, hsize]
      simp only
      by_cases hmore : first &&& 0x80 ≠ 0
      · rw [if_pos hmore, if_pos hmore, getPriceLoop_take]
        rcases hloop : getPriceLoop rest (pos + 1) 6 _ with _ | ⟨v, p⟩
        · simp only [Option.filter_none]
          split
          · simp only [Prod.mk.injEq, true_and]
            omega
          · rfl
        · by_cases hend : p < pos + 1 + k
          · rw [Option.filter_some, if_pos (by simpa using hend)]
            exact (if_pos (show p + 1 ≤ pos + (k + 1) by omega)).symm
          · rw [Option.filter_some, if_neg (by simpa using hend)]
            exact (if_neg (show ¬ p + 1 ≤ pos + (k + 1) by omega)).symm
      · rw [if_neg hmore, if_neg hmore]
        exact (if_pos (show pos + 1 ≤ pos + (k + 1) by omega)).symm

/-- A number that ends before a cut. -/
lemma field_take {data : Bytes} {pos w cut : ℕ} (h : pos + w ≤ cut) :
    LittleEndian.field (data.take cut) pos w = LittleEndian.field data pos w := by
  rw [LittleEndian.field, LittleEndian.field, List.drop_take, List.take_take]
  congr 2
  omega

lemma readU16_take {data : Bytes} {pos cut : ℕ} (hcut : cut ≤ data.length) :
    readU16 (data.take cut) pos = if pos + 2 ≤ cut then readU16 data pos else 0 := by
  rw [readU16, readU16, List.length_take_of_le hcut]
  by_cases h : pos + 2 ≤ cut
  · rw [if_neg (by omega), if_pos h, if_neg (by omega), field_take h]
  · rw [if_pos (by omega), if_neg h]

lemma readU32_take {data : Bytes} {pos cut : ℕ} (hcut : cut ≤ data.length) :
    readU32 (data.take cut) pos = if pos + 4 ≤ cut then readU32 data pos else 0 := by
  rw [readU32, readU32, List.length_take_of_le hcut]
  by_cases h : pos + 4 ≤ cut
  · rw [if_neg (by omega), if_pos h, if_neg (by omega), field_take h]
  · rw [if_pos (by omega), if_neg h]

/-- **How fields are read where the bytes run out.**

**Proof sketch.** Each law for each kind of field. For a price these are `getPrice_bounds` and
`getPrice_take`; a word of two or four bytes takes its bytes and is zero unless all of them are
there (`readU16_take`, `readU32_take`). -/
theorem lenient_readField : Records.Lenient readField 0 where
  advance f data pos h := by
    cases f with
    | price =>
      rcases Nat.lt_or_ge pos data.length with hlt | hge
      · exact (getPrice_bounds hlt).1.le
      · rw [readField, getPrice_of_le hge]
        exact h
    | u16 => exact Nat.le_add_right pos 2
    | u32 => exact Nat.le_add_right pos 4
  complete f data pos cut hcut h := by
    cases f with
    | price => exact (getPrice_take hcut pos).trans (if_pos h)
    | u16 => rw [readField, readField, readU16_take hcut, if_pos (show pos + 2 ≤ cut from h)]
    | u32 => rw [readField, readField, readU32_take hcut, if_pos (show pos + 4 ≤ cut from h)]
  cut f data pos cut hcut h := by
    cases f with
    | price =>
      have hread : readField .price (data.take cut) pos = (0, cut) :=
        (getPrice_take hcut pos).trans (if_neg (not_le.mpr h))
      exact hread ▸ ⟨rfl, le_rfl⟩
    | u16 =>
      rw [readField, readU16_take hcut, if_neg (show ¬ pos + 2 ≤ cut from not_le.mpr h)]
      exact ⟨rfl, (show cut < pos + 2 from h).le⟩
    | u32 =>
      rw [readField, readU32_take hcut, if_neg (show ¬ pos + 4 ≤ cut from not_le.mpr h)]
      exact ⟨rfl, (show cut < pos + 4 from h).le⟩
  beyond f data pos h := by
    cases f with
    | price =>
      rw [readField, getPrice_of_le h]
      exact ⟨rfl, le_rfl⟩
    | u16 =>
      rw [readField, readU16, if_pos (by omega)]
      exact ⟨rfl, by omega⟩
    | u32 =>
      rw [readField, readU32, if_pos (by omega)]
      exact ⟨rfl, by omega⟩

/-! ## Lists of records with checks -/

/-- Along a list of records, each with its fields behind a head, none of the fields panics. -/
def RecordsFit (guard head : ℕ) (fields : List Field) (data : Bytes) : ℕ → ℕ → Prop
  | 0, _ => True
  | count + 1, pos =>
    data.length < pos + guard ∨
      FieldsFit fields data (pos + head) ∧
        RecordsFit guard head fields data count (readFields fields data (pos + head)).2

/-- A loop over such records does not panic exactly if none of the fields does. -/
lemma each_fieldsFit_iff {β S : Type} {guard : ℕ} {data : Bytes} (head : ℕ) (fields : List Field)
    {step : ℕ → S → Option (β × ℕ × S)}
    (hstep : ∀ pos s, pos + guard ≤ data.length →
      ∃ b s', step pos s = some (b, (readFields fields data (pos + head)).2, s'))
    (count : ℕ) : ∀ (pos : ℕ) (s : S),
      Records.Each data.length guard step (fun pos _ => FieldsFit fields data (pos + head)) count
          pos s ↔
        RecordsFit guard head fields data count pos := by
  induction count with
  | zero => exact fun _ _ => Iff.rfl
  | succ count ih =>
    intro pos s
    rw [Records.Each, RecordsFit]
    by_cases hfew : data.length < pos + guard
    · exact iff_of_true (.inl hfew) (.inl hfew)
    · obtain ⟨b, s', hs⟩ := hstep pos s (not_lt.mp hfew)
      simp only [hs, Option.mem_some_iff, forall_eq', ih]

/-- Fields of which the first is a price take at least one byte. -/
lemma lt_readFields {fields : List Field} {data : Bytes} {pos : ℕ} (h : pos < data.length) :
    pos < (readFields (.price :: fields) data pos).2 := by
  have hrest (fs : List Field) : ∀ {p : ℕ}, pos < p → pos < (readFields fs data p).2 := by
    induction fs with
    | nil => exact id
    | cons f fs ih =>
      intro p hp
      refine ih ?_
      rcases Nat.le_total p data.length with hle | hge
      · exact hp.trans_le (lenient_readField.advance f hle)
      · exact h.trans_le (lenient_readField.beyond f hge).2
  exact hrest fields (getPrice_bounds h).1

/-- Where every record begins with a price, the number of records does not matter from as many on as
there are bytes.

**Proof sketch.** Induction on the smaller count. A price takes at least one byte, so every record
does, and when the count is used up the data are too. -/
lemma recordsFit_of_le {guard : ℕ} {fields : List Field} {data : Bytes} (hguard : 0 < guard)
    (count : ℕ) : ∀ {pos count' : ℕ}, data.length ≤ pos + count → count ≤ count' →
      (RecordsFit guard 0 (.price :: fields) data count' pos ↔
        RecordsFit guard 0 (.price :: fields) data count pos) := by
  induction count with
  | zero =>
    intro pos count' hsize _
    refine iff_of_true ?_ trivial
    cases count' with
    | zero => trivial
    | succ count' => exact .inl (by omega)
  | succ count ih =>
    intro pos count' hsize hcount
    obtain ⟨count', rfl⟩ : ∃ k, count' = k + 1 := ⟨count' - 1, by omega⟩
    rw [RecordsFit, RecordsFit]
    by_cases hfew : data.length < pos + guard
    · exact iff_of_true (.inl hfew) (.inl hfew)
    · have hlt : pos < (readFields (.price :: fields) data pos).2 := lt_readFields (by omega)
      rw [Nat.add_zero, ih (by omega) (by omega)]

end Tdxrs
