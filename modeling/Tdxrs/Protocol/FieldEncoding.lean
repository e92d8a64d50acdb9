import Tdxrs.Library.RecordWriting
import Tdxrs.Protocol.BarFields
import Tdxrs.Protocol.Encoding
import Tdxrs.Protocol.Transactions

set_option relaxedAutoImplicit false
set_option autoImplicit false

/-!
# Fields as the server writes them

The other side of `Tdxrs.readFieldM`: what a server writes for a field, and that every build of the
client reads it back. A price is written in its shortest form and is smaller than `2 ^ 62`, so that
no sum or difference of two of them leaves 64 bits.

## Main definitions

* `Tdxrs.Field.put`, `Tdxrs.Field.Fits` — what is written for a value, and which values can be
  written.

## Main results

* `Tdxrs.getPriceM_of_drop` — a price is read back.
* `Tdxrs.readFieldsM_of_drop` — the fields of a record are read back.
* `Tdxrs.parseKLineM_of_drop` — the part of a record that all bars share is read back.
-/

namespace Tdxrs

/-! ## Prices -/

/-- A number below `2 ^ 62` is represented exactly. -/
lemma toInt_ofInt_of_lt {z : ℤ} (hz : z.natAbs < 2 ^ 62) : (Int64.ofInt z).toInt = z :=
  Int64.toInt_ofInt_of_le (by omega) (by omega)

/-- A price that stands at a position in its shortest form is read without a panic. -/
lemma priceFits_of_drop {body rest : Bytes} {pos : ℕ} {z : ℤ}
    (h : body.drop pos = Varint.put z ++ rest) (hz : z.natAbs < 2 ^ 62) : PriceFits body pos := by
  unfold PriceFits
  rw [getPrice_of_drop h hz]
  rintro ⟨hmin, -⟩
  have hexact := toInt_ofInt_of_lt hz
  rw [show Int64.ofInt z = Int64.minValue from hmin] at hexact
  have hleast : Int64.minValue.toInt = -2 ^ 63 := rfl
  omega

section Machines

variable {m : Type → Type} [Monad m] [LawfulMonad m] {M : Machine m}

/-- A price that is not the least number with a sign is the same on every machine.

**Proof sketch.** The only operation that can leave the range is the sign: the least number has no
negative. `PriceFits` excludes just that number, and everything else is the same step in both. -/
lemma getPriceM_eq (hM : M.InRange) {data : Bytes} {pos : ℕ} (h : PriceFits data pos) :
    getPriceM M data pos = pure (getPrice data pos) := by
  unfold PriceFits at h
  unfold getPriceM
  unfold getPrice at h ⊢
  rcases hdrop : data.drop pos with _ | ⟨first, rest⟩
  · rfl
  · have hfirst : data.getD pos 0 = first := by
      rw [List.getD_eq_getElem?_getD, ← List.head?_drop, hdrop]
      rfl
    simp only [hdrop, hfirst] at h ⊢
    rcases hdecoded : (if first &&& 0x80 ≠ 0 then getPriceLoop rest (pos + 1) 6
      (first &&& 0x3F).toUInt64.toInt64 else some ((first &&& 0x3F).toUInt64.toInt64, pos))
      with _ | ⟨result, pos'⟩
    · rfl
    · by_cases hsign : first &&& 0x40 ≠ 0
      · simp only [hdecoded, if_pos hsign] at h ⊢
        have hresult : result ≠ Int64.minValue := by
          rintro rfl
          exact h ⟨rfl, hsign⟩
        rw [hM.neg ((fitsI64_neg result).mpr hresult), pure_bind]
      · simp only [if_neg hsign]

/-- **A price is read back** on every machine. -/
lemma getPriceM_of_drop (hM : M.InRange) {body rest : Bytes} {pos : ℕ} {z : ℤ}
    (h : body.drop pos = Varint.put z ++ rest) (hz : z.natAbs < 2 ^ 62) :
    getPriceM M body pos = pure (Int64.ofInt z, pos + (Varint.put z).length) := by
  rw [getPriceM_eq hM (priceFits_of_drop h hz), getPrice_of_drop h hz]

omit [LawfulMonad m] in
/-- A sum of two numbers below `2 ^ 62` is the same on every machine. -/
lemma add_ofInt (hM : M.InRange) {a b : ℤ} (ha : a.natAbs < 2 ^ 62) (hb : b.natAbs < 2 ^ 62) :
    M.add (Int64.ofInt a) (Int64.ofInt b) = pure (Int64.ofInt (a + b)) := by
  rw [hM.add, Int64.ofInt_add]
  rw [toInt_ofInt_of_lt ha, toInt_ofInt_of_lt hb]
  constructor <;> omega

end Machines

/-! ## Sums and conversions -/

/-- A sum that is in range does not stay at a bound. -/
lemma saturatingAdd_ofInt {a b : ℤ} (ha : a.natAbs < 2 ^ 62) (hb : b.natAbs < 2 ^ 62) :
    saturatingAdd (Int64.ofInt a) (Int64.ofInt b) = Int64.ofInt (a + b) := by
  rw [saturatingAdd, toInt_ofInt_of_lt ha, toInt_ofInt_of_lt hb]
  have hmin : Int64.minValue.toInt = -2 ^ 63 := rfl
  have hmax : Int64.maxValue.toInt = 2 ^ 63 - 1 := rfl
  exact Int64.ofIntLE_eq_ofIntClamp.symm.trans
    (Int64.ofIntLE_eq_ofInt (by omega : _ ≤ a + b) (by omega))

/-- A 32-bit number is converted to itself. -/
lemma asU32_ofInt {n : ℕ} (hn : n < 2 ^ 32) : asU32 (Int64.ofInt n) = n := by
  rw [asU32, toInt_ofInt_of_lt (by omega), Int.emod_eq_of_lt (by omega) (by omega),
    Int.toNat_natCast]

/-! ## Fields -/

/-- What is written for a field. -/
def Field.put : Field → ℤ → Bytes
  | .price, z => Varint.put z
  | .u16, z => LittleEndian.toLE 2 z.toNat
  | .u32, z => LittleEndian.toLE 4 z.toNat

/-- The values that can be written for a field. -/
def Field.Fits : Field → ℤ → Prop
  | .price, z => z.natAbs < 2 ^ 62
  | .u16, z => 0 ≤ z ∧ z < 2 ^ 16
  | .u32, z => 0 ≤ z ∧ z < 2 ^ 32

/-- The least number of bytes that a field takes. -/
def Field.least : Field → ℕ
  | .price => 1
  | .u16 => 2
  | .u32 => 4

lemma Field.least_le (f : Field) (z : ℤ) : f.least ≤ (f.put z).length := by
  cases f with
  | price => exact Varint.length_put_pos z
  | u16 => exact (LittleEndian.length_toLE 2 _).ge
  | u32 => exact (LittleEndian.length_toLE 4 _).ge

/-- The fields of a record as they are written. -/
abbrev putFields : List Field → List ℤ → Bytes := Records.writeFields Field.put

section Machines

variable {m : Type → Type} [Monad m] [LawfulMonad m] {M : Machine m}

/-- **A field is read back** on every machine.

**Proof sketch.** A price by `getPriceM_of_drop`. A word that fits is a natural number below its
bound, so its bytes give it back (`readU16_of_drop`, `readU32_of_drop`). -/
lemma readFieldM_of_drop (hM : M.InRange) {f : Field} {z : ℤ} (hz : f.Fits z) {body rest : Bytes}
    {pos : ℕ} (h : body.drop pos = f.put z ++ rest) :
    readFieldM M f body pos = pure (Int64.ofInt z, pos + (f.put z).length) := by
  cases f with
  | price => exact getPriceM_of_drop hM h hz
  | u16 =>
    obtain ⟨hnonneg, hlt⟩ := hz
    obtain ⟨n, rfl⟩ := Int.eq_ofNat_of_zero_le hnonneg
    rw [Field.put, Int.toNat_natCast] at h
    rw [readFieldM, readU16_of_drop h (by omega), Field.put, LittleEndian.length_toLE,
      Int64.ofInt_eq_ofNat]
  | u32 =>
    obtain ⟨hnonneg, hlt⟩ := hz
    obtain ⟨n, rfl⟩ := Int.eq_ofNat_of_zero_le hnonneg
    rw [Field.put, Int.toNat_natCast] at h
    rw [readFieldM, readU32_of_drop h (by omega), Field.put, LittleEndian.length_toLE,
      Int64.ofInt_eq_ofNat]

/-- **The fields of a record are read back** on every machine. By induction on the fields: each
stands where the one before it ends. -/
lemma readFieldsM_of_drop (hM : M.InRange) {fs : List Field} {zs : List ℤ}
    (hzs : List.Forall₂ Field.Fits fs zs) {body rest : Bytes} : ∀ {pos : ℕ},
      body.drop pos = putFields fs zs ++ rest →
      readFieldsM M fs body pos = pure (zs.map Int64.ofInt, pos + (putFields fs zs).length) := by
  induction hzs with
  | nil => exact fun _ => rfl
  | @cons f z fs zs hz _ ih =>
    intro pos h
    rw [putFields, Records.writeFields, List.append_assoc] at h
    rw [readFieldsM, readFieldM_of_drop hM hz h, pure_bind]
    simp only [ih (drop_add h), pure_bind, List.map_cons, putFields, Records.writeFields,
      List.length_append, Nat.add_assoc]

end Machines

/-! ## Bars -/

section Bars

variable {m : Type → Type} [Monad m] [LawfulMonad m] {M : Machine m} {maxValidYear : ℕ}
  {category : UInt8} {r : KLineRecord}

/-- **The part of a record that all bars share is read back** on every machine.

**Proof sketch.** The seven fields stand one behind the other, which gives the bytes at each of the
positions (`drop_add`). The date is valid, so the parser goes on; each price is stored as the
difference from the close before it or from its own open, and adding it again stays far from the
ends of the range, because all prices are below `2 ^ 54` in size. -/
lemma parseKLineM_of_drop (hM : M.InRange) (hr : r.Encodable maxValidYear category) {prev : ℤ}
    (hprev : prev.natAbs < 2 ^ 55) {body rest : Bytes} {pos : ℕ}
    (h : body.drop pos = r.encode category prev ++ rest) :
    parseKLineM M maxValidYear category body pos (Int64.ofInt prev) =
      pure (some (r.bar category, pos + (r.encode category prev).length, Int64.ofInt r.close)) := by
  obtain ⟨hopen, hclose, hhigh, hlow⟩ := hr.prices
  have hdate := getDatetime_of_drop hr (show body.drop pos = r.encodeDate category ++ _ from by
    rw [h, KLineRecord.encode, List.append_assoc])
  unfold KLineRecord.encode at h ⊢
  simp only [List.append_assoc] at h
  have h1 := drop_add h
  have h2 := drop_add h1
  have h3 := drop_add h2
  have h4 := drop_add h3
  have h5 := drop_add h4
  have h6 := drop_add h5
  rw [KLineRecord.length_encodeDate] at h1 h2 h3 h4 h5 h6
  rw [LittleEndian.length_toLE] at h6
  have hvalid : ¬(r.year < 1980 ∨ maxValidYear < r.year ∨ ¬(1 ≤ r.month ∧ r.month ≤ 12) ∨
      ¬(1 ≤ r.day ∧ r.day ≤ 31)) := by
    have := hr.year
    have := hr.month
    have := hr.day
    omega
  have hsum (a b : ℤ) : a + (b - a) = b := by omega
  have hvol (p : ℕ) := getVolumeM_eq hM (readU32_lt body p)
  unfold parseKLineM
  simp only [hdate, if_neg hvalid, getPriceM_of_drop hM h1 (by omega), pure_bind,
    add_ofInt hM (a := prev) (b := r.open - prev) (by omega) (by omega), hsum,
    getPriceM_of_drop hM h2 (by omega), getPriceM_of_drop hM h3 (by omega),
    getPriceM_of_drop hM h4 (by omega),
    add_ofInt hM (a := r.open) (b := r.close - r.open) (by omega) (by omega),
    add_ofInt hM (a := r.open) (b := r.high - r.open) (by omega) (by omega),
    add_ofInt hM (a := r.open) (b := r.low - r.open) (by omega) (by omega), hvol,
    readU32_of_drop h5 hr.words.1, readU32_of_drop h6 hr.words.2, thousandths_ofInt hopen,
    thousandths_ofInt hclose, thousandths_ofInt hhigh, thousandths_ofInt hlow]
  refine congrArg pure (congrArg some (Prod.ext rfl (Prod.ext ?_ rfl)))
  simp only [List.length_append, KLineRecord.length_encodeDate, LittleEndian.length_toLE]
  omega

end Bars

end Tdxrs
