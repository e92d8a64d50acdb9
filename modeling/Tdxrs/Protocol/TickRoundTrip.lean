import Tdxrs.Protocol.FieldEncoding

set_option relaxedAutoImplicit false
set_option autoImplicit false

/-!
# The round trip of transactions

What a server sends for a list of transactions, in the layout of the current day and in that of an
earlier day, and that the parsers of `Tdxrs.Protocol.Transactions` return exactly that list. The
layout of an earlier day has four bytes more before the first record and one field less in each.
A price travels as the difference to the one before it; neither the differences nor the prices
reach `2 ^ 62`, so that the sums never come to the bounds of `i64` at which they would stay.

## Main definitions

* `Tdxrs.TickRecord` — a transaction as it travels; `Tdxrs.TickRecord.Follows` — it can be written
  after a price.
* `Tdxrs.encodeTransactions`, `Tdxrs.encodeHistoryTransactions` — the two responses.

## Main results

* `Tdxrs.reads_tick` — a record of either layout is read back.
* `Tdxrs.transactions_round_trip` — both parsers return the list that was encoded.
-/

namespace Tdxrs

/-! ## Records -/

/-- A transaction as it travels, with its price in units. -/
structure TickRecord where
  minutes : ℕ
  price : ℤ
  vol : ℤ
  num : ℕ
  buyorsell : ℕ
  reserved : ℕ
deriving DecidableEq

namespace TickRecord

/-- The transaction can be written after one with the price `prev`. -/
structure Follows (r : TickRecord) (prev : ℤ) : Prop where
  minutes : r.minutes < 2 ^ 16
  prices : prev.natAbs < 2 ^ 62 ∧ r.price.natAbs < 2 ^ 62 ∧ (r.price - prev).natAbs < 2 ^ 62
  vol : r.vol.natAbs < 2 ^ 62
  words : r.num < 2 ^ 32 ∧ r.buyorsell < 2 ^ 32 ∧ r.reserved < 2 ^ 32

/-- All transactions of a list can be written, each after the one before it. -/
def AllFollow : ℤ → List TickRecord → Prop
  | _, [] => True
  | prev, r :: rs => r.Follows prev ∧ AllFollow r.price rs

/-- The transaction that is read of a record. -/
def tick (coefficient : ℚ) (r : TickRecord) : TickData where
  time := minutesText r.minutes
  price := r.price * coefficient
  vol := r.vol
  num := r.num
  buyorsell := r.buyorsell
  reserved := r.reserved

/-- The transaction of an earlier day, which has no number. -/
def historyTick (coefficient : ℚ) (r : TickRecord) : TickData :=
  { r.tick coefficient with num := 0 }

/-- What is written in the fields of a record of the day. -/
def values (prev : ℤ) (r : TickRecord) : List ℤ :=
  [r.price - prev, r.vol, r.num, r.buyorsell, r.reserved]

/-- What is written in the fields of a record of an earlier day. -/
def historyValues (prev : ℤ) (r : TickRecord) : List ℤ :=
  [r.price - prev, r.vol, r.buyorsell, r.reserved]

end TickRecord

/-- The records of a layout, which is given by the fields of a record and what is written in
them. -/
def tickFormat (fields : List Field) (values : ℤ → TickRecord → List ℤ) :
    Records.Format ℤ TickRecord UInt8 where
  write prev r := LittleEndian.toLE 2 r.minutes ++ putFields fields (values prev r)
  next _ r := r.price

/-- The records of the day. -/
def dayFormat : Records.Format ℤ TickRecord UInt8 := tickFormat tickFields TickRecord.values

/-- The records of an earlier day. -/
def historyFormat : Records.Format ℤ TickRecord UInt8 :=
  tickFormat historyTickFields TickRecord.historyValues

/-- The response with the transactions of the day. -/
def encodeTransactions (rs : List TickRecord) : Bytes :=
  LittleEndian.toLE 2 rs.length ++ dayFormat.bytes 0 rs

/-- The response with the transactions of an earlier day: `skipped` is not read. -/
def encodeHistoryTransactions (skipped : Bytes) (rs : List TickRecord) : Bytes :=
  LittleEndian.toLE 2 rs.length ++ (skipped ++ historyFormat.bytes 0 rs)

/-! ## Reading records back -/

section

variable {m : Type → Type} [Monad m] [LawfulMonad m] {M : Machine m} {fields : List Field}
  {values : ℤ → TickRecord → List ℤ} {tick : Text → ℚ → List Int64 → TickData}
  {value : TickRecord → TickData} {coefficient : ℚ}

/-- **A record of either layout is read back** on every machine, if its first field is the price and
the transaction is put together from what the others say.

**Proof sketch.** The minutes stand in two bytes, and behind them the fields of the layout
(`readFieldsM_of_drop`). The first of them is the difference to the last price; the saturating sum
is the price itself, which is far from the ends of the range, and is what the next record counts
from. -/
lemma reads_tick (hM : M.InRange)
    (hfits : ∀ {prev} {r : TickRecord}, r.Follows prev →
      List.Forall₂ Field.Fits fields (values prev r))
    (hprice : ∀ prev r, (values prev r).head? = some (r.price - prev))
    (hvalue : ∀ {prev} {r : TickRecord}, r.Follows prev →
      tick (minutesText r.minutes) (r.price * coefficient) ((values prev r).map Int64.ofInt) =
        value r)
    (body : Bytes) :
    (tickFormat fields values).Reads (fun _ r => value r) (fun prev r => r.Follows prev) Int64.ofInt
      body (parseTickM M fields tick coefficient body) := by
  intro pos prev r rest hr hdrop
  simp only [tickFormat, List.append_assoc] at hdrop
  have hfields := drop_add hdrop
  rw [LittleEndian.length_toLE] at hfields
  have hdiff : ((values prev r).map Int64.ofInt).getD 0 0 = Int64.ofInt (r.price - prev) := by
    have hhead := hprice prev r
    rw [List.getD_eq_getElem?_getD, List.getElem?_map, ← List.head?_eq_getElem?, hhead]
    rfl
  have hlast : prev + (r.price - prev) = r.price := by omega
  rw [parseTickM, readFieldsM_of_drop hM (hfits hr) hfields, pure_bind]
  simp only [hdiff, saturatingAdd_ofInt hr.prices.1 hr.prices.2.2, hlast,
    toInt_ofInt_of_lt hr.prices.2.1, readU16_of_drop hdrop hr.minutes, hvalue hr]
  refine congrArg pure (congrArg some (Prod.ext rfl (Prod.ext ?_ rfl)))
  simp only [tickFormat, List.length_append, LittleEndian.length_toLE]
  omega

lemma along_follow {rs : List TickRecord} : ∀ {prev : ℤ}, TickRecord.AllFollow prev rs →
    (tickFormat fields values).Along (fun prev r => r.Follows prev) prev rs := by
  induction rs with
  | nil => exact fun _ => trivial
  | cons r rs ih => exact fun h => ⟨h.1, ih h.2⟩

/-- The fields of a record of the day. -/
lemma values_fit {prev : ℤ} {r : TickRecord} (hr : r.Follows prev) :
    List.Forall₂ Field.Fits tickFields (r.values prev) := by
  obtain ⟨hnum, hbuyorsell, hreserved⟩ := hr.words
  simp only [tickFields, TickRecord.values, List.forall₂_cons, List.forall₂_nil_left_iff,
    Field.Fits, Int.natAbs_natCast, and_true]
  exact ⟨hr.prices.2.2, hr.vol, by omega, by omega, by omega⟩

/-- The fields of a record of an earlier day. -/
lemma historyValues_fit {prev : ℤ} {r : TickRecord} (hr : r.Follows prev) :
    List.Forall₂ Field.Fits historyTickFields (r.historyValues prev) := by
  obtain ⟨-, hbuyorsell, hreserved⟩ := hr.words
  simp only [historyTickFields, TickRecord.historyValues, List.forall₂_cons,
    List.forall₂_nil_left_iff, Field.Fits, Int.natAbs_natCast, and_true]
  exact ⟨hr.prices.2.2, hr.vol, by omega, by omega⟩

/-- A record of the day is read back. -/
lemma reads_day (hM : M.InRange) (coefficient : ℚ) (body : Bytes) :
    dayFormat.Reads (fun _ r => r.tick coefficient) (fun prev r => r.Follows prev) Int64.ofInt body
      (parseTickM M tickFields tickOf coefficient body) :=
  reads_tick hM values_fit (fun _ _ => rfl) (fun hr => by
    obtain ⟨hnum, hbuyorsell, hreserved⟩ := hr.words
    simp only [TickRecord.values, tickOf, List.map_cons, List.getD_cons_succ, List.getD_cons_zero,
      toInt_ofInt_of_lt hr.vol, asU32_ofInt hnum, asU32_ofInt hbuyorsell, asU32_ofInt hreserved]
    rfl) body

/-- A record of an earlier day is read back. -/
lemma reads_history (hM : M.InRange) (coefficient : ℚ) (body : Bytes) :
    historyFormat.Reads (fun _ r => r.historyTick coefficient) (fun prev r => r.Follows prev)
      Int64.ofInt body (parseTickM M historyTickFields historyTickOf coefficient body) :=
  reads_tick hM historyValues_fit (fun _ _ => rfl) (fun hr => by
    obtain ⟨-, hbuyorsell, hreserved⟩ := hr.words
    simp only [TickRecord.historyValues, historyTickOf, List.map_cons, List.getD_cons_succ,
      List.getD_cons_zero, toInt_ofInt_of_lt hr.vol, asU32_ofInt hbuyorsell, asU32_ofInt hreserved]
    rfl) body

/-- A record of either layout takes the two bytes of the time and a byte for each field. -/
lemma le_length_tick (hvalues : ∀ prev r, fields.length = (values prev r).length)
    (hfields : ∀ f ∈ fields, f = .price) (prev : ℤ) (r : TickRecord) :
    2 + fields.length ≤ ((tickFormat fields values).write prev r).length := by
  have hleast := Records.le_length_writeFields Field.least_le (hvalues prev r)
  have hsum : (fields.map Field.least).sum = fields.length := by
    rw [List.map_congr_left (g := fun _ => 1) fun f hf => by rw [hfields f hf]; rfl]
    simp
  rw [hsum] at hleast
  rw [tickFormat, List.length_append, LittleEndian.length_toLE]
  exact Nat.add_le_add_left hleast 2

/-- The check of the parser leaves a byte of a record of the day over. -/
lemma le_length_day (prev : ℤ) (r : TickRecord) : 7 ≤ (dayFormat.write prev r).length := by
  have hprices : ∀ f ∈ tickFields, f = .price := by decide
  exact le_length_tick (fun _ _ => rfl) hprices prev r

/-- The check of the parser is for all that a record of an earlier day has at least. -/
lemma le_length_history (prev : ℤ) (r : TickRecord) : 6 ≤ (historyFormat.write prev r).length := by
  have hprices : ∀ f ∈ historyTickFields, f = .price := by decide
  exact le_length_tick (fun _ _ => rfl) hprices prev r

end

/-! ## The round trips -/

section

variable {m : Type → Type} [Monad m] [LawfulMonad m] {M : Machine m} {coefficient : ℚ}
  {rs : List TickRecord}

/-- The response of the day is read back on every machine.

**Proof sketch.** The loop reads the records back one by one (`Records.Format.loopM_bytes` with
`reads_day`). A record has at least seven bytes and the guard asks for six. -/
lemma parseTransactionDataM_encode (hM : M.InRange) (hlen : rs.length < 2 ^ 16)
    (hrs : TickRecord.AllFollow 0 rs) :
    parseTransactionDataWithCoefficientM M (encodeTransactions rs) coefficient =
      pure (.ok (rs.map (TickRecord.tick coefficient))) := by
  have hzero : (encodeTransactions rs).drop 0 =
      LittleEndian.toLE 2 rs.length ++ dayFormat.bytes 0 rs := rfl
  have hrecords := drop_add hzero
  rw [Nat.zero_add, LittleEndian.length_toLE, ← List.append_nil (dayFormat.bytes 0 rs)] at hrecords
  have hnonempty : ¬(encodeTransactions rs).length < 2 := by
    rw [encodeTransactions, List.length_append, LittleEndian.length_toLE]
    omega
  have hloop := Records.Format.loopM_bytes (reads_day hM coefficient (encodeTransactions rs))
    (show 0 < 6 by decide) (fun prev r _ => (by decide : 6 ≤ 7).trans (le_length_day prev r))
    0 (.inl rfl) (along_follow hrs) hrecords
  rw [parseTransactionDataWithCoefficientM, if_neg hnonempty, readU16_of_drop hzero hlen]
  refine (congrArg (· >>= _) hloop).trans ?_
  rw [pure_bind, Records.Format.values_eq_map]

/-- The response of an earlier day is read back on every machine.

**Proof sketch.** As for the day, with four bytes between the count and the records; here a record
has six bytes at least, which is the guard. -/
lemma parseHistoryTransactionDataM_encode (hM : M.InRange) {skipped : Bytes}
    (hskipped : skipped.length = 4) (hlen : rs.length < 2 ^ 16) (hrs : TickRecord.AllFollow 0 rs) :
    parseHistoryTransactionDataWithCoefficientM M (encodeHistoryTransactions skipped rs)
        coefficient =
      pure (.ok (rs.map (TickRecord.historyTick coefficient))) := by
  have hzero : (encodeHistoryTransactions skipped rs).drop 0 =
      LittleEndian.toLE 2 rs.length ++ (skipped ++ historyFormat.bytes 0 rs) := rfl
  have hrecords := drop_add (drop_add hzero)
  rw [Nat.zero_add, LittleEndian.length_toLE, hskipped,
    ← List.append_nil (historyFormat.bytes 0 rs)] at hrecords
  have hnonempty : ¬(encodeHistoryTransactions skipped rs).length < 6 := by
    simp only [encodeHistoryTransactions, List.length_append, LittleEndian.length_toLE, hskipped]
    omega
  have hloop := Records.Format.loopM_bytes
    (reads_history hM coefficient (encodeHistoryTransactions skipped rs)) (show 0 < 6 by decide)
    (fun prev r _ => le_length_history prev r) 0 (.inl rfl) (along_follow hrs) hrecords
  rw [parseHistoryTransactionDataWithCoefficientM, if_neg hnonempty, readU16_of_drop hzero hlen]
  refine (congrArg (· >>= _) hloop).trans ?_
  rw [pure_bind, Records.Format.values_eq_map]

end

/-- **The round trip of transactions.** Up to 65535 transactions, encoded in either layout, are what
its parser returns for any coefficient, with and without overflow checks.

**Proof sketch.** `parseTransactionDataM_encode` and `parseHistoryTransactionDataM_encode`, each for
a machine that wraps and for one that checks. -/
theorem transactions_round_trip (coefficient : ℚ) (rs : List TickRecord) (hlen : rs.length ≤ 65535)
    (hrs : TickRecord.AllFollow 0 rs) :
    parseTransactionDataWithCoefficient (encodeTransactions rs) coefficient =
        .ok (rs.map (TickRecord.tick coefficient)) ∧
      parseTransactionDataWithCoefficientM Machine.checked (encodeTransactions rs) coefficient =
        .ok (.ok (rs.map (TickRecord.tick coefficient))) ∧
      ∀ skipped : Bytes, skipped.length = 4 →
        parseHistoryTransactionDataWithCoefficient (encodeHistoryTransactions skipped rs)
            coefficient = .ok (rs.map (TickRecord.historyTick coefficient)) ∧
          parseHistoryTransactionDataWithCoefficientM Machine.checked
              (encodeHistoryTransactions skipped rs) coefficient =
            .ok (.ok (rs.map (TickRecord.historyTick coefficient))) := by
  have hlen' : rs.length < 2 ^ 16 := by omega
  refine ⟨parseTransactionDataM_encode inRange_wrapping hlen' hrs,
    parseTransactionDataM_encode inRange_checked hlen' hrs, fun skipped hskipped => ?_⟩
  exact ⟨parseHistoryTransactionDataM_encode inRange_wrapping hskipped hlen' hrs,
    parseHistoryTransactionDataM_encode inRange_checked hskipped hlen' hrs⟩

/-- Two transactions, of which the second one is cheaper. -/
theorem transactions_round_trip_two :
    let rs : List TickRecord := [⟨570, 1000, 5, 1, 0, 0⟩, ⟨571, 999, 7, 2, 1, 0⟩]
    parseTransactionDataWithCoefficient (encodeTransactions rs) (1 / 100) =
        .ok (rs.map (TickRecord.tick (1 / 100))) ∧
      parseTransactionDataWithCoefficientM Machine.checked (encodeTransactions rs) (1 / 100) =
        .ok (.ok (rs.map (TickRecord.tick (1 / 100)))) ∧
      ∀ skipped : Bytes, skipped.length = 4 →
        parseHistoryTransactionDataWithCoefficient (encodeHistoryTransactions skipped rs)
            (1 / 100) = .ok (rs.map (TickRecord.historyTick (1 / 100))) ∧
          parseHistoryTransactionDataWithCoefficientM Machine.checked
              (encodeHistoryTransactions skipped rs) (1 / 100) =
            .ok (.ok (rs.map (TickRecord.historyTick (1 / 100)))) :=
  transactions_round_trip (1 / 100) _ (by decide)
    ⟨⟨by decide, by decide, by decide, by decide⟩,
      ⟨⟨by decide, by decide, by decide, by decide⟩, trivial⟩⟩

end Tdxrs
