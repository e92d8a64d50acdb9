import Tdxrs.Protocol.Fields

set_option relaxedAutoImplicit false
set_option autoImplicit false

/-!
# Parsing transactions

`parse_transaction_data_with_coefficient` and `parse_history_transaction_data_with_coefficient` of
`src/protocol/parsers.rs`. A record holds a time and prices of variable length; the price is the
difference to that of the record before. Both parsers add the differences with saturation.

## Main definitions

* `Tdxrs.TickData` — a transaction.
* `Tdxrs.saturatingAdd`, `Tdxrs.asU32` — the conversions and sums of the source.
* `Tdxrs.parseTickM` — a record, on a machine.
* `Tdxrs.parseTransactionDataWithCoefficient`,
  `Tdxrs.parseHistoryTransactionDataWithCoefficient` — the parsers.

## Main results

* `Tdxrs.parseTick_eq` — what a record is.
* `Tdxrs.runs_parseTransactionData`, `Tdxrs.runs_parseHistoryTransactionData` — when the parsers do
  not panic.
-/

namespace Tdxrs

/-- A transaction. -/
structure TickData where
  time : Text
  price : ℚ
  vol : ℚ
  num : ℕ
  buyorsell : ℕ
  reserved : ℕ
deriving DecidableEq

/-- A sum that stays at the bounds of `i64`. -/
def saturatingAdd (a b : Int64) : Int64 := Int64.ofIntClamp (a.toInt + b.toInt)

/-- Conversion to `u32`. -/
def asU32 (v : Int64) : ℕ := (v.toInt % 2 ^ 32).toNat

/-- The text of a time that is given in minutes, `HH:MM`. -/
def minutesText (minutes : ℕ) : Text :=
  Decimal.pad 2 (minutes / 60) ++ ':' :: Decimal.pad 2 (minutes % 60)

/-! ## The parsers on a machine -/

/-- The fields of a transaction: price, volume, number, direction and the reserved one. -/
def tickFields : List Field := [.price, .price, .price, .price, .price]

/-- A transaction from its fields. -/
def tickOf (time : Text) (price : ℚ) (v : List Int64) : TickData where
  time
  price
  vol := (v.getD 1 0).toInt
  num := asU32 (v.getD 2 0)
  buyorsell := asU32 (v.getD 3 0)
  reserved := asU32 (v.getD 4 0)

/-- The fields of a transaction of an earlier day, which has no number. -/
def historyTickFields : List Field := [.price, .price, .price, .price]

/-- A transaction of an earlier day from its fields. -/
def historyTickOf (time : Text) (price : ℚ) (v : List Int64) : TickData where
  time
  price
  vol := (v.getD 1 0).toInt
  num := 0
  buyorsell := asU32 (v.getD 2 0)
  reserved := asU32 (v.getD 3 0)

section

variable {m : Type → Type} [Monad m] (M : Machine m)

/-- A record: the transaction, the position after it and its price. -/
def parseTickM (fields : List Field) (tick : Text → ℚ → List Int64 → TickData) (coefficient : ℚ)
    (body : Bytes) (pos : ℕ) (lastPrice : Int64) : m (Option (TickData × ℕ × Int64)) := do
  let minutes := readU16 body pos
  let (v, pos) ← readFieldsM M fields body (pos + 2)
  let lastPrice := saturatingAdd lastPrice (v.getD 0 0)
  let price := lastPrice.toInt * coefficient
  pure (some (tick (minutesText minutes) price v, pos, lastPrice))

/-- Parses the transactions of the day, on a machine. -/
def parseTransactionDataWithCoefficientM (body : Bytes) (coefficient : ℚ) :
    m (Except TdxError (List TickData)) :=
  if body.length < 2 then pure (.error (ErrorCode.responseLengthMismatch.err "body too short"))
  else do
    let result ← Records.loopM body.length 6 (parseTickM M tickFields tickOf coefficient body)
      (readU16 body 0) 2 0
    pure (.ok result)

/-- Parses the transactions of an earlier day, on a machine. -/
def parseHistoryTransactionDataWithCoefficientM (body : Bytes) (coefficient : ℚ) :
    m (Except TdxError (List TickData)) :=
  if body.length < 6 then pure (.error (ErrorCode.responseLengthMismatch.err "body too short"))
  else do
    let result ← Records.loopM body.length 6
      (parseTickM M historyTickFields historyTickOf coefficient body) (readU16 body 0) 6 0
    pure (.ok result)

end

/-! ## The parsers -/

/-- A record of the release build. -/
def parseTick (fields : List Field) (tick : Text → ℚ → List Int64 → TickData) (coefficient : ℚ)
    (body : Bytes) (pos : ℕ) (lastPrice : Int64) : Option (TickData × ℕ × Int64) :=
  parseTickM Machine.wrapping fields tick coefficient body pos lastPrice

/-- Parses the transactions of the day. -/
def parseTransactionDataWithCoefficient (body : Bytes) (coefficient : ℚ) :
    Except TdxError (List TickData) :=
  parseTransactionDataWithCoefficientM Machine.wrapping body coefficient

/-- Parses the transactions of an earlier day. -/
def parseHistoryTransactionDataWithCoefficient (body : Bytes) (coefficient : ℚ) :
    Except TdxError (List TickData) :=
  parseHistoryTransactionDataWithCoefficientM Machine.wrapping body coefficient

/-- Two transactions, at 10.00 and 9.99. -/
example : (parseTransactionDataWithCoefficient
    ([2, 0] ++ [0x3A, 0x02, 0xA8, 0x0F, 0x05, 1, 0, 0] ++ [0x3B, 0x02, 0x41, 0x07, 2, 1, 0])
    (1 / 100)).toOption =
    some [⟨"09:30".toList, 10, 5, 1, 0, 0⟩, ⟨"09:31".toList, 999 / 100, 7, 2, 1, 0⟩] := by
  decide +kernel

variable {fields : List Field} {tick : Text → ℚ → List Int64 → TickData} {coefficient : ℚ}
  {body : Bytes}

/-- **A record** is put together from its time and its fields. -/
lemma parseTick_eq (pos : ℕ) (lastPrice : Int64) :
    parseTick fields tick coefficient body pos lastPrice =
      some (tick (minutesText (readU16 body pos))
          ((saturatingAdd lastPrice ((readFields fields body (pos + 2)).1.getD 0 0)).toInt *
            coefficient)
          (readFields fields body (pos + 2)).1,
        (readFields fields body (pos + 2)).2,
        saturatingAdd lastPrice ((readFields fields body (pos + 2)).1.getD 0 0)) := by
  rw [← readFieldsM_wrapping]
  rfl

/-! ## When the parsers do not panic -/

lemma runs_parseTick (pos : ℕ) (lastPrice : Int64) :
    Checked.Runs (parseTickM Machine.checked fields tick coefficient body pos lastPrice)
      (parseTick fields tick coefficient body pos lastPrice) (FieldsFit fields body (pos + 2)) := by
  rw [parseTick_eq]
  exact (runs_readFields fields body (pos + 2)).map _

/-- The records of either list do not panic exactly if their prices do not. -/
lemma runs_parseTicks (count pos : ℕ) (lastPrice : Int64) :
    Checked.Runs
      (Records.loopM body.length 6 (parseTickM Machine.checked fields tick coefficient body) count
        pos lastPrice)
      (Records.loop body.length 6 (parseTick fields tick coefficient body) count pos lastPrice)
      (RecordsFit 6 2 fields body count pos) :=
  (Records.runs_loopM (fun pos lastPrice _ => runs_parseTick pos lastPrice) count pos
    lastPrice).of_iff
    (each_fieldsFit_iff 2 fields (fun _ _ _ => ⟨_, _, parseTick_eq _ _⟩) count pos lastPrice)

/-- What the parser of the day returns. -/
lemma parseTransactionDataWithCoefficient_eq (body : Bytes) (coefficient : ℚ) :
    parseTransactionDataWithCoefficient body coefficient =
      if body.length < 2 then .error (ErrorCode.responseLengthMismatch.err "body too short")
      else .ok (Records.loop body.length 6 (parseTick tickFields tickOf coefficient body)
        (readU16 body 0) 2 0) := by
  rw [← Records.loopM_id]
  rfl

/-- What the parser of earlier days returns. -/
lemma parseHistoryTransactionDataWithCoefficient_eq (body : Bytes) (coefficient : ℚ) :
    parseHistoryTransactionDataWithCoefficient body coefficient =
      if body.length < 6 then .error (ErrorCode.responseLengthMismatch.err "body too short")
      else .ok (Records.loop body.length 6
        (parseTick historyTickFields historyTickOf coefficient body) (readU16 body 0) 6 0) := by
  rw [← Records.loopM_id]
  rfl

/-- **When the parser of the day does not panic.** -/
theorem runs_parseTransactionData (body : Bytes) (coefficient : ℚ) :
    Checked.Runs (parseTransactionDataWithCoefficientM Machine.checked body coefficient)
      (parseTransactionDataWithCoefficient body coefficient)
      (¬ body.length < 2 → RecordsFit 6 2 tickFields body (readU16 body 0) 2) := by
  rw [parseTransactionDataWithCoefficient_eq]
  exact ((runs_parseTicks _ _ _).map Except.ok).of_not

/-- **When the parser of earlier days does not panic.** -/
theorem runs_parseHistoryTransactionData (body : Bytes) (coefficient : ℚ) :
    Checked.Runs (parseHistoryTransactionDataWithCoefficientM Machine.checked body coefficient)
      (parseHistoryTransactionDataWithCoefficient body coefficient)
      (¬ body.length < 6 → RecordsFit 6 2 historyTickFields body (readU16 body 0) 6) := by
  rw [parseHistoryTransactionDataWithCoefficient_eq]
  exact ((runs_parseTicks _ _ _).map Except.ok).of_not

end Tdxrs
