import Tdxrs.Protocol.Codes
import Tdxrs.Protocol.Transactions

set_option relaxedAutoImplicit false
set_option autoImplicit false

/-!
# Parsing the prices of a day's minutes

`parse_minute_time_data` and `parse_history_minute_time_data` of `src/protocol/parsers.rs`. A record
holds the difference of the price, a field that is skipped and the volume; the average price is
that of the volume so far. The parser of earlier days reads records as long as there are bytes.
Both reverse the list at the end.

## Main definitions

* `Tdxrs.MinuteTimePrice` — a minute.
* `Tdxrs.minuteTimeFromIndex` — the time of a minute.
* `Tdxrs.parseMinuteM`, `Tdxrs.parseHistoryMinuteM` — a record, on a machine.
* `Tdxrs.parseMinuteTimeData`, `Tdxrs.parseHistoryMinuteTimeData` — the parsers.

## Main results

* `Tdxrs.parseHistoryMinuteTimeData_of_le` — the loop over the bytes ends by itself.
* `Tdxrs.runs_parseMinuteTimeData`, `Tdxrs.runs_parseHistoryMinuteTimeData` — when the parsers do
  not panic.
-/

namespace Tdxrs

/-- The price of a minute. -/
structure MinuteTimePrice where
  time : Text
  price : ℚ
  avgPrice : ℚ
  vol : ℚ
deriving DecidableEq

/-- The time of a minute: 120 minutes of the morning up to 11:30, then those of the afternoon. -/
def minuteTimeFromIndex (index : ℕ) : Text :=
  minutesText (if index < 120 then 9 * 60 + 31 + index else 13 * 60 + 1 + (index - 120))

/-- What the parsers carry from record to record. -/
structure MinuteState where
  index : ℕ
  preDiffBase : Int64
  cumAmount : ℚ
  cumVol : ℚ

/-- Before the first record. -/
def MinuteState.initial : MinuteState := ⟨0, 0, 0, 0⟩

/-- The fields of a record: price, a reserved one and volume. -/
def minuteFields : List Field := [.price, .price, .price]

/-- A minute from its fields, and what is carried on. -/
def minuteOf (coefficient : ℚ) (s : MinuteState) (v : List Int64) : MinuteTimePrice × MinuteState :=
  let preDiffBase := saturatingAdd s.preDiffBase (v.getD 0 0)
  let price := preDiffBase.toInt * coefficient
  let vol : ℚ := (v.getD 2 0).toInt
  let cumAmount := s.cumAmount + price * vol
  let cumVol := s.cumVol + vol
  let avgPrice := if 0 < cumVol then cumAmount / cumVol else price
  (⟨minuteTimeFromIndex s.index, price, avgPrice, vol⟩,
    ⟨s.index + 1, preDiffBase, cumAmount, cumVol⟩)

section

variable {m : Type → Type} [Monad m] (M : Machine m)

/-- A record of the day. -/
def parseMinuteM (coefficient : ℚ) (body : Bytes) (pos : ℕ) (s : MinuteState) :
    m (Option (MinuteTimePrice × ℕ × MinuteState)) := do
  let (v, pos) ← readFieldsM M minuteFields body pos
  let (minute, s) := minuteOf coefficient s v
  pure (some (minute, pos, s))

/-- Parses the minutes of the day, on a machine. -/
def parseMinuteTimeDataM (body : Bytes) (market : UInt8) (code : Text) :
    m (Except TdxError (List MinuteTimePrice)) :=
  if body.length < 14 then pure (.error (ErrorCode.responseLengthMismatch.err "body too short"))
  else do
    let result ← Records.loopM body.length 3
      (parseMinuteM M (getSecurityCoefficient market code) body) (readU16 body 0) 13 .initial
    pure (.ok result.reverse)

/-- A record of an earlier day. A record without bytes ends the list. -/
def parseHistoryMinuteM (coefficient : ℚ) (body : Bytes) (oldPos : ℕ) (s : MinuteState) :
    m (Option (MinuteTimePrice × ℕ × MinuteState)) := do
  let (v, pos) ← readFieldsM M minuteFields body oldPos
  if pos = oldPos then pure none
  else
    let (minute, s) := minuteOf coefficient s v
    pure (some (minute, pos, s))

/-- Parses the minutes of an earlier day, on a machine, in at most `fuel` rounds of the loop. -/
def parseHistoryMinuteTimeDataM (body : Bytes) (market : UInt8) (code : Text) (fuel : ℕ) :
    m (Except TdxError (List MinuteTimePrice)) := do
  let result ← Records.loopM body.length 1
    (parseHistoryMinuteM M (getSecurityCoefficient market code) body) fuel 6 .initial
  pure (.ok result.reverse)

end

/-- A record of the day, of the release build. -/
def parseMinute (coefficient : ℚ) (body : Bytes) (pos : ℕ) (s : MinuteState) :
    Option (MinuteTimePrice × ℕ × MinuteState) :=
  parseMinuteM Machine.wrapping coefficient body pos s

/-- A record of an earlier day, of the release build. -/
def parseHistoryMinute (coefficient : ℚ) (body : Bytes) (oldPos : ℕ) (s : MinuteState) :
    Option (MinuteTimePrice × ℕ × MinuteState) :=
  parseHistoryMinuteM Machine.wrapping coefficient body oldPos s

/-- Parses the minutes of the day. -/
def parseMinuteTimeData (body : Bytes) (market : UInt8) (code : Text) :
    Except TdxError (List MinuteTimePrice) :=
  parseMinuteTimeDataM Machine.wrapping body market code

/-- Parses the minutes of an earlier day. The loop has a round for each byte, which is enough. -/
def parseHistoryMinuteTimeData (body : Bytes) (market : UInt8) (code : Text) :
    Except TdxError (List MinuteTimePrice) :=
  parseHistoryMinuteTimeDataM Machine.wrapping body market code body.length

variable {coefficient : ℚ} {body : Bytes}

lemma parseMinute_eq (pos : ℕ) (s : MinuteState) :
    parseMinute coefficient body pos s =
      some ((minuteOf coefficient s (readFields minuteFields body pos).1).1,
        (readFields minuteFields body pos).2,
        (minuteOf coefficient s (readFields minuteFields body pos).1).2) := by
  rw [← readFieldsM_wrapping]
  rfl

/-- **A record of an earlier day**: where there are bytes, it is not the last round. -/
lemma parseHistoryMinute_eq {oldPos : ℕ} (h : oldPos < body.length) (s : MinuteState) :
    parseHistoryMinute coefficient body oldPos s =
      some ((minuteOf coefficient s (readFields minuteFields body oldPos).1).1,
        (readFields minuteFields body oldPos).2,
        (minuteOf coefficient s (readFields minuteFields body oldPos).1).2) := by
  have hread : parseHistoryMinute coefficient body oldPos s =
      if (readFields minuteFields body oldPos).2 = oldPos then none
      else parseMinute coefficient body oldPos s := by
    rw [parseMinute_eq, ← readFieldsM_wrapping]
    rfl
  have hlt : oldPos < (readFields minuteFields body oldPos).2 := lt_readFields h
  rw [hread, if_neg hlt.ne', parseMinute_eq]

/-! ## When the parsers do not panic -/

/-- What the parser of the day returns. -/
lemma parseMinuteTimeData_eq (body : Bytes) (market : UInt8) (code : Text) :
    parseMinuteTimeData body market code =
      if body.length < 14 then .error (ErrorCode.responseLengthMismatch.err "body too short")
      else .ok (Records.loop body.length 3 (parseMinute (getSecurityCoefficient market code) body)
        (readU16 body 0) 13 .initial).reverse := by
  rw [← Records.loopM_id]
  rfl

/-- What the parser of earlier days returns after some rounds. -/
lemma parseHistoryMinuteTimeDataM_wrapping (body : Bytes) (market : UInt8) (code : Text)
    (fuel : ℕ) :
    parseHistoryMinuteTimeDataM Machine.wrapping body market code fuel =
      .ok (Records.loop body.length 1
        (parseHistoryMinute (getSecurityCoefficient market code) body) fuel 6
        .initial).reverse := by
  rw [← Records.loopM_id]
  rfl

/-- **The loop over the bytes ends by itself**: more rounds than there are bytes change nothing. -/
theorem parseHistoryMinuteTimeData_of_le (body : Bytes) (market : UInt8) (code : Text) {fuel : ℕ}
    (h : body.length ≤ fuel) :
    parseHistoryMinuteTimeDataM Machine.wrapping body market code fuel =
      parseHistoryMinuteTimeData body market code := by
  rw [parseHistoryMinuteTimeData, parseHistoryMinuteTimeDataM_wrapping,
    parseHistoryMinuteTimeDataM_wrapping]
  refine congrArg (fun l => Except.ok (List.reverse l))
    (Records.loop_of_le Nat.one_pos (fun pos s hpos r hr => ?_) _ _ (Nat.le_add_left _ _) h)
  rw [parseHistoryMinute_eq hpos] at hr
  obtain rfl := Option.some.inj hr
  have hlt : pos < (readFields minuteFields body pos).2 := lt_readFields hpos
  exact hlt

lemma runs_parseMinute (pos : ℕ) (s : MinuteState) :
    Checked.Runs (parseMinuteM Machine.checked coefficient body pos s)
      (parseMinute coefficient body pos s) (FieldsFit minuteFields body pos) := by
  rw [parseMinute_eq]
  exact (runs_readFields minuteFields body pos).map _

lemma runs_parseHistoryMinute {pos : ℕ} (h : pos + 1 ≤ body.length) (s : MinuteState) :
    Checked.Runs (parseHistoryMinuteM Machine.checked coefficient body pos s)
      (parseHistoryMinute coefficient body pos s) (FieldsFit minuteFields body pos) := by
  have hlt : pos < (readFields minuteFields body pos).2 := lt_readFields h
  rw [parseHistoryMinute_eq h]
  refine ((runs_readFields minuteFields body pos).bind (Q := True) ?_).of_iff
    (and_iff_left trivial)
  show Checked.Runs (if (readFields minuteFields body pos).2 = pos then _ else _) _ _
  rw [if_neg hlt.ne']
  exact .pure _

/-- The records of the day do not panic exactly if their prices do not. -/
lemma runs_parseMinutes (count pos : ℕ) (s : MinuteState) :
    Checked.Runs
      (Records.loopM body.length 3 (parseMinuteM Machine.checked coefficient body) count pos s)
      (Records.loop body.length 3 (parseMinute coefficient body) count pos s)
      (RecordsFit 3 0 minuteFields body count pos) :=
  (Records.runs_loopM (fun pos s _ => runs_parseMinute pos s) count pos s).of_iff
    (each_fieldsFit_iff 0 minuteFields (fun _ _ _ => ⟨_, _, parseMinute_eq _ _⟩) count pos s)

/-- The records of an earlier day do not panic exactly if their prices do not. -/
lemma runs_parseHistoryMinutes (count pos : ℕ) (s : MinuteState) :
    Checked.Runs
      (Records.loopM body.length 1 (parseHistoryMinuteM Machine.checked coefficient body) count pos
        s)
      (Records.loop body.length 1 (parseHistoryMinute coefficient body) count pos s)
      (RecordsFit 1 0 minuteFields body count pos) :=
  (Records.runs_loopM (fun _ s h => runs_parseHistoryMinute h s) count pos s).of_iff
    (each_fieldsFit_iff 0 minuteFields (fun _ _ h => ⟨_, _, parseHistoryMinute_eq h _⟩) count
      pos s)

/-- **When the parser of the day does not panic.** -/
theorem runs_parseMinuteTimeData (body : Bytes) (market : UInt8) (code : Text) :
    Checked.Runs (parseMinuteTimeDataM Machine.checked body market code)
      (parseMinuteTimeData body market code)
      (¬ body.length < 14 → RecordsFit 3 0 minuteFields body (readU16 body 0) 13) := by
  rw [parseMinuteTimeData_eq]
  exact ((runs_parseMinutes _ _ _).map fun l => Except.ok l.reverse).of_not

/-- **When the parser of earlier days does not panic** within some rounds. -/
theorem runs_parseHistoryMinuteTimeData (body : Bytes) (market : UInt8) (code : Text) (fuel : ℕ) :
    Checked.Runs (parseHistoryMinuteTimeDataM Machine.checked body market code fuel)
      (parseHistoryMinuteTimeDataM Machine.wrapping body market code fuel)
      (RecordsFit 1 0 minuteFields body fuel 6) := by
  rw [parseHistoryMinuteTimeDataM_wrapping]
  exact (runs_parseHistoryMinutes fuel 6 .initial).map fun l => Except.ok l.reverse

end Tdxrs
