import Tdxrs.Library.WeightedMean
import Tdxrs.Protocol.MinuteData
import Tdxrs.Protocol.TickRoundTrip

set_option relaxedAutoImplicit false
set_option autoImplicit false

/-!
# The round trip of the minutes of an earlier day

What a server sends for the minutes of an earlier day, and that `parse_history_minute_time_data`
returns them, the newest first. The response has no count: the parser reads records until there
are no more bytes. The average price of a minute is the mean of the prices so far, each with its
volume as weight.

## Main definitions

* `Tdxrs.MinuteRecord` — a minute as it travels.
* `Tdxrs.minuteAfter` — the minute that is read of a record, after other records.
* `Tdxrs.encodeHistoryMinutes` — the response.

## Main results

* `Tdxrs.reads_minute` — a record is read back.
* `Tdxrs.history_minutes_round_trip` — the parser returns the minutes that were encoded.
-/

namespace Tdxrs

/-! ## Records -/

/-- A minute as it travels, with its price in units. The second field is skipped. -/
structure MinuteRecord where
  price : ℤ
  reserved : ℤ
  vol : ℤ
deriving DecidableEq

namespace MinuteRecord

/-- The minute can be written after one with the price `prev`. -/
structure Follows (r : MinuteRecord) (prev : ℤ) : Prop where
  prices : prev.natAbs < 2 ^ 62 ∧ r.price.natAbs < 2 ^ 62 ∧ (r.price - prev).natAbs < 2 ^ 62
  reserved : r.reserved.natAbs < 2 ^ 62
  vol : r.vol.natAbs < 2 ^ 62

/-- All minutes of a list can be written, each after the one before it. -/
def AllFollow : ℤ → List MinuteRecord → Prop
  | _, [] => True
  | prev, r :: rs => r.Follows prev ∧ AllFollow r.price rs

/-- The price of a minute. -/
def scaledPrice (coefficient : ℚ) (r : MinuteRecord) : ℚ := r.price * coefficient

/-- The volume of a minute as a weight. -/
def volume (r : MinuteRecord) : ℚ := r.vol

end MinuteRecord

/-- The price of the last of the records. -/
def lastPrice (before : List MinuteRecord) : ℤ := (before.getLast?.map MinuteRecord.price).getD 0

/-- The minute that is read of a record after the records `before`. -/
def minuteAfter (coefficient : ℚ) (before : List MinuteRecord) (r : MinuteRecord) :
    MinuteTimePrice where
  time := minuteTimeFromIndex before.length
  price := r.scaledPrice coefficient
  avgPrice :=
    if 0 < WeightedMean.total MinuteRecord.volume (before ++ [r]) then
      WeightedMean.mean (MinuteRecord.scaledPrice coefficient) MinuteRecord.volume (before ++ [r])
    else r.scaledPrice coefficient
  vol := r.volume

/-- The records of an earlier day: what is carried on are the records before. -/
def minuteFormat : Records.Format (List MinuteRecord) MinuteRecord UInt8 where
  write before r := putFields minuteFields [r.price - lastPrice before, r.reserved, r.vol]
  next before r := before ++ [r]

/-- The response: the `header` is not read. -/
def encodeHistoryMinutes (header : Bytes) (rs : List MinuteRecord) : Bytes :=
  header ++ minuteFormat.bytes [] rs

/-! ## Reading records back -/

/-- What the parser carries on after some records. -/
def minuteState (coefficient : ℚ) (before : List MinuteRecord) : MinuteState where
  index := before.length
  preDiffBase := Int64.ofInt (lastPrice before)
  cumAmount :=
    WeightedMean.weighted (MinuteRecord.scaledPrice coefficient) MinuteRecord.volume before
  cumVol := WeightedMean.total MinuteRecord.volume before

@[simp] lemma lastPrice_concat (before : List MinuteRecord) (r : MinuteRecord) :
    lastPrice (before ++ [r]) = r.price := by
  rw [lastPrice, List.getLast?_concat]
  rfl

/-- Every record follows the last of those before it. -/
lemma along_minutes {rs : List MinuteRecord} : ∀ {before : List MinuteRecord},
    MinuteRecord.AllFollow (lastPrice before) rs →
      minuteFormat.Along (fun before r => r.Follows (lastPrice before)) before rs := by
  induction rs with
  | nil => exact fun _ => trivial
  | cons r rs ih =>
    intro before h
    refine ⟨h.1, ih ?_⟩
    rw [minuteFormat, lastPrice_concat]
    exact h.2

/-- What is read of the records of a list, by their positions in it. -/
lemma values_eq_ofFn {β : Type} (f : List MinuteRecord → MinuteRecord → β)
    (rs : List MinuteRecord) :
    ∀ before : List MinuteRecord, minuteFormat.values f before rs =
      List.ofFn fun k : Fin rs.length => f (before ++ rs.take k) rs[k] := by
  induction rs with
  | nil => exact fun _ => rfl
  | cons r rs ih =>
    intro before
    rw [Records.Format.values, ih, List.ofFn_succ]
    refine congrArg₂ List.cons ?_ (congrArg List.ofFn (funext fun k => ?_))
    · exact congrArg (f · r) (List.append_nil before).symm
    · simp only [minuteFormat, List.append_assoc, List.singleton_append, Fin.val_succ,
        List.take_succ_cons]
      rfl

/-- A minute from the fields of its record. -/
lemma minuteOf_record {coefficient : ℚ} {before : List MinuteRecord} {r : MinuteRecord}
    (hr : r.Follows (lastPrice before)) :
    minuteOf coefficient (minuteState coefficient before)
        ([r.price - lastPrice before, r.reserved, r.vol].map Int64.ofInt) =
      (minuteAfter coefficient before r, minuteState coefficient (before ++ [r])) := by
  have hlast : lastPrice before + (r.price - lastPrice before) = r.price := by omega
  simp only [minuteOf, minuteState, List.map_cons, List.getD_cons_zero, List.getD_cons_succ,
    saturatingAdd_ofInt hr.prices.1 hr.prices.2.2, hlast, toInt_ofInt_of_lt hr.prices.2.1,
    toInt_ofInt_of_lt hr.vol, minuteAfter, lastPrice_concat, List.length_append,
    List.length_singleton, WeightedMean.mean, WeightedMean.weighted_append,
    WeightedMean.weighted_singleton, WeightedMean.total_append, WeightedMean.total_singleton,
    MinuteRecord.scaledPrice, MinuteRecord.volume]

section

variable {m : Type → Type} [Monad m] [LawfulMonad m] {M : Machine m}

/-- A record takes a byte for each field. -/
lemma le_length_minute (before : List MinuteRecord) (r : MinuteRecord) :
    3 ≤ (minuteFormat.write before r).length :=
  Records.le_length_writeFields Field.least_le
    (show minuteFields.length = [r.price - lastPrice before, r.reserved, r.vol].length from rfl)

/-- **A record is read back** on every machine. -/
lemma reads_minute (hM : M.InRange) (coefficient : ℚ) (body : Bytes) :
    minuteFormat.Reads (minuteAfter coefficient) (fun before r => r.Follows (lastPrice before))
      (minuteState coefficient) body (parseHistoryMinuteM M coefficient body) := by
  intro pos before r rest hr hdrop
  have hfits : List.Forall₂ Field.Fits minuteFields
      [r.price - lastPrice before, r.reserved, r.vol] :=
    .cons hr.prices.2.2 (.cons hr.reserved (.cons hr.vol .nil))
  have hmoves : pos + (minuteFormat.write before r).length ≠ pos := by
    have := le_length_minute before r
    omega
  rw [parseHistoryMinuteM, readFieldsM_of_drop hM hfits hdrop, pure_bind]
  simp only [minuteOf_record hr]
  exact if_neg hmoves

/-- The response is read back on every machine, in as many rounds as there are bytes or more.

**Proof sketch.** Behind the six bytes the loop reads the records of `minuteFormat`, one a round
(`Records.Format.loopM_bytes` with `reads_minute`); what fuel is left finds no byte and ends.
`values_eq_ofFn` names the minute that each record is read as. -/
lemma parseHistoryMinuteTimeDataM_encode (hM : M.InRange) {header : Bytes}
    (hheader : header.length = 6) {rs : List MinuteRecord} (hrs : MinuteRecord.AllFollow 0 rs)
    (market : UInt8) (code : Text) {fuel : ℕ} (hfuel : rs.length ≤ fuel) :
    parseHistoryMinuteTimeDataM M (encodeHistoryMinutes header rs) market code fuel =
      pure (.ok (List.ofFn fun k : Fin rs.length =>
        minuteAfter (getSecurityCoefficient market code) (rs.take k) rs[k]).reverse) := by
  have hzero : (encodeHistoryMinutes header rs).drop 0 = header ++ minuteFormat.bytes [] rs := rfl
  have hrecords := drop_add hzero
  rw [Nat.zero_add, hheader, ← List.append_nil (minuteFormat.bytes [] rs)] at hrecords
  obtain ⟨more, rfl⟩ := Nat.exists_eq_add_of_le hfuel
  have hloop := Records.Format.loopM_bytes
    (reads_minute hM (getSecurityCoefficient market code) (encodeHistoryMinutes header rs))
    Nat.one_pos (fun before r _ => (by decide : 1 ≤ 3).trans (le_length_minute before r))
    more (.inr (show ([] : Bytes).length < 1 from Nat.one_pos))
    (show minuteFormat.Along _ [] rs from along_minutes hrs) hrecords
  rw [parseHistoryMinuteTimeDataM]
  refine (congrArg (· >>= _) hloop).trans ?_
  rw [pure_bind, values_eq_ofFn]
  rfl

end

/-! ## The round trip -/

/-- The average price of a minute is between two of the prices so far, if no volume is negative. -/
lemma avgPrice_between (coefficient : ℚ) {before : List MinuteRecord} {r : MinuteRecord}
    (hvol : ∀ r' ∈ before ++ [r], 0 ≤ r'.vol) :
    (∃ r' ∈ before ++ [r],
        r'.scaledPrice coefficient ≤ (minuteAfter coefficient before r).avgPrice) ∧
      ∃ r' ∈ before ++ [r],
        (minuteAfter coefficient before r).avgPrice ≤ r'.scaledPrice coefficient := by
  have hweight : ∀ r' ∈ before ++ [r], 0 ≤ r'.volume := fun r' hr' =>
    Int.cast_nonneg (hvol r' hr')
  unfold minuteAfter
  by_cases htotal : 0 < WeightedMean.total MinuteRecord.volume (before ++ [r])
  · simp only [if_pos htotal]
    exact ⟨WeightedMean.exists_le_mean hweight htotal, WeightedMean.exists_mean_le hweight htotal⟩
  · simp only [if_neg htotal]
    have hlast : r ∈ before ++ [r] := List.mem_append_right _ (List.mem_singleton_self r)
    exact ⟨⟨r, hlast, le_rfl⟩, ⟨r, hlast, le_rfl⟩⟩

/-- Every minute has a byte of its own. -/
lemma length_le_encodeHistoryMinutes (header : Bytes) (rs : List MinuteRecord) :
    rs.length ≤ (encodeHistoryMinutes header rs).length := by
  have hlength := Records.Format.le_length_bytes_of_pos
    (fun before r => Nat.one_pos.trans_le ((by decide : 1 ≤ 3).trans (le_length_minute before r)))
    rs []
  simp only [encodeHistoryMinutes, List.length_append]
  omega

/-- An encoded answer is parsed to the minutes, the newest first. -/
lemma parseHistoryMinuteTimeData_encode {header : Bytes} (hheader : header.length = 6)
    {rs : List MinuteRecord} (hrs : MinuteRecord.AllFollow 0 rs) (market : UInt8) (code : Text) :
    parseHistoryMinuteTimeData (encodeHistoryMinutes header rs) market code =
      .ok (List.ofFn fun k : Fin rs.length =>
        minuteAfter (getSecurityCoefficient market code) (rs.take k) rs[k]).reverse :=
  parseHistoryMinuteTimeDataM_encode inRange_wrapping hheader hrs market code
    (length_le_encodeHistoryMinutes header rs)

/-- **The round trip of the minutes of an earlier day.** The minutes that are encoded behind any six
bytes are what the parser returns, the newest first, with and without overflow checks: the minute
of record `k` has the time of index `k`, its own price and volume, and as average the mean of the
prices of the records up to `k`, each with its volume as weight, if these volumes have a positive
sum, and its own price otherwise. The loop ends by itself: more rounds than there are bytes change
nothing. If no volume is negative, every average is between two prices of the records up to it.

**Proof sketch.** The first two parts are `parseHistoryMinuteTimeDataM_encode`, with the number of
bytes as fuel and with any greater fuel, for a machine that wraps and for one that checks. The
bounds are those of a weighted mean (`avgPrice_between`), over the records up to the one in
question. -/
theorem history_minutes_round_trip (header : Bytes) (hheader : header.length = 6)
    (rs : List MinuteRecord) (hrs : MinuteRecord.AllFollow 0 rs) (market : UInt8) (code : Text) :
    let coefficient := getSecurityCoefficient market code
    let minutes := List.ofFn fun k : Fin rs.length => minuteAfter coefficient (rs.take k) rs[k]
    let body := encodeHistoryMinutes header rs
    parseHistoryMinuteTimeData body market code = .ok minutes.reverse ∧
      (∀ fuel, body.length ≤ fuel →
        parseHistoryMinuteTimeDataM Machine.wrapping body market code fuel = .ok minutes.reverse ∧
        parseHistoryMinuteTimeDataM Machine.checked body market code fuel =
          .ok (.ok minutes.reverse)) ∧
      ((∀ r ∈ rs, 0 ≤ r.vol) → ∀ k : Fin rs.length,
        (∃ r ∈ rs.take (k + 1), r.scaledPrice coefficient ≤
          (minuteAfter coefficient (rs.take k) rs[k]).avgPrice) ∧
        ∃ r ∈ rs.take (k + 1), (minuteAfter coefficient (rs.take k) rs[k]).avgPrice ≤
          r.scaledPrice coefficient) := by
  intro coefficient minutes body
  have hrecords := length_le_encodeHistoryMinutes header rs
  refine ⟨parseHistoryMinuteTimeData_encode hheader hrs market code,
    fun fuel hfuel => ⟨?_, ?_⟩, fun hvol k => ?_⟩
  · exact parseHistoryMinuteTimeDataM_encode inRange_wrapping hheader hrs market code
      (hrecords.trans hfuel)
  · exact parseHistoryMinuteTimeDataM_encode inRange_checked hheader hrs market code
      (hrecords.trans hfuel)
  · have htake : rs.take (k + 1) = rs.take k ++ [rs[k]] := (List.take_concat_get' rs k k.2).symm
    rw [htake]
    exact avgPrice_between coefficient fun r hr =>
      hvol r (List.mem_of_mem_take (htake ▸ hr))

/-- Three minutes, of which the first has no volume. -/
theorem history_minutes_round_trip_three :
    let rs : List MinuteRecord := [⟨1000, 7, 0⟩, ⟨1010, -3, 200⟩, ⟨980, 0, 100⟩]
    let minutes := List.ofFn fun k : Fin rs.length => minuteAfter (1 / 100) (rs.take k) rs[k]
    parseHistoryMinuteTimeData (encodeHistoryMinutes [1, 2, 3, 4, 5, 6] rs) 0 "000001".toList =
        .ok minutes.reverse ∧
      minutes.map MinuteTimePrice.avgPrice = [10, 101 / 10, 10] := by
  have hcoefficient : getSecurityCoefficient 0 "000001".toList = 1 / 100 := by decide +kernel
  have htrip := (history_minutes_round_trip [1, 2, 3, 4, 5, 6] rfl
    [⟨1000, 7, 0⟩, ⟨1010, -3, 200⟩, ⟨980, 0, 100⟩]
    ⟨⟨by decide, by decide, by decide⟩, ⟨by decide, by decide, by decide⟩,
      ⟨by decide, by decide, by decide⟩, trivial⟩ 0 "000001".toList).1
  rw [hcoefficient] at htrip
  exact ⟨htrip, by decide +kernel⟩

end Tdxrs
