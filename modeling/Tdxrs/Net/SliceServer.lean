import Tdxrs.Library.Window
import Tdxrs.Net.HqClient
import Tdxrs.Protocol.RoundTrip

set_option relaxedAutoImplicit false
set_option autoImplicit false

/-!
# A server for a given history

A client whose server answers K-line requests by the encoded slices of a list of records: the
reading of the request (`BarsRequest.ofPacket`) and the wire encoding put together. It shows that
the assumption of a server that answers by slices is met for every encodable history, and the
histories of the concrete runs are served by it.

## Main definitions

* `Tdxrs.sliceEnv` — the client with this server.
* `Tdxrs.flatRecord` — daily records with all prices equal.
* `Tdxrs.manyDays` — 801 trading days.
* `Tdxrs.indexEnv` — the same for an index.
* `Tdxrs.wideDays`, `Tdxrs.quietDays` — days of an index that moves much, and that hardly moves.

## Main results

* `Tdxrs.sliceEnv_serves`, `Tdxrs.indexEnv_serves` — the servers answer by slices.
-/

namespace Tdxrs

open Window

/-- A client whose server has the records of a stock and fails requests that start where
`fails`. -/
def sliceEnv (records : List KLineRecord) (xdxr : Except TdxError (List XdXrInfo))
    (fails : ℕ → Bool) : HqEnv Unit where
  trySendAndRecv packet w :=
    match BarsRequest.ofPacket packet with
    | none => (.error .disconnected, w)
    | some request =>
      if fails request.start then (.error .disconnected, w)
      else
        (.ok (encodeSecurityBars (UInt8.ofNat request.category)
          (slice records request.start request.count)), w)
  autoRetry _ := false
  reconnectIfNeeded w := w
  reconnectToAnotherServer w := w
  getXdxrInfo _ _ w := (xdxr, w)
  fqContextTier := .mid
  maxValidYear := 2036

/-- The bars of the records. -/
def barsOf (category : UInt8) (records : List KLineRecord) : List SecurityBar :=
  records.map (KLineRecord.bar category)

/-- The count of a request that was read from a packet is a 16-bit number. -/
lemma count_ofPacket {packet : Bytes} {request : BarsRequest}
    (h : BarsRequest.ofPacket packet = some request) : request.count < 2 ^ 16 := by
  unfold BarsRequest.ofPacket at h
  split at h
  · rw [← Option.some.inj h]
    exact LittleEndian.field_lt packet 26 2
  · cases h

/-- The body that answers a request parses to the slice asked for. -/
lemma parse_slice {maxValidYear : ℕ} {category : UInt8} {records : List KLineRecord}
    (hrecords : ∀ r ∈ records, r.Encodable maxValidYear category) {start count : ℕ}
    (hcount : count < 2 ^ 16) :
    parseSecurityBars maxValidYear category
        (encodeSecurityBars category (slice records start count)) =
      .ok (slice (barsOf category records) start count) := by
  have hlen : (slice records start count).length < 2 ^ 16 := by
    rw [length_slice]
    omega
  rw [parseSecurityBars_encode hlen fun r hr =>
      hrecords r ((slice_sublist records start count).subset hr), barsOf, slice_map]

/-- **The server answers by the slices of its history**, when no request fails. -/
theorem sliceEnv_serves {category : UInt8} {records : List KLineRecord}
    (hrecords : ∀ r ∈ records, r.Encodable 2036 category)
    (xdxr : Except TdxError (List XdXrInfo)) (market : UInt8) (code : String) :
    ServesSlices (sliceEnv records xdxr fun _ => false).trySendAndRecv
      (parseSecurityBars 2036 category) category market code (barsOf category records) := by
  intro packet start count w hpacket
  have hcount := count_ofPacket hpacket
  refine ⟨encodeSecurityBars category (slice records start count), w, ?_,
    parse_slice hrecords hcount⟩
  simp only [sliceEnv, hpacket, Bool.false_eq_true, if_false, UInt8.ofNat_toNat]

/-- A daily record with all prices equal. -/
def flatRecord (price : ℤ) (year month day : ℕ) : KLineRecord :=
  ⟨year, month, day, 0, 0, price, price, price, price, 0, 0⟩

/-- Daily records with a small price and a valid date are encodable. -/
lemma flatRecord_encodable {price : ℤ} {year month day : ℕ} (hprice : price.natAbs < 2 ^ 55)
    (hyear : 1980 ≤ year ∧ year ≤ 2036) (hmonth : 1 ≤ month ∧ month ≤ 12)
    (hday : 1 ≤ day ∧ day ≤ 31) : (flatRecord price year month day).Encodable 2036 4 where
  year := hyear
  month := hmonth
  day := hday
  layout := ⟨by show year * 10000 + 1231 < 2 ^ 32; omega, rfl, rfl⟩
  prices := ⟨hprice, hprice, hprice, hprice⟩
  words := ⟨Nat.two_pow_pos 32, Nat.two_pow_pos 32⟩

/-! ## A history of 801 days -/

/-- The `i`-th trading day of a stock whose price doubles after the first one: 28 days in each of
twelve months. -/
def dayRecord (i : ℕ) : KLineRecord :=
  flatRecord (if i = 0 then 10000 else 20000) (1990 + i / 336) (i / 28 % 12 + 1) (i % 28 + 1)

/-- 801 trading days, one more than a page. -/
def manyDays : List KLineRecord := (List.range 801).map dayRecord

/-- How many they are. -/
lemma length_manyDays : (barsOf 4 manyDays).length = 801 := by
  simp [barsOf, manyDays]

/-- The 801 days can be sent. -/
lemma manyDays_encodable : ∀ r ∈ manyDays, r.Encodable 2036 4 := by
  intro r hr
  obtain ⟨i, hi, rfl⟩ := List.mem_map.mp hr
  have hlt := List.mem_range.mp hi
  refine flatRecord_encodable ?_ (by omega) (by omega) (by omega)
  split <;> decide

/-- No two of the 801 days share a date. -/
lemma manyDays_strict :
    (barsOf 4 manyDays).Pairwise fun a b => a.dateKey < b.dateKey := by
  unfold barsOf manyDays
  rw [List.map_map]
  refine List.pairwise_map.mpr (List.Pairwise.imp ?_ List.pairwise_lt_range)
  intro i j hij
  have hi : i / 336 = i / 28 / 12 := (Nat.div_div_eq_div_mul i 28 12).symm
  have hj : j / 336 = j / 28 / 12 := (Nat.div_div_eq_div_mul j 28 12).symm
  show dateKey _ _ _ < dateKey _ _ _
  simp only [dateKey, Function.comp_apply, KLineRecord.bar, dayRecord, flatRecord, hi, hj]
  omega

/-- The 801 days are in ascending order. -/
lemma manyDays_ascending : Ascending (barsOf 4 manyDays) :=
  manyDays_strict.imp fun h => h.le

/-! ## An index -/

/-- A client whose server has the records of an index. -/
def indexEnv (records : List IndexRecord) : HqEnv Unit where
  trySendAndRecv packet w :=
    match BarsRequest.ofPacket packet with
    | none => (.error .disconnected, w)
    | some request =>
      (.ok (encodeIndexBars (UInt8.ofNat request.category)
        (slice records request.start request.count)), w)
  autoRetry _ := false
  reconnectIfNeeded w := w
  reconnectToAnotherServer w := w
  getXdxrInfo _ _ w := (.ok [], w)
  fqContextTier := .mid
  maxValidYear := 2036

/-- The server answers by the slices of its records. -/
lemma indexEnv_serves (records : List IndexRecord) (category market : UInt8) (code : String) :
    ServesRecords (indexEnv records).trySendAndRecv (encodeIndexBars category) category market code
      records := by
  intro packet start count w hpacket
  refine ⟨w, ?_⟩
  simp only [indexEnv, hpacket, UInt8.ofNat_toNat]

/-- The `i`-th trading day of an index that moves by 10 points and more within a day. -/
def wideRecord (i : ℕ) : IndexRecord :=
  ⟨⟨1990 + i / 336, i / 28 % 12 + 1, i % 28 + 1, 0, 0, 3000000, 3010000, 3020000, 2990000, 0, 0⟩,
    900, 800⟩

/-- 801 trading days of the index. -/
def wideDays : List IndexRecord := (List.range 801).map wideRecord

/-- The 801 days of the index can be sent. -/
lemma wideDays_encodable : ∀ r ∈ wideDays, r.Encodable 2036 4 := by
  intro r hr
  obtain ⟨i, hi, rfl⟩ := List.mem_map.mp hr
  have hlt := List.mem_range.mp hi
  refine ⟨
    { year := ?_, month := ?_, day := ?_, layout := ⟨?_, rfl, rfl⟩, prices := ?_, words := ?_ }, ?_⟩
  · show 1980 ≤ 1990 + i / 336 ∧ 1990 + i / 336 ≤ 2036
    omega
  · show 1 ≤ i / 28 % 12 + 1 ∧ i / 28 % 12 + 1 ≤ 12
    omega
  · show 1 ≤ i % 28 + 1 ∧ i % 28 + 1 ≤ 31
    omega
  · show (1990 + i / 336) * 10000 + 1231 < 2 ^ 32
    omega
  · exact (by decide : (3000000 : ℤ).natAbs < 2 ^ 55 ∧ (3010000 : ℤ).natAbs < 2 ^ 55 ∧
      (3020000 : ℤ).natAbs < 2 ^ 55 ∧ (2990000 : ℤ).natAbs < 2 ^ 55)
  · exact ⟨Nat.two_pow_pos 32, Nat.two_pow_pos 32⟩
  · exact (by decide : 900 < 2 ^ 16 ∧ 800 < 2 ^ 16)

/-- Three of the four prices of such a day take three bytes each. -/
lemma wideDays_roomy : ∀ r ∈ wideDays, ∀ prev, 8 ≤ r.priceBytes prev := by
  intro r hr prev
  obtain ⟨i, -, rfl⟩ := List.mem_map.mp hr
  have hclose : (Varint.put 10000).length = 3 := by decide +kernel
  have hhigh : (Varint.put 20000).length = 3 := by decide +kernel
  have hlow : (Varint.put (-10000)).length = 3 := by decide +kernel
  show 8 ≤ (Varint.put (3000000 - prev)).length + (Varint.put 10000).length +
    (Varint.put 20000).length + (Varint.put (-10000)).length
  omega

/-- Two days of an index that hardly moves on the second one. -/
def quietDays : List IndexRecord :=
  [⟨⟨2024, 3, 28, 0, 0, 3000000, 3010000, 3020000, 2990000, 4096, 8192⟩, 900, 800⟩,
    ⟨⟨2024, 3, 29, 0, 0, 3010020, 3010010, 3010030, 3010000, 4096, 8192⟩, 1000, 700⟩]

/-- The two days can be sent. -/
lemma quietDays_encodable : ∀ r ∈ quietDays, r.Encodable 2036 4 := by
  simp only [quietDays, List.mem_cons, List.not_mem_nil, or_false]
  rintro r (rfl | rfl)
  · exact ⟨⟨by decide, by decide, by decide, by simp [KLineRecord.FitsLayout, isMinuteCategory],
      by decide, by decide⟩, by decide⟩
  · exact ⟨⟨by decide, by decide, by decide, by simp [KLineRecord.FitsLayout, isMinuteCategory],
      by decide, by decide⟩, by decide⟩

end Tdxrs
