import Tdxrs.Library.FixedRecords
import Tdxrs.Downloader.Dates
import Tdxrs.Reader.DailyBar

set_option relaxedAutoImplicit false
set_option autoImplicit false

/-!
# Reading files of minutes

`parse_min_bar` and `parse_lc_min_bar` of `src/reader/min_bar.rs`, with the dates and times of
`src/constants.rs`. Like the `.day` files, these are sequences of records of 32 bytes without a
header. The two kinds differ in how prices are written: in hundredths, or in single precision.

## Main definitions

* `Tdxrs.decodeDateU16`, `Tdxrs.decodeTime` — the date and the time that two numbers stand for.
* `Tdxrs.minBars` — the reader, for either kind of prices.
* `Tdxrs.parseMinBar`, `Tdxrs.parseLcMinBar` — the two readers.
* `Tdxrs.minLayout`, `Tdxrs.dayLayout` — the layouts of the records.

## Main results

* `Tdxrs.bar_files_read` — which files the readers of bars accept, and what they return.
-/

namespace Tdxrs

open FixedRecords

/-! ## The readers -/

/-- The date that a number of 16 bits stands for. -/
def decodeDateU16 (num : ℕ) : ℕ × ℕ × ℕ := (num / 2048 + 2004, num % 2048 / 100, num % 2048 % 100)

/-- The time of a number of minutes since midnight. -/
def decodeTime (minutes : ℕ) : ℕ × ℕ := (minutes / 60, minutes % 60)

/-- The text of a date and a time, `YYYY-MM-DD HH:MM`. -/
def Constants.formatDatetime (year month day hour minute : ℕ) : Text :=
  formatDate year month day ++ ' ' :: Decimal.pad 2 hour ++ ':' :: Decimal.pad 2 minute

/-- A record of a file of minutes, with prices in `π`. -/
structure MinBar (π : Type) where
  date : Text
  «open» : π
  high : π
  low : π
  close : π
  amount : Single
  volume : ℚ
  year : ℕ
  month : ℕ
  day : ℕ
  hour : ℕ
  minute : ℕ
deriving DecidableEq

/-- A record whose prices are written in hundredths. -/
abbrev MinBarRecord := MinBar ℚ

/-- A record whose prices are written in single precision. -/
abbrev LcMinBarRecord := MinBar Single

section Reader

variable {π : Type}

/-- The record at a position. The last number of it is reserved. -/
def minBar (price : Bytes → ℕ → π) (data : Bytes) (pos : ℕ) : MinBar π :=
  let (year, month, day) := decodeDateU16 (readU16 data pos)
  let (hour, minute) := decodeTime (readU16 data (pos + 2))
  { date := Constants.formatDatetime year month day hour minute
    «open» := price data (pos + 4)
    high := price data (pos + 8)
    low := price data (pos + 12)
    close := price data (pos + 16)
    amount := readF32 data (pos + 20)
    volume := readU32 data (pos + 24)
    year, month, day, hour, minute }

/-- Parses a file of minutes. -/
def minBars (name : String) (price : Bytes → ℕ → π) (data : Bytes) :
    Except TdxError (List (MinBar π)) :=
  if data.length % 32 ≠ 0 then
    .error (.invalidData s!"{name} file size {data.length} is not a multiple of 32")
  else
    .ok ((List.range (data.length / 32)).map fun i => minBar price data (i * 32))

end Reader

/-- Parses a file of minutes with prices in hundredths. -/
def parseMinBar : Bytes → Except TdxError (List MinBarRecord) :=
  minBars "Min bar" fun data pos => readU32 data pos / 100

/-- Parses a file of minutes with prices in single precision. -/
def parseLcMinBar : Bytes → Except TdxError (List LcMinBarRecord) := minBars "LC min bar" readF32

/-- The record of the tests: 2024-01-15 09:35 at 10.50. -/
example :
    (parseMinBar (LittleEndian.toLE 2 (20 * 2048 + 115) ++ LittleEndian.toLE 2 575 ++
        LittleEndian.toLE 4 1050 ++ LittleEndian.toLE 4 1080 ++ LittleEndian.toLE 4 1030 ++
        LittleEndian.toLE 4 1060 ++ LittleEndian.toLE 4 0x47F12040 ++ LittleEndian.toLE 4 5000 ++
        LittleEndian.toLE 4 0)).toOption =
      some [⟨"2024-01-15 09:35".toList, 105 / 10, 108 / 10, 103 / 10, 106 / 10,
        .finite (1234565 / 10), 5000, 2024, 1, 15, 9, 35⟩] := by
  decide +kernel

/-! ## Records by their numbers -/

/-- The layout of a record of a file of minutes: date, time, four prices, amount, volume and a
reserved number. -/
def minLayout : List ℕ := [2, 2, 4, 4, 4, 4, 4, 4, 4]

/-- The layout of a record of a `.day` file. -/
def dayLayout : List ℕ := [4, 4, 4, 4, 4, 4, 4, 4]

/-- The bar that the numbers of a record of a file of minutes show. -/
def minBarOf {π : Type} (price : ℕ → π) (r : List ℕ) : MinBar π :=
  let (year, month, day) := decodeDateU16 (r.getD 0 0)
  let (hour, minute) := decodeTime (r.getD 1 0)
  { date := Constants.formatDatetime year month day hour minute
    «open» := price (r.getD 2 0)
    high := price (r.getD 3 0)
    low := price (r.getD 4 0)
    close := price (r.getD 5 0)
    amount := Single.ofBits (r.getD 6 0)
    volume := r.getD 7 0
    year, month, day, hour, minute }

/-- The bar that the numbers of a record of a `.day` file show. -/
def dailyBarOf (coefficient : ℚ) (r : List ℕ) : DailyBarRecord :=
  let (year, month, day) := decodeDate (r.getD 0 0)
  { date := formatDate year month day
    «open» := r.getD 1 0 * coefficient
    high := r.getD 2 0 * coefficient
    low := r.getD 3 0 * coefficient
    close := r.getD 4 0 * coefficient
    amount := Single.ofBits (r.getD 5 0)
    volume := r.getD 6 0
    year, month, day }

variable {data : Bytes} {pos : ℕ}

/-- A number of 16 bits that is all there. -/
lemma readU16_eq_field (h : pos + 2 ≤ data.length) :
    readU16 data pos = LittleEndian.field data pos 2 := if_neg h.not_gt

/-- A number of 32 bits that is all there. -/
lemma readU32_eq_field (h : pos + 4 ≤ data.length) :
    readU32 data pos = LittleEndian.field data pos 4 := if_neg h.not_gt

/-- A number of the record at a position, at its place in the file. -/
lemma getD_read_drop {layout : List ℕ} {k : ℕ} (h : k < layout.length) :
    (read layout (data.drop pos)).getD k 0 =
      LittleEndian.field data (pos + (layout.take k).sum) (layout.getD k 0) := by
  rw [getD_read h, LittleEndian.field, LittleEndian.field, List.drop_drop]

/-- The record at a position is that of the numbers there.

**Proof sketch.** The layout places every number of the record; each is read within the 32 bytes,
where reading a word is taking the field (`readU16_eq_field`, `readU32_eq_field`), and a price by
what is assumed of it. -/
lemma minBar_eq {π : Type} {price : Bytes → ℕ → π} {value : ℕ → π}
    (hprice : ∀ pos, pos + 4 ≤ data.length → price data pos = value (LittleEndian.field data pos 4))
    (h : pos + minLayout.sum ≤ data.length) :
    minBar price data pos = minBarOf value (read minLayout (data.drop pos)) := by
  have hlen : pos + 32 ≤ data.length := h
  have hfield (k : ℕ) (hk : k < 9) :
      (read minLayout (data.drop pos)).getD k 0 =
        LittleEndian.field data (pos + (minLayout.take k).sum) (minLayout.getD k 0) :=
    getD_read_drop hk
  simp only [minBar, minBarOf, readF32, readU16_eq_field (by omega : pos + 2 ≤ data.length),
    readU16_eq_field (by omega : pos + 2 + 2 ≤ data.length),
    readU32_eq_field (by omega : pos + 24 + 4 ≤ data.length),
    hprice (pos + 4) (by omega), hprice (pos + 8) (by omega), hprice (pos + 12) (by omega),
    hprice (pos + 16) (by omega), hfield 0 (by decide), hfield 1 (by decide), hfield 2 (by decide),
    hfield 3 (by decide), hfield 4 (by decide), hfield 5 (by decide), hfield 6 (by decide),
    hfield 7 (by decide)]
  rfl

/-- The record of a `.day` file at a position is that of the numbers there.

**Proof sketch.** As `minBar_eq`, with the words of a day. -/
lemma dailyBar_eq (coefficient : ℚ) (h : pos + dayLayout.sum ≤ data.length) :
    dailyBar coefficient data pos = dailyBarOf coefficient (read dayLayout (data.drop pos)) := by
  have hlen : pos + 32 ≤ data.length := h
  have hfield (k : ℕ) (hk : k < 8) :
      (read dayLayout (data.drop pos)).getD k 0 =
        LittleEndian.field data (pos + (dayLayout.take k).sum) (dayLayout.getD k 0) :=
    getD_read_drop hk
  simp only [dailyBar, dailyBarOf, readF32, readU32_eq_field (by omega : pos + 4 ≤ data.length),
    readU32_eq_field (by omega : pos + 4 + 4 ≤ data.length),
    readU32_eq_field (by omega : pos + 8 + 4 ≤ data.length),
    readU32_eq_field (by omega : pos + 12 + 4 ≤ data.length),
    readU32_eq_field (by omega : pos + 16 + 4 ≤ data.length),
    readU32_eq_field (by omega : pos + 24 + 4 ≤ data.length), hfield 0 (by decide),
    hfield 1 (by decide), hfield 2 (by decide), hfield 3 (by decide), hfield 4 (by decide),
    hfield 5 (by decide), hfield 6 (by decide)]
  rfl

/-! ## Times -/

/-- The numbers of the date and the time of a record, put together. -/
def stamp (r : List ℕ) : ℕ := r.getD 0 0 * 2 ^ 16 + r.getD 1 0

/-- Dates are in the order of the numbers that they are read from. -/
lemma dateKey_decodeDateU16_lt_iff {m n : ℕ} :
    dateKey (decodeDateU16 m).1 (decodeDateU16 m).2.1 (decodeDateU16 m).2.2 <
        dateKey (decodeDateU16 n).1 (decodeDateU16 n).2.1 (decodeDateU16 n).2.2 ↔ m < n := by
  simp only [dateKey, decodeDateU16]
  omega

/-- The parts of the date of a number of 16 bits fit the places of its text. -/
lemma decodeDateU16_lt {n : ℕ} (h : n < 2 ^ 16) :
    (decodeDateU16 n).1 < 10000 ∧ (decodeDateU16 n).2.1 < 100 ∧ (decodeDateU16 n).2.2 < 100 := by
  simp only [decodeDateU16]
  omega

/-- Texts of dates and times are in the order of the dates and times.

**Proof sketch.** The text is the date, the hour and the minute, each of a fixed length and in this
order. Dates of four, two and two digits compare as their numbers (`formatDate_lt_iff`), from which
equal texts have equal dates; hour and minute compare as padded numbers. -/
lemma Constants.formatDatetime_lt_iff {y m d h n y' m' d' h' n' : ℕ} (hy : y < 10000)
    (hm : m < 100) (hd : d < 100) (hh : h < 100) (hn : n < 100) (hy' : y' < 10000) (hm' : m' < 100)
    (hd' : d' < 100) (hh' : h' < 100) (hn' : n' < 100) :
    Constants.formatDatetime y m d h n < Constants.formatDatetime y' m' d' h' n' ↔
      dateKey y m d < dateKey y' m' d' ∨
        dateKey y m d = dateKey y' m' d' ∧ (h < h' ∨ h = h' ∧ n < n') := by
  have hlen := (length_formatDate hy hm hd).trans (length_formatDate hy' hm' hd').symm
  have hlt := formatDate_lt_iff hy hm hd hy' hm' hd'
  have hgt := formatDate_lt_iff hy' hm' hd' hy hm hd
  have heq : formatDate y m d = formatDate y' m' d' ↔ dateKey y m d = dateKey y' m' d' := by
    constructor
    · intro h
      have h1 := mt hlt.mpr (by rw [h]; exact List.lt_irrefl _)
      have h2 := mt hgt.mpr (by rw [h]; exact List.lt_irrefl _)
      omega
    · intro h
      exact List.le_antisymm (mt hgt.mp h.not_gt) (mt hlt.mp h.not_lt)
  simp only [Constants.formatDatetime, List.append_assoc, List.cons_append]
  rw [Decimal.append_lt_append_iff hlen, hlt, heq, List.cons_lt_cons_self,
    Decimal.pad_append_lt_iff (by decide) hh hh', Decimal.pad_lt_pad_iff (by decide) hn hn']

/-- **The texts of times are in the order of the times**, if the hours have two digits.

**Proof sketch.** The decoded year, month and day have at most four, two and two digits, and the
hour has two by assumption, so `Constants.formatDatetime_lt_iff` applies. Dates compare as the words
they are decoded from (`dateKey_decodeDateU16_lt_iff`), and hour and minute as the minutes of the
day. -/
lemma date_minBarOf_lt_iff {π : Type} (price : ℕ → π) {r s : List ℕ} (hr : Fits minLayout r)
    (hs : Fits minLayout s) (htr : r.getD 1 0 < 6000) (hts : s.getD 1 0 < 6000) :
    (minBarOf price r).date < (minBarOf price s).date ↔ stamp r < stamp s := by
  obtain ⟨hy, hm, hd⟩ := decodeDateU16_lt (getD_lt hr (by decide : 0 < 9))
  obtain ⟨hy', hm', hd'⟩ := decodeDateU16_lt (getD_lt hs (by decide : 0 < 9))
  have hhour {t : ℕ} (h : t < 6000) : (decodeTime t).1 < 100 := by
    simp only [decodeTime]
    omega
  have hminute (t : ℕ) : (decodeTime t).2 < 100 := by
    simp only [decodeTime]
    omega
  have hlt := dateKey_decodeDateU16_lt_iff (m := r.getD 0 0) (n := s.getD 0 0)
  have hgt := dateKey_decodeDateU16_lt_iff (m := s.getD 0 0) (n := r.getD 0 0)
  simp only [minBarOf]
  rw [Constants.formatDatetime_lt_iff hy hm hd (hhour htr) (hminute _) hy' hm' hd' (hhour hts)
    (hminute _)]
  simp only [decodeTime, stamp]
  omega

/-! ## Files -/

/-- **The readers of files of bars.** Each accepts exactly the files of whole records of its
layout, whatever the numbers in them are, and returns the bars of the one list of records that the
file is the file of. In a file of minutes of either kind, between times whose hours have two digits,
the texts of dates and times are in the order of the numbers.

**Proof sketch.** A reader checks that the length is a multiple of the size of a record and then
reads record by record, so that it reads the fields of a layout (`checked_eq_ok_iff`); and a layout
without empty records is read back from its bytes in one way only (`isFile_iff`). The texts have
parts of fixed widths, and texts of one width are in the order of the numbers. -/
theorem bar_files_read (data : Bytes) :
    (∀ bars, parseMinBar data = .ok bars ↔
      ∃ rs, IsFile minLayout data rs ∧ bars = rs.map (minBarOf fun n => (n : ℚ) / 100)) ∧
    (∀ bars, parseLcMinBar data = .ok bars ↔
      ∃ rs, IsFile minLayout data rs ∧ bars = rs.map (minBarOf Single.ofBits)) ∧
    (∀ coefficient bars, parseDailyBar data coefficient = .ok bars ↔
      ∃ rs, IsFile dayLayout data rs ∧ bars = rs.map (dailyBarOf coefficient)) ∧
    (∀ layout, layout = minLayout ∨ layout = dayLayout →
      ((∃ rs, IsFile layout data rs) ↔ 32 ∣ data.length) ∧
      ∀ rs rs', IsFile layout data rs → IsFile layout data rs' → rs = rs') ∧
    ∀ rs, IsFile minLayout data rs → ∀ r ∈ rs, ∀ s ∈ rs, r.getD 1 0 < 6000 → s.getD 1 0 < 6000 →
      ∀ (π : Type) (price : ℕ → π),
        (minBarOf price r).date < (minBarOf price s).date ↔ stamp r < stamp s := by
  refine ⟨fun bars => ?_, fun bars => ?_, fun coefficient bars => ?_, ?_, ?_⟩
  · refine checked_eq_ok_iff (by decide) fun pos h => minBar_eq (fun pos h => ?_) h
    rw [readU32_eq_field h]
  · exact checked_eq_ok_iff (by decide) fun pos h => minBar_eq (fun pos h => rfl) h
  · exact checked_eq_ok_iff (by decide) fun pos h => dailyBar_eq coefficient h
  · rintro layout hlayout
    have hsum : layout.sum = 32 := by
      rcases hlayout with rfl | rfl <;> rfl
    have hpos : 0 < layout.sum := by omega
    refine ⟨?_, fun rs rs' h h' => ?_⟩
    · rw [exists_isFile_iff hpos, hsum, Nat.dvd_iff_mod_eq_zero]
    · exact ((isFile_iff hpos).mp h).2.symm.trans ((isFile_iff hpos).mp h').2
  · intro rs hfile r hr s hs htr hts π price
    exact date_minBarOf_lt_iff price (hfile.1 r hr) (hfile.1 s hs) htr hts

end Tdxrs
