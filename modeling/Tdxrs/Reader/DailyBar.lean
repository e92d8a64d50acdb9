import Tdxrs.Protocol.Parsers

set_option relaxedAutoImplicit false
set_option autoImplicit false

/-!
# Reading `.day` files

`parse_daily_bar` of `src/reader/daily_bar.rs`, with the dates of `src/constants.rs`. A file is a
sequence of records of 32 bytes.

## Main definitions

* `Tdxrs.decodeDate` — the date that a number stands for.
* `Tdxrs.dailyBar` — one record.
* `Tdxrs.parseDailyBar` — the file.
-/

namespace Tdxrs

/-- The number in single precision at a position. Only positions inside the data are read. -/
def readF32 (data : Bytes) (pos : ℕ) : Single := Single.ofBits (LittleEndian.field data pos 4)

/-- The date that a number stands for: above 100000 in the layout `YYYYMMDD`, else in the compact
layout. -/
def decodeDate (num : ℕ) : ℕ × ℕ × ℕ :=
  if 100000 < num then (num / 10000, num % 10000 / 100, num % 100)
  else (num / 2048 + 2004, num % 2048 / 100, num % 2048 % 100)

/-- A record of a `.day` file. -/
structure DailyBarRecord where
  date : Text
  «open» : ℚ
  high : ℚ
  low : ℚ
  close : ℚ
  amount : Single
  volume : ℚ
  year : ℕ
  month : ℕ
  day : ℕ
deriving DecidableEq

/-- The record at a position. Prices are integers that are multiplied by the coefficient. -/
def dailyBar (coefficient : ℚ) (data : Bytes) (pos : ℕ) : DailyBarRecord :=
  let (year, month, day) := decodeDate (readU32 data pos)
  { date := formatDate year month day
    «open» := readU32 data (pos + 4) * coefficient
    high := readU32 data (pos + 8) * coefficient
    low := readU32 data (pos + 12) * coefficient
    close := readU32 data (pos + 16) * coefficient
    amount := readF32 data (pos + 20)
    volume := readU32 data (pos + 24)
    year, month, day }

/-- Parses a `.day` file. -/
def parseDailyBar (data : Bytes) (coefficient : ℚ) : Except TdxError (List DailyBarRecord) :=
  if data.length % 32 ≠ 0 then
    .error (.invalidData s!"Daily bar file size {data.length} is not a multiple of 32")
  else
    .ok ((List.range (data.length / 32)).map fun i => dailyBar coefficient data (i * 32))

/-- The record of the tests: 2024-01-15 at 10.50. -/
example :
    (parseDailyBar (LittleEndian.toLE 4 (20 * 2048 + 115) ++ LittleEndian.toLE 4 1050 ++
        LittleEndian.toLE 4 1080 ++ LittleEndian.toLE 4 1030 ++ LittleEndian.toLE 4 1060 ++
        LittleEndian.toLE 4 0x47F12040 ++ LittleEndian.toLE 4 50000 ++ LittleEndian.toLE 4 0)
      (1 / 100)).toOption =
      some [⟨"2024-01-15".toList, 105 / 10, 108 / 10, 103 / 10, 106 / 10, .finite (1234565 / 10),
        50000, 2024, 1, 15⟩] := by
  decide +kernel

end Tdxrs
