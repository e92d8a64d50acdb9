import Mathlib.Data.Int.Log
import Mathlib.Data.Nat.Digits.Defs
import Mathlib.Data.Rat.Encodable
import Mathlib.Logic.Equiv.List
import Tdxrs.Library.Decimal
import Tdxrs.Library.LittleEndian
import Tdxrs.Library.TextLines
import Tdxrs.Net.KLineRequest
import Tdxrs.Protocol.Parsers

set_option relaxedAutoImplicit false
set_option autoImplicit false

/-!
# Data files of the downloader

The three file formats of `python/tdxrs/downloader.py`: the writers `_write_tdx`, `_write_csv`
and `_write_parquet`, and `_get_existing_last_date`, which reads the date of the last record
back. A writer returns what the file holds afterwards together with the exception that it
raises, if any, because records that were written before an exception stay in the file.

Numbers are exact rationals in place of Python's floats, with `int()` cutting off towards zero,
`struct` packing into 32 bits and decimal texts rounded half to even. Parquet files are read and
written by a third-party library, which enters as the parameter `ParquetCodec`.

## Main definitions

* `Tdxrs.packRecord`, `Tdxrs.writeTdx`, `Tdxrs.dateText` — the 32-byte records of `.day` files.
* `Tdxrs.csvRow`, `Tdxrs.writeCsv` — text files.
* `Tdxrs.ParquetCodec`, `Tdxrs.writeParquet` — parquet files.
* `Tdxrs.writeBars`, `Tdxrs.getExistingLastDate` — the writer and the reader of a format.
-/

namespace Tdxrs

/-! ## Values -/

/-- The exceptions that a download can raise. -/
inductive PyError where
  /-- `struct.error`: an argument out of range. -/
  | struct
  | overflow
  | value
  /-- An exception of the client. -/
  | client (e : TdxError)
deriving DecidableEq, Repr

/-- `int()` of a number: cut off towards zero. -/
def pyInt (q : ℚ) : ℤ := if 0 ≤ q then ⌊q⌋ else ⌈q⌉

/-- `int()` of a text of digits. -/
def parseInt (s : Text) : Except PyError ℕ :=
  match Decimal.parse s with
  | some n => .ok n
  | none => .error .value

/-- `struct.pack("<I", z)`. -/
def packU32 (z : ℤ) : Except PyError Bytes :=
  if 0 ≤ z ∧ z < 2 ^ 32 then .ok (LittleEndian.toLE 4 z.toNat) else .error .struct

/-- The bits of a number in single precision, rounded half to even; `none` when it is too
large. -/
def float32Bits (q : ℚ) : Option ℕ :=
  let e : ℤ := max (-126) (Int.log 2 |q|)
  let mantissa := (Decimal.roundHalfEven (|q| / 2 ^ (e - 23))).toNat
  -- a mantissa that rounds up to the next power of two carries over into the exponent
  let bits := if q = 0 then 0 else mantissa + (e + 126).toNat * 2 ^ 23
  if 0x7F800000 ≤ bits then none else some (if q < 0 then 0x80000000 + bits else bits)

/-- `struct.pack("<f", q)`. -/
def packF32 (q : ℚ) : Except PyError Bytes :=
  match float32Bits q with
  | some bits => .ok (LittleEndian.toLE 4 bits)
  | none => .error .overflow

/-- A text in UTF-8. -/
def encodeText (t : Text) : Bytes := asBytes (String.ofList t)

/-- The text that bytes in UTF-8 make; `none` when they do not. -/
def decodeText (bytes : Bytes) : Option Text :=
  (String.fromUTF8? ⟨bytes.toArray⟩).map String.toList

/-- The date of a bar, the first ten characters of its time. -/
def SecurityBar.datePart (b : SecurityBar) : Text := b.datetime.take 10

/-! ## Binary files -/

/-- The number for a date: from 2004 on in the compact layout, before as `YYYYMMDD`. -/
def dateInt (year month day : ℕ) : ℕ :=
  if 2004 ≤ year then (year - 2004) * 2048 + month * 100 + day
  else year * 10000 + month * 100 + day

/-- The 32-byte record of a bar. -/
def packRecord (b : SecurityBar) : Except PyError Bytes := do
  let year ← parseInt (b.datetime.take 4)
  let month ← parseInt ((b.datetime.drop 5).take 2)
  let day ← parseInt ((b.datetime.drop 8).take 2)
  let date ← packU32 (dateInt year month day)
  let «open» ← packU32 (pyInt (b.open * 100))
  let high ← packU32 (pyInt (b.high * 100))
  let low ← packU32 (pyInt (b.low * 100))
  let close ← packU32 (pyInt (b.close * 100))
  let amount ← packF32 b.amount
  let vol ← packU32 (pyInt b.vol)
  let reserved ← packU32 0
  return date ++ «open» ++ high ++ low ++ close ++ amount ++ vol ++ reserved

/-- Records written one after the other. -/
def writeRecords : Bytes → List SecurityBar → Bytes × Except PyError Unit
  | content, [] => (content, .ok ())
  | content, b :: bars =>
    match packRecord b with
    | .error e => (content, .error e)
    | .ok record => writeRecords (content ++ record) bars

/-- Writes bars to a `.day` file, behind what it holds or in place of it. -/
def writeTdx (content : Option Bytes) (bars : List SecurityBar) (append : Bool) :
    Option Bytes × Except PyError Unit :=
  let written := writeRecords (if append then content.getD [] else []) bars
  (some written.1, written.2)

/-- The date text for the number in a record; `none` when it stands for no date. -/
def dateText (date : ℕ) : Option Text :=
  if date = 0 then none
  else if 100000 < date then
    -- the layout of the dates before 2004
    let s := Nat.toDigits 10 date
    if s.length = 8 then some (s.take 4 ++ '-' :: (s.drop 4).take 2 ++ '-' :: (s.drop 6).take 2)
    else none
  else
    let year := date / 2048 + 2004
    let month := date % 2048 / 100
    let day := date % 2048 % 100
    if (2004 ≤ year ∧ year ≤ 2099) ∧ (1 ≤ month ∧ month ≤ 12) ∧ 1 ≤ day ∧ day ≤ 31 then
      some (Nat.toDigits 10 year ++ '-' :: Decimal.pad 2 month ++ '-' :: Decimal.pad 2 day)
    else none

/-- The date of the last record of a `.day` file. -/
def lastDateTdx (content : Bytes) : Option Text :=
  if content.length < 32 then none
  else dateText (LittleEndian.field content (content.length - 32) 4)

/-! ## Text files -/

/-- A price with three decimal places below ten, else with two. -/
def px (v : ℚ) : Text := if v < 10 then Decimal.fixed 3 v else Decimal.fixed 2 v

/-- The header of a text file. -/
def csvHeader : Text := "date,open,high,low,close,amount,volume".toList

/-- The columns of a row after the date. -/
def csvColumns (b : SecurityBar) : Text :=
  px b.open ++ ',' :: px b.high ++ ',' :: px b.low ++ ',' :: px b.close ++
    ',' :: Decimal.fixed 2 b.amount ++ ',' :: Decimal.integer (pyInt b.vol)

/-- The row of a bar. No column needs quotes. -/
def csvRow (b : SecurityBar) : Text := b.datePart ++ ',' :: csvColumns b

/-- Rows in a text file, each with a line end behind it. -/
def writeRows (rows : List Text) : Bytes := encodeText (rows.flatMap (· ++ TextLines.crlf))

/-- Writes bars to a text file, behind what it holds or, with a header, in place of it. -/
def writeCsv (content : Option Bytes) (bars : List SecurityBar) (append : Bool) :
    Option Bytes × Except PyError Unit :=
  let rows := bars.map csvRow
  (some (if append then content.getD [] ++ writeRows rows else writeRows (csvHeader :: rows)),
    .ok ())

/-- The date of the last row of a text file. -/
def lastDateCsv (content : Bytes) : Option Text :=
  match decodeText content with
  | none => none
  | some t =>
    let lines := TextLines.readLines (TextLines.universalNewlines t)
    if lines.length < 2 then none
    else
      match lines.getLast?.map TextLines.strip with
      | none => none
      | some [] => none
      | some (c :: line) => some ((c :: line).takeWhile (· ≠ ','))

/-! ## Parquet files -/

/-- A row of a parquet file. -/
structure ParquetRow where
  date : Text
  «open» : ℚ
  high : ℚ
  low : ℚ
  close : ℚ
  amount : ℚ
  volume : ℤ
deriving DecidableEq

/-- The library that reads and writes parquet files: a table that was written is read back. -/
structure ParquetCodec where
  write : List ParquetRow → Bytes
  read : Bytes → Option (List ParquetRow)
  read_write : ∀ table, read (write table) = some table

/-- The columns of a row. -/
def ParquetRow.columns (r : ParquetRow) : List ℕ × ℚ × ℚ × ℚ × ℚ × ℚ × ℤ :=
  (r.date.map Char.toNat, r.open, r.high, r.low, r.close, r.amount, r.volume)

/-- The row with given columns. -/
def ParquetRow.ofColumns : List ℕ × ℚ × ℚ × ℚ × ℚ × ℚ × ℤ → ParquetRow
  | (date, o, high, low, close, amount, volume) =>
    ⟨date.map Char.ofNat, o, high, low, close, amount, volume⟩

/-- A row is made of its columns. -/
lemma ParquetRow.ofColumns_columns (r : ParquetRow) : ofColumns r.columns = r := by
  simp [columns, ofColumns, Function.comp_def]

/-- A library that writes the number of a table in the enumeration of all tables. -/
def ParquetCodec.enumerated : ParquetCodec where
  write table :=
    let n := Encodable.encode (table.map ParquetRow.columns)
    LittleEndian.toLE (Nat.digits 256 n).length n
  read bytes :=
    (Encodable.decode (LittleEndian.ofLE bytes)).map (List.map ParquetRow.ofColumns)
  read_write table := by
    have hlt := Nat.lt_base_pow_length_digits (m := Encodable.encode (table.map ParquetRow.columns))
      (by decide : 1 < 256)
    simp only [LittleEndian.ofLE_toLE, Nat.mod_eq_of_lt hlt, Encodable.encodek, Option.map_some,
      List.map_map, Function.comp_def, ParquetRow.ofColumns_columns, List.map_id']

/-- The row of a bar; the volume must fit 64 bits. -/
def parquetRow (b : SecurityBar) : Except PyError ParquetRow :=
  if -2 ^ 63 ≤ pyInt b.vol ∧ pyInt b.vol < 2 ^ 63 then
    .ok ⟨b.datePart, b.open, b.high, b.low, b.close, b.amount, pyInt b.vol⟩
  else .error .overflow

/-- Writes bars to a parquet file, behind the rows that it holds or in place of it. The table is
complete before the file is opened. -/
def writeParquet (codec : ParquetCodec) (content : Option Bytes) (bars : List SecurityBar)
    (mergeExisting : Bool) : Option Bytes × Except PyError Unit :=
  match bars.mapM parquetRow with
  | .error e => (content, .error e)
  | .ok table =>
    let old := if mergeExisting then ((content.bind codec.read).getD []) else []
    (some (codec.write (old ++ table)), .ok ())

/-- The date of the last row of a parquet file. -/
def lastDateParquet (codec : ParquetCodec) (content : Bytes) : Option Text :=
  match codec.read content with
  | none => none
  | some table => table.getLast?.map ParquetRow.date

/-! ## Formats -/

/-- The formats of data files. -/
inductive Format where
  | tdx
  | csv
  | parquet
deriving DecidableEq, Repr

/-- The extension of the files of a format. -/
def Format.ext : Format → Text
  | .tdx => "day".toList
  | .csv => "csv".toList
  | .parquet => "parquet".toList

/-- Writes bars to a file of a format. -/
def writeBars (codec : ParquetCodec) (format : Format) (content : Option Bytes)
    (bars : List SecurityBar) (append : Bool) : Option Bytes × Except PyError Unit :=
  match format with
  | .csv => writeCsv content bars append
  | .parquet => writeParquet codec content bars append
  | .tdx => writeTdx content bars append

/-- The date of the last record of a file; `none` when there is none or it cannot be read. -/
def getExistingLastDate (codec : ParquetCodec) (format : Format) (content : Bytes) :
    Option Text :=
  match format with
  | .csv => lastDateCsv content
  | .tdx => lastDateTdx content
  | .parquet => lastDateParquet codec content

end Tdxrs
