import Tdxrs.Error
import Tdxrs.Library.Decimal
import Tdxrs.Library.LittleEndian
import Tdxrs.Net.Packet
import Tdxrs.Protocol.Types

set_option relaxedAutoImplicit false
set_option autoImplicit false

/-!
# Parsing K-line responses

`parse_security_bars` and `parse_index_bars` of `src/protocol/parsers.rs`, with the decoders of
`src/helpers.rs` and the reads of `src/constants.rs`. Prices are differences in thousandths,
each a signed number of variable length; they are added up in `i64`, here `Int64` with its
wrapping operations. The quotients and the volume words are exact rationals.

The latest year that is accepted depends on the clock (`max_valid_year`); it is the parameter
`maxValidYear`.

## Main definitions

* `Tdxrs.readU16`, `Tdxrs.readU32` — bounds-checked reads.
* `Tdxrs.getPrice`, `Tdxrs.getVolume`, `Tdxrs.getDatetime` — the field decoders.
* `Tdxrs.parseSecurityBars`, `Tdxrs.parseIndexBars` — the parsers.
-/

namespace Tdxrs

/-- A 16-bit number at a position, zero when it is not all there. -/
def readU16 (data : Bytes) (pos : ℕ) : ℕ :=
  if data.length < pos + 2 then 0 else LittleEndian.field data pos 2

/-- A 32-bit number at a position, zero when it is not all there. -/
def readU32 (data : Bytes) (pos : ℕ) : ℕ :=
  if data.length < pos + 4 then 0 else LittleEndian.field data pos 4

/-- The continuation bytes of a price from position `pos` on, each with seven more bits; `none`
when they run out, or when the tenth would be shifted out of 64 bits. The position returned is
that of the last byte. -/
def getPriceLoop : Bytes → ℕ → ℕ → Int64 → Option (Int64 × ℕ)
  | [], _, _, _ => none
  | b :: rest, pos, shift, result =>
    if 64 ≤ shift then none
    else
      let result := result ||| ((b &&& 0x7F).toUInt64.toInt64 <<< Int64.ofNat shift)
      if b &&& 0x80 = 0 then some (result, pos)
      else getPriceLoop rest (pos + 1) (shift + 7) result

/-- Decodes a price: a signed number whose first byte holds a continuation bit, the sign and six
bits. A price that is cut off or too long decodes to zero and skips the rest of the data. -/
def getPrice (data : Bytes) (pos : ℕ) : Int64 × ℕ :=
  match data.drop pos with
  | [] => (0, data.length)
  | first :: rest =>
    let low := (first &&& 0x3F).toUInt64.toInt64
    let decoded := if first &&& 0x80 ≠ 0 then getPriceLoop rest (pos + 1) 6 low
      else some (low, pos)
    match decoded with
    | none => (0, data.length)
    | some (result, pos) => (if first &&& 0x40 ≠ 0 then -result else result, pos + 1)

/-- Decodes a volume word, a 32-bit number that holds an exponent and three bytes of mantissa. -/
def getVolume (vol : ℕ) : ℚ :=
  if vol = 0 then 0
  else
    let logpoint : ℤ := (vol / 2 ^ 24 : ℕ)
    let hleax : ℕ := vol / 2 ^ 16 % 256
    let lheax : ℕ := vol / 2 ^ 8 % 256
    let lleax : ℕ := vol % 256
    let dwEcx := logpoint * 2 - 0x7F
    let dwEdx := logpoint * 2 - 0x86
    let dwEsi := logpoint * 2 - 0x8E
    let dwEax := logpoint * 2 - 0x96
    let dblXmm6 : ℚ := if dwEcx < 0 then 1 / 2 ^ (-dwEcx) else 2 ^ dwEcx
    let dblXmm4 : ℚ :=
      if 0x80 < hleax then 2 ^ dwEdx * 128 + ((hleax % 128 : ℕ) : ℚ) * 2 ^ (dwEdx + 1)
      else if 0 ≤ dwEdx then 2 ^ dwEdx * hleax
      else 1 / 2 ^ (-dwEdx) * hleax
    let dblXmm3 : ℚ := 2 ^ dwEsi * lheax
    let dblXmm1 : ℚ := 2 ^ dwEax * lleax
    -- the high bit of the mantissa doubles the two low bytes
    if 128 ≤ hleax then dblXmm6 + dblXmm4 + dblXmm3 * 2 + dblXmm1 * 2
    else dblXmm6 + dblXmm4 + dblXmm3 + dblXmm1

/-- Whether the bars of a category are within a day, with a date and a time. -/
def isMinuteCategory (category : UInt8) : Bool :=
  category < 4 || category == 7 || category == 8

/-- Decodes a date: two 16-bit words for categories within a day, else `YYYYMMDD`. -/
def getDatetime (category : UInt8) (buffer : Bytes) (pos : ℕ) : ℕ × ℕ × ℕ × ℕ × ℕ × ℕ :=
  if isMinuteCategory category then
    let zipDay := readU16 buffer pos
    let minutes := readU16 buffer (pos + 2)
    (zipDay / 2048 + 2004, zipDay % 2048 / 100, zipDay % 2048 % 100, minutes / 60, minutes % 60,
      pos + 4)
  else
    let zipDay := readU32 buffer pos
    (zipDay / 10000, zipDay % 10000 / 100, zipDay % 100, 0, 0, pos + 4)

/-- The text of a date, `YYYY-MM-DD`. -/
def formatDate (year month day : ℕ) : Text :=
  Decimal.pad 4 year ++ '-' :: Decimal.pad 2 month ++ '-' :: Decimal.pad 2 day

/-- The text of the date of a bar, with the time for categories within a day. -/
def formatDatetime (category : UInt8) (year month day hour minute : ℕ) : Text :=
  if isMinuteCategory category then
    formatDate year month day ++ ' ' :: Decimal.pad 2 hour ++ ':' :: Decimal.pad 2 minute
  else formatDate year month day

/-- A price in thousandths. -/
def thousandths (n : Int64) : ℚ := n.toInt / 1000

/-- The part of a record that security and index bars share: the bar at position `pos`, the
position after it and the close to which the next prices are relative. A date that is not valid
ends the list. -/
def parseKLine (maxValidYear : ℕ) (category : UInt8) (body : Bytes) (pos : ℕ)
    (preDiffBase : Int64) : Option (SecurityBar × ℕ × Int64) :=
  let (year, month, day, hour, minute, pos) := getDatetime category body pos
  if year < 1980 ∨ maxValidYear < year ∨ ¬(1 ≤ month ∧ month ≤ 12) ∨ ¬(1 ≤ day ∧ day ≤ 31) then
    none
  else
    let (openDiff, pos) := getPrice body pos
    let accumulated := preDiffBase + openDiff
    let (closeDiff, pos) := getPrice body pos
    let (highDiff, pos) := getPrice body pos
    let (lowDiff, pos) := getPrice body pos
    some
      ({ «open» := thousandths accumulated
         close := thousandths (accumulated + closeDiff)
         high := thousandths (accumulated + highDiff)
         low := thousandths (accumulated + lowDiff)
         vol := getVolume (readU32 body pos)
         amount := getVolume (readU32 body (pos + 4))
         year, month, day, hour, minute
         datetime := formatDatetime category year month day hour minute },
        pos + 8, accumulated + closeDiff)

/-- The records of a security K-line response from position `pos` on. -/
def parseSecurityBarsLoop (maxValidYear : ℕ) (category : UInt8) (body : Bytes) :
    ℕ → ℕ → Int64 → List SecurityBar
  | 0, _, _ => []
  | count + 1, pos, preDiffBase =>
    if body.length < pos + 16 then []
    else
      match parseKLine maxValidYear category body pos preDiffBase with
      | none => []
      | some (bar, pos, preDiffBase) =>
        bar :: parseSecurityBarsLoop maxValidYear category body count pos preDiffBase

/-- Parses a security K-line response. -/
def parseSecurityBars (maxValidYear : ℕ) (category : UInt8) (body : Bytes) :
    Except TdxError (List SecurityBar) :=
  if body.length < 2 then .error (ErrorCode.responseLengthMismatch.err "body too short")
  else .ok (parseSecurityBarsLoop maxValidYear category body (readU16 body 0) 2 0)

/-- The records of an index K-line response from position `pos` on. -/
def parseIndexBarsLoop (maxValidYear : ℕ) (category : UInt8) (body : Bytes) :
    ℕ → ℕ → Int64 → List IndexBar
  | 0, _, _ => []
  | count + 1, pos, preDiffBase =>
    if body.length < pos + 24 then []
    else
      match parseKLine maxValidYear category body pos preDiffBase with
      | none => []
      | some (bar, pos, preDiffBase) =>
        { bar with upCount := readU16 body pos, downCount := readU16 body (pos + 2) } ::
          parseIndexBarsLoop maxValidYear category body count (pos + 4) preDiffBase

/-- Parses an index K-line response. -/
def parseIndexBars (maxValidYear : ℕ) (category : UInt8) (body : Bytes) :
    Except TdxError (List IndexBar) :=
  if body.length < 2 then .error (ErrorCode.responseLengthMismatch.err "body too short")
  else .ok (parseIndexBarsLoop maxValidYear category body (readU16 body 0) 2 0)

/-- A response of one record: the bar of 2024-01-02, opened at 10.000. -/
example : (parseSecurityBars 2036 4
    ([1, 0] ++ LittleEndian.toLE 4 20240102 ++ [0x90, 0x9C, 0x01, 0x0A, 0x14, 0x45] ++
      LittleEndian.toLE 4 0x48800000 ++ LittleEndian.toLE 4 0)).toOption =
    some [⟨10, 1001 / 100, 1002 / 100, 9995 / 1000, 262144, 0, 2024, 1, 2, 0, 0,
      "2024-01-02".toList⟩] := by
  decide +kernel

end Tdxrs
