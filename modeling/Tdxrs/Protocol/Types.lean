import Mathlib.Algebra.Order.Field.Rat

set_option relaxedAutoImplicit false
set_option autoImplicit false

/-!
# The data of the protocol

The records of `src/protocol/types.rs` that the K-line requests and the price adjustment work
on. Prices, volumes and amounts are exact rationals in place of the source's `f64`, and texts are
lists of characters.

## Main definitions

* `Tdxrs.Single` — numbers in single precision.
* `Tdxrs.SecurityBar`, `Tdxrs.IndexBar` — K-line bars.
* `Tdxrs.XdXrInfo` — a corporate action.
* `Tdxrs.SecurityBar.dateKey`, `Tdxrs.XdXrInfo.dateKey` — dates as `YYYYMMDD` numbers.
-/

namespace Tdxrs

/-- A text, as the list of its characters. -/
abbrev Text := List Char

/-- Texts are compared by their characters. -/
instance : LawfulBEq Text := inferInstanceAs (LawfulBEq (List Char))

/-- A number in single precision (`f32`). -/
inductive Single where
  | finite (q : ℚ)
  | infinite (negative : Bool)
  | nan
deriving DecidableEq

/-- The number that 32 bits stand for: a sign, an exponent of eight bits and a mantissa of 23. -/
def Single.ofBits (bits : ℕ) : Single :=
  let negative := bits / 2 ^ 31 % 2 == 1
  let exponent : ℕ := bits / 2 ^ 23 % 256
  let mantissa : ℕ := bits % 2 ^ 23
  let sign : ℚ := if negative then -1 else 1
  if exponent = 255 then if mantissa = 0 then .infinite negative else .nan
  else if exponent = 0 then .finite (sign * (mantissa / 2 ^ 149))
  else .finite (sign * ((2 ^ 23 + mantissa) * 2 ^ ((exponent : ℤ) - 150)))

/-- A K-line bar of a security. -/
structure SecurityBar where
  «open» : ℚ
  close : ℚ
  high : ℚ
  low : ℚ
  vol : ℚ
  amount : ℚ
  year : ℕ
  month : ℕ
  day : ℕ
  hour : ℕ
  minute : ℕ
  datetime : Text
deriving DecidableEq

/-- A K-line bar of an index: the bar, and the counts of rising and falling securities. -/
structure IndexBar extends SecurityBar where
  upCount : ℕ
  downCount : ℕ
deriving DecidableEq

/-- A corporate action. Category 1 is an ex-rights or ex-dividend event, with the dividend
`fenhong` and the bonus and rights shares `songzhuangu` and `peigu` per ten shares, and the
rights price `peigujia`. -/
structure XdXrInfo where
  year : ℕ
  month : ℕ
  day : ℕ
  category : ℕ
  fenhong : Option ℚ
  peigujia : Option ℚ
  songzhuangu : Option ℚ
  peigu : Option ℚ
deriving DecidableEq

/-- A date as the number `YYYYMMDD`. -/
def dateKey (year month day : ℕ) : ℕ := year * 10000 + month * 100 + day

/-- The date of a bar. -/
def SecurityBar.dateKey (b : SecurityBar) : ℕ := Tdxrs.dateKey b.year b.month b.day

/-- The date of a corporate action. -/
def XdXrInfo.dateKey (x : XdXrInfo) : ℕ := Tdxrs.dateKey x.year x.month x.day

end Tdxrs
