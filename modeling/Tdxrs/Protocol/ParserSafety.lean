import Tdxrs.Protocol.BarFields
import Tdxrs.Protocol.MinuteData
import Tdxrs.Protocol.Quotes
import Tdxrs.Protocol.Reports

set_option relaxedAutoImplicit false
set_option autoImplicit false

/-!
# When the parsers panic

Ten parsers of `src/protocol/parsers.rs` read what an untrusted server sends. Their indices and
slices are always in range, and so is the arithmetic of the volume words. But the negation of a
price overflows if its magnitude is `2⁶³`, and the sums of the K-line and quote parsers, which do
not saturate, overflow for large differences. Without these prices and sums no parser panics, and
so none wraps around in a release build.

## Main definitions

* `Tdxrs.NoPanic` — a computation on the checked machine gives a result.

## Main results

* `Tdxrs.parsers_no_panic_iff` — for each of the parsers, the bodies on which it does not panic.
-/

namespace Tdxrs

/-- A computation on the checked machine gives a result: no index is out of range and no operation
overflows. -/
def NoPanic {α : Type} (c : Except Fault α) : Prop := ∃ v, c = .ok v

instance {α : Type} (c : Except Fault α) : Decidable (NoPanic c) :=
  match c with
  | .ok v => isTrue ⟨v, rfl⟩
  | .error _ => isFalse fun ⟨_, hv⟩ => nomatch hv

/-- The parser of an earlier day's minutes ends and does not panic exactly if its prices do not, in
as many rounds as there are bytes. -/
lemma historyMinutes_no_panic_iff (body : Bytes) (market : UInt8) (code : Text) :
    (∃ v, ∀ fuel, body.length ≤ fuel →
        parseHistoryMinuteTimeDataM Machine.checked body market code fuel = .ok v) ↔
      RecordsFit 1 0 minuteFields body body.length 6 := by
  constructor
  · rintro ⟨v, hv⟩
    exact (runs_parseHistoryMinuteTimeData body market code _).safe_iff.mp ⟨v, hv _ le_rfl⟩
  · intro hfits
    refine ⟨parseHistoryMinuteTimeData body market code, fun fuel hfuel => ?_⟩
    rw [← parseHistoryMinuteTimeData_of_le body market code hfuel]
    refine (runs_parseHistoryMinuteTimeData body market code fuel).ok ?_
    exact (recordsFit_of_le Nat.one_pos _ (Nat.le_add_left _ _) hfuel).mpr hfits

/-- **When the parsers do not panic.** For every body, category, market, code and coefficient: the
two K-line parsers do not panic exactly if all their prices can be negated and all sums of a bar
with the close before it are in range; the four parsers of minutes and transactions exactly if all
prices can be negated, where the one that reads up to the end of the body also ends by itself; the
parser of quotes exactly if all prices can be negated and all prices that are given as differences
are in range; and the parsers of records of fixed length never do.

**Proof sketch.** Each parser with checks runs exactly under a condition on the bytes, which follows
the loop of the parser step by step (the lemmas `runs_`); that it does not panic is to run
(`Checked.Runs.safe_iff`). The parser of the minutes of an earlier day has no count, so fuel stands
in for it, and any fuel from the number of bytes on does. -/
theorem parsers_no_panic_iff (maxValidYear : ℕ) (gbk : Bytes → Text) (body : Bytes)
    (category market : UInt8) (code : Text) (coefficient : ℚ) :
    (NoPanic (parseSecurityBarsM Machine.checked maxValidYear category body) ↔
      (¬ body.length < 2 → BarsFit maxValidYear category body 16 0 (readU16 body 0) 2 0)) ∧
    (NoPanic (parseIndexBarsM Machine.checked maxValidYear category body) ↔
      (¬ body.length < 2 → BarsFit maxValidYear category body 24 4 (readU16 body 0) 2 0)) ∧
    (NoPanic (parseMinuteTimeDataM Machine.checked body market code) ↔
      (¬ body.length < 14 → RecordsFit 3 0 minuteFields body (readU16 body 0) 13)) ∧
    ((∃ v, ∀ fuel, body.length ≤ fuel →
        parseHistoryMinuteTimeDataM Machine.checked body market code fuel = .ok v) ↔
      RecordsFit 1 0 minuteFields body body.length 6) ∧
    (NoPanic (parseTransactionDataWithCoefficientM Machine.checked body coefficient) ↔
      (¬ body.length < 2 → RecordsFit 6 2 tickFields body (readU16 body 0) 2)) ∧
    (NoPanic (parseHistoryTransactionDataWithCoefficientM Machine.checked body coefficient) ↔
      (¬ body.length < 6 → RecordsFit 6 2 historyTickFields body (readU16 body 0) 6)) ∧
    (NoPanic (parseSecurityQuotesM Machine.checked body) ↔
      (¬ body.length < 4 → QuotesFit body (readU16 body 2) 4)) ∧
    NoPanic (parseSecurityListM Machine.checked gbk body) ∧
    NoPanic (parseFinanceInfoM Machine.checked body market code) ∧
    NoPanic (parseXdXrInfoM Machine.checked body) :=
  ⟨(runs_parseSecurityBars maxValidYear category body).safe_iff,
    (runs_parseIndexBars maxValidYear category body).safe_iff,
    (runs_parseMinuteTimeData body market code).safe_iff,
    historyMinutes_no_panic_iff body market code,
    (runs_parseTransactionData body coefficient).safe_iff,
    (runs_parseHistoryTransactionData body coefficient).safe_iff,
    (runs_parseSecurityQuotes body).safe_iff,
    ⟨_, parseSecurityListM_eq inRange_checked gbk body⟩,
    ⟨_, parseFinanceInfoM_eq inRange_checked body market code⟩,
    ⟨_, parseXdXrInfoM_eq inRange_checked body⟩⟩

/-- A price of magnitude `2⁶³`, with the sign. -/
def leastPrice : Bytes := [0xC0] ++ List.replicate 8 0x80 ++ [0x02]

/-- The price `2⁶²`. -/
def largePrice : Bytes := [0x80] ++ List.replicate 8 0x80 ++ [0x01]

/-- **The parsers can panic**: a transaction whose price cannot be negated, and a bar whose open and
the difference of whose close are both `2⁶²`. -/
theorem parsers_overflow :
    ¬ NoPanic (parseTransactionDataWithCoefficientM Machine.checked
      ([1, 0] ++ [0x3A, 0x02] ++ leastPrice ++ [0, 0, 0, 0]) (1 / 100)) ∧
    ¬ NoPanic (parseSecurityBarsM Machine.checked 2036 4
      ([1, 0] ++ LittleEndian.toLE 4 20240102 ++ largePrice ++ largePrice ++
        List.replicate 10 0)) := by
  decide +kernel

end Tdxrs
