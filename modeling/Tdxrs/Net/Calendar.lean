import Tdxrs.Library.Gregorian
import Tdxrs.Library.Loop
import Tdxrs.Net.RateLimiter

set_option relaxedAutoImplicit false
set_option autoImplicit false

/-!
# The date and the trading phase

Two functions of `src/net/utils.rs` read the clock. `today_yyyymmdd` moves the time to UTC+8, and
takes years and then months off the days since 1970. `detect_trading_phase` finds the day of the
week and the time of the day in UTC, and has the eight hours only in the bounds of the trading time,
so that its days begin at eight in the morning of UTC+8.

## Main definitions

* `Tdxrs.todayYyyymmdd`, `Tdxrs.detectTradingPhase` — the two functions, by the seconds
  of the epoch.
* `Tdxrs.localDate`, `Tdxrs.localSecond`, `Tdxrs.localPhase` — date, time and phase in UTC+8.
* `Tdxrs.FollowsBeijing` — the phase is the one of UTC+8.

## Main results

* `Tdxrs.todayYmd_spec` — the conversion ends with the date.
* `Tdxrs.today_is_localDate` — what is reported, and that it grows from day to day.
* `Tdxrs.followsBeijing_iff` — when the phase is right.
-/

namespace Tdxrs

open Gregorian (yearStart monthStart daysInMonth)

/-! ## The two functions -/

/-- The leap rule. -/
def leap (y : ℕ) : Bool := y % 4 == 0 && (y % 100 != 0 || y % 400 == 0)

/-- One round of the loop over the years, on the year and the days that remain. -/
def yearStep : ℕ × ℕ → (ℕ × ℕ) ⊕ (ℕ × ℕ)
  | (y, remaining) =>
    let daysInYear := if leap y then 366 else 365
    if remaining < daysInYear then .inr (y, remaining) else .inl (y + 1, remaining - daysInYear)

/-- The days of the months. -/
def monthDays (y : ℕ) : List ℕ :=
  [31, if leap y then 29 else 28, 31, 30, 31, 30, 31, 31, 30, 31, 30, 31]

/-- The loop over the months, on the index of the month and the days that remain. -/
def monthLoop : List ℕ → ℕ → ℕ → ℕ × ℕ
  | [], m, remaining => (m, remaining)
  | d :: ds, m, remaining =>
    if remaining < d then (m, remaining) else monthLoop ds (m + 1) (remaining - d)

/-- The year, the index of the month and the day that `today_yyyymmdd` finds. The fuel is for the
loop over the years. -/
def todayYmd (fuel now : ℕ) : Option (ℕ × ℕ × ℕ) := do
  let ts := (now + 8 * 3600) % 2 ^ 64
  let days := ts / 86400
  let (y, remaining) ← Loop.run yearStep fuel (1970, days)
  let (m, remaining) := monthLoop (monthDays y) 0 remaining
  some (y, m, remaining + 1)

/-- `today_yyyymmdd`, a `u32`. -/
def todayYyyymmdd (fuel now : ℕ) : Option ℕ :=
  (todayYmd fuel now).map fun (y, m, d) => (y * 10000 + (m + 1) * 100 + d) % 2 ^ 32

/-- `detect_trading_phase`. -/
def detectTradingPhase (now : ℕ) : TradingPhase :=
  let daySec := now % 86400
  let weekDay := (now / 86400 + 4) % 7
  if weekDay = 0 ∨ weekDay = 6 then .closed
  else if 5400 ≤ daySec ∧ daySec ≤ 25200 then .trading
  else .prePost

/-! ## Date, time and phase in UTC+8 -/

/-- The days since 1970-01-01 in UTC+8. -/
def localDay (now : ℕ) : ℕ := (now + 28800) / 86400

/-- The date in UTC+8. -/
def localDate (now : ℕ) : Gregorian.Date := Gregorian.after (localDay now)

/-- The second of the day in UTC+8. -/
def localSecond (now : ℕ) : ℕ := (now + 28800) % 86400

/-- The phase by the date and the time in UTC+8: no trading on Saturday and Sunday, and trading
from 9:30 to 15:00 on the other days. -/
def localPhase (now : ℕ) : TradingPhase :=
  if (localDate now).weekday = 6 ∨ (localDate now).weekday = 0 then .closed
  else if 9 * 3600 + 30 * 60 ≤ localSecond now ∧ localSecond now ≤ 15 * 3600 then .trading
  else .prePost

/-! ## The conversion of the date -/

lemma leap_iff (y : ℕ) : leap y = true ↔ Gregorian.IsLeap y := by
  simp only [leap, Gregorian.IsLeap, Bool.and_eq_true, Bool.or_eq_true, beq_iff_eq, bne_iff_ne,
    Nat.dvd_iff_mod_eq_zero]
  omega

lemma ite_leap (y a b : ℕ) :
    (if leap y then a else b) = if Gregorian.IsLeap y then a else b :=
  if_congr (leap_iff y) rfl rfl

lemma yearStep_eq (y remaining : ℕ) : yearStep (y, remaining) =
    if remaining < Gregorian.daysInYear y then .inr (y, remaining)
    else .inl (y + 1, remaining - Gregorian.daysInYear y) := by
  rw [yearStep, ite_leap]
  rfl

lemma monthDays_eq (y : ℕ) : monthDays y = (List.range' 1 12).map (daysInMonth y) := by
  simp only [monthDays, ite_leap]
  rfl

/-- The loop over the years ends: each round takes days off.

**Proof sketch.** A year has days, so the days that remain decrease with each round. -/
lemma exists_years (y remaining : ℕ) :
    ∃ fuel r, Loop.run yearStep fuel (y, remaining) = some r := by
  refine Loop.exists_run Prod.snd ?_ _
  rintro ⟨y, remaining⟩ s' hs
  rw [yearStep_eq] at hs
  split at hs
  · exact nomatch hs
  · rename_i hrest
    cases hs
    have hpos : 0 < Gregorian.daysInYear y := by
      unfold Gregorian.daysInYear
      split <;> decide
    dsimp only
    omega

/-- The loop over the years keeps the day, and leaves the days within a year.

**Proof sketch.** The invariant of the loop is the number of the day, the days before the year and
those that remain: a step that goes on moves the days of a year from the one to the other. The loop
ends when what remains is less than a year. -/
lemma years_spec {fuel y remaining y' remaining' : ℕ}
    (hrun : Loop.run yearStep fuel (y, remaining) = some (y', remaining')) :
    yearStart y' + remaining' = yearStart y + remaining ∧
      remaining' < Gregorian.daysInYear y' := by
  obtain ⟨⟨last, rest⟩, hreach, hlast⟩ := Loop.run_iff.mp ⟨fuel, hrun⟩
  have hday : yearStart last + rest = yearStart y + remaining := by
    refine Loop.invariant (I := fun s => yearStart s.1 + s.2 = yearStart y + remaining) ?_ rfl
      hreach
    rintro ⟨year, rest⟩ s' hinv hs
    rw [yearStep_eq] at hs
    split at hs
    · exact nomatch hs
    · cases hs
      dsimp only at hinv ⊢
      rw [Gregorian.yearStart_succ]
      omega
  rw [yearStep_eq] at hlast
  split at hlast
  · rename_i hrest
    cases hlast
    exact ⟨hday, hrest⟩
  · exact nomatch hlast

/-- The loop over the months keeps the day, and leaves the days within a month.

**Proof sketch.** Induction on the months that are left. The loop ends in a month that is longer
than what remains; otherwise the days of the month move from what remains to what lies before, and
what remains is less than the months that are left. -/
lemma monthLoop_spec (y : ℕ) {n m remaining : ℕ}
    (hrest : monthStart y (m + 1) + remaining < monthStart y (m + 1 + n)) :
    let out := monthLoop ((List.range' (m + 1) n).map (daysInMonth y)) m remaining
    out.1 < m + n ∧ out.2 < daysInMonth y (out.1 + 1) ∧
      monthStart y (out.1 + 1) + out.2 = monthStart y (m + 1) + remaining := by
  induction n generalizing m remaining with
  | zero => exact absurd hrest (by rw [Nat.add_zero]; omega)
  | succ n ih =>
    rw [List.range'_succ, List.map_cons, monthLoop]
    split
    · rename_i hmonth
      exact ⟨by omega, hmonth, rfl⟩
    · have hsucc := Gregorian.monthStart_succ y (Nat.le_add_left 1 m)
      have hnext : monthStart y (m + 1 + 1) + (remaining - daysInMonth y (m + 1)) <
          monthStart y (m + 1 + 1 + n) := by
        rw [Nat.add_right_comm (m + 1) 1 n, Nat.add_assoc (m + 1) n 1]
        omega
      obtain ⟨hindex, hwithin, hday⟩ := ih hnext
      exact ⟨by omega, hwithin, by omega⟩

/-- The days before the year 10000 are few enough for a `u64` of seconds. -/
lemma lt_of_year_lt {now : ℕ} (hyear : (localDate now).year < 10000) :
    now + 28800 < 2 ^ 64 := by
  have hday := (localDate now).dayNumber_lt_yearStart
  have hmono : yearStart ((localDate now).year + 1) ≤ yearStart 10000 :=
    Gregorian.yearStart_mono hyear
  have hstart := Gregorian.yearStart_eq 10000
  rw [localDate, Gregorian.dayNumber_after, ← localDate, localDay] at hday
  omega

/-- **The conversion ends with the date**: with enough fuel the result is year, month and day of the
date, and there is no other result.

**Proof sketch.** The loop over the years ends (`exists_years`), and wherever it ends the day has
been kept and what remains is less than a year (`years_spec`), so that the loop over the months
finds a month (`monthLoop_spec`). A date is determined by its number, and these three numbers make a
date with the number of the day. -/
lemma todayYmd_spec {now : ℕ} (hyear : (localDate now).year < 10000) :
    (∃ fuel out, todayYmd fuel now = some out) ∧
      ∀ fuel y m d, todayYmd fuel now = some (y, m, d) →
        m < 12 ∧ (localDate now).year = y ∧ (localDate now).month = m + 1 ∧
          (localDate now).day = d := by
  have hts : (now + 8 * 3600) % 2 ^ 64 / 86400 = localDay now := by
    rw [Nat.mod_eq_of_lt (lt_of_year_lt hyear), localDay]
  constructor
  · obtain ⟨fuel, ⟨y, remaining⟩, hrun⟩ := exists_years 1970 (localDay now)
    have hout : (todayYmd fuel now).isSome := by
      simp only [todayYmd, hts, hrun, Option.bind_eq_bind, Option.bind_some]
      rfl
    exact ⟨fuel, Option.isSome_iff_exists.mp hout⟩
  · intro fuel y m d hout
    simp only [todayYmd, hts, Option.bind_eq_bind, Option.bind_eq_some_iff, Option.some.injEq,
      Prod.exists, Prod.mk.injEq] at hout
    obtain ⟨y', remaining, hrun, rfl, rfl, rfl⟩ := hout
    obtain ⟨hday, hrest⟩ := years_spec hrun
    have hyear : monthStart y' (0 + 1) + remaining < monthStart y' (0 + 1 + 12) := by
      rwa [Gregorian.monthStart_one, Nat.zero_add, Gregorian.monthStart_thirteen]
    have hmonth := monthLoop_spec y' hyear
    rw [← monthDays_eq, Gregorian.monthStart_one] at hmonth
    obtain ⟨hindex, hwithin, hsum⟩ := hmonth
    have hdate : (⟨y', (monthLoop (monthDays y') 0 remaining).1 + 1,
        (monthLoop (monthDays y') 0 remaining).2 + 1, by omega, by omega, by omega, hwithin⟩ :
          Gregorian.Date) = localDate now := by
      rw [localDate, Gregorian.eq_after_iff]
      simp only [Gregorian.Date.dayNumber]
      omega
    rw [← hdate]
    exact ⟨hindex, rfl, rfl, rfl⟩

/-- The number that is reported, a `u32`, is the one of the date.

**Proof sketch.** Up to the year 9999 the digits of a date are below `2 ^ 32`, so that nothing wraps
around, and `todayYmd_spec` gives the three numbers they are made of. -/
lemma todayYyyymmdd_spec {now : ℕ} (hyear : (localDate now).year < 10000) :
    (∃ fuel, todayYyyymmdd fuel now = some (localDate now).digits) ∧
      ∀ fuel v, todayYyyymmdd fuel now = some v → v = (localDate now).digits := by
  have hdigits : (localDate now).digits < 2 ^ 32 := by
    have hmonth := (localDate now).month_le
    have hday := (localDate now).day_lt
    unfold Gregorian.Date.digits
    omega
  obtain ⟨⟨fuel, out, hout⟩, hspec⟩ := todayYmd_spec hyear
  have hvalue : ∀ fuel v, todayYyyymmdd fuel now = some v → v = (localDate now).digits := by
    intro fuel v hv
    obtain ⟨⟨y, m, d⟩, hymd, rfl⟩ := Option.map_eq_some_iff.mp hv
    obtain ⟨-, hy, hm, hd⟩ := hspec fuel y m d hymd
    rw [← Nat.mod_eq_of_lt hdigits, Gregorian.Date.digits, hy, hm, hd]
  refine ⟨⟨fuel, ?_⟩, hvalue⟩
  obtain ⟨v, hv⟩ : ∃ v, todayYyyymmdd fuel now = some v := ⟨_, congrArg _ hout⟩
  rw [hv, hvalue fuel v hv]

/-- **The date of the day**: as long as the year has four digits, the loop over the years ends, the
index of the month is below 12, and the number that is reported is the one of the Gregorian date of
the day in UTC+8. So a later day has a greater number.

**Proof sketch.** The loop over the years keeps the sum of the days before the year and the days
that remain, the loop over the months the sum of the days before the month and the days that remain.
Both stop with fewer days than the year or the month has, and a date is determined by its number of
days. -/
theorem today_is_localDate {now : ℕ} (hyear : (localDate now).year < 10000) :
    (∃ fuel y m d, todayYmd fuel now = some (y, m, d) ∧ m < 12 ∧
      todayYyyymmdd fuel now = some (y * 10000 + (m + 1) * 100 + d) ∧
      (localDate now).year = y ∧ (localDate now).month = m + 1 ∧ (localDate now).day = d) ∧
    ∀ now' fuel fuel' v v', (localDate now').year < 10000 → localDay now < localDay now' →
      todayYyyymmdd fuel now = some v → todayYyyymmdd fuel' now' = some v' → v < v' := by
  constructor
  · obtain ⟨⟨fuel, ⟨y, m, d⟩, hout⟩, hspec⟩ := todayYmd_spec hyear
    obtain ⟨hindex, hy, hm, hd⟩ := hspec fuel y m d hout
    obtain ⟨v, hv⟩ : ∃ v, todayYyyymmdd fuel now = some v := ⟨_, congrArg _ hout⟩
    refine ⟨fuel, y, m, d, hout, hindex, ?_, hy, hm, hd⟩
    rw [hv, (todayYyyymmdd_spec hyear).2 fuel v hv, Gregorian.Date.digits, hy, hm, hd]
  · intro now' fuel fuel' v v' hyear' hlater hv hv'
    rw [(todayYyyymmdd_spec hyear).2 fuel v hv, (todayYyyymmdd_spec hyear').2 fuel' v' hv']
    exact Gregorian.digits_after_lt_iff.mpr hlater

/-- The 29th of February 2024. -/
def leapDay : Gregorian.Date where
  year := 2024
  month := 2
  day := 29
  month_pos := by decide
  month_le := by decide
  day_pos := by decide
  day_le := by decide

/-- It is 19782 days after the first of January 1970. -/
lemma after_leapDay : Gregorian.after 19782 = leapDay := by
  refine (Gregorian.eq_after_iff.mpr ?_).symm
  have hyear := Gregorian.yearStart_eq 2024
  have hmonth : Gregorian.monthStart 2024 2 = 31 := by decide
  rw [Gregorian.yearStart_1970, Gregorian.Date.dayNumber]
  simp only [leapDay, hmonth]
  omega

/-- Eight in the morning of a leap day in UTC+8, and a day later. -/
theorem today_on_leap_day :
    (∃ fuel, todayYyyymmdd fuel 1709164800 = some 20240229) ∧
      ∀ fuel v, todayYyyymmdd fuel 1709251200 = some v → 20240229 < v := by
  have hday : localDate 1709164800 = leapDay := after_leapDay
  have hnext : localDate 1709251200 = leapDay.next :=
    (Gregorian.after_succ 19782).trans (congrArg Gregorian.Date.next after_leapDay)
  have hyear : (localDate 1709164800).year < 10000 := by
    rw [hday]
    decide
  obtain ⟨⟨fuel, y, m, d, -, -, hout, hy, hm, hd⟩, hlater⟩ := today_is_localDate hyear
  rw [hday] at hy hm hd
  rw [← hy, ← hm, ← hd] at hout
  refine ⟨⟨fuel, hout⟩, fun fuel' v hv => ?_⟩
  exact hlater 1709251200 fuel fuel' _ v (by rw [hnext]; decide) (by decide) hout hv

/-! ## The phase -/

/-- The phase is the one of UTC+8, whose date is the one that is reported. -/
def FollowsBeijing (now : ℕ) : Prop :=
  detectTradingPhase now = localPhase now ∧
    ((localDate now).year < 10000 → ∃ fuel, todayYyyymmdd fuel now = some (localDate now).digits)

/-- In UTC the day begins at eight in the morning of UTC+8. -/
lemma utc_of_localSecond (now : ℕ) :
    8 * 3600 ≤ localSecond now ∧ now / 86400 = localDay now ∧
        now % 86400 = localSecond now - 8 * 3600 ∨
      localSecond now < 8 * 3600 ∧ now / 86400 + 1 = localDay now ∧
        now % 86400 = localSecond now + 16 * 3600 := by
  unfold localSecond localDay
  omega

/-- **The phase is right** except before eight in the morning of a Saturday, when it is still the
one of Friday, and before eight in the morning of a Monday, when it is still the one of Sunday.

**Proof sketch.** From eight on the days of the two clocks agree, and the bounds of the trading time
are moved by eight hours. Before eight there is no trading on either clock, and the day of the week
is the one before. -/
theorem followsBeijing_iff (now : ℕ) : FollowsBeijing now ↔
    ((localDate now).weekday = 6 ∨ (localDate now).weekday = 1 → 8 * 3600 ≤ localSecond now) := by
  have hdate : ((localDate now).year < 10000 →
      ∃ fuel, todayYyyymmdd fuel now = some (localDate now).digits) :=
    fun hyear => (todayYyyymmdd_spec hyear).1
  rw [FollowsBeijing, and_iff_left hdate]
  simp only [detectTradingPhase, localPhase, localDate, Gregorian.weekday_after]
  rcases utc_of_localSecond now with ⟨hsecond, hday, hrest⟩ | ⟨hsecond, hday, hrest⟩
  · have hphase : (5400 ≤ now % 86400 ∧ now % 86400 ≤ 25200) ↔
        9 * 3600 + 30 * 60 ≤ localSecond now ∧ localSecond now ≤ 15 * 3600 := by omega
    simp only [hday, hphase, or_comm, hsecond, implies_true]
  · have hclosed : ¬(5400 ≤ now % 86400 ∧ now % 86400 ≤ 25200) := by omega
    have hclosed' : ¬(9 * 3600 + 30 * 60 ≤ localSecond now ∧ localSecond now ≤ 15 * 3600) := by
      omega
    rw [if_neg hclosed, if_neg hclosed', ← hday]
    split_ifs <;> simp only [true_iff, false_iff] <;> omega

/-- At midnight from Friday 2024-01-05 to Saturday the phase is the one of a working day. -/
theorem phase_behind : ¬ FollowsBeijing 1704470400 := by
  rintro ⟨hphase, -⟩
  rw [localPhase, localDate, Gregorian.weekday_after] at hphase
  revert hphase
  decide

end Tdxrs
