import Mathlib.Algebra.BigOperators.Intervals
import Mathlib.Algebra.Order.BigOperators.Group.Finset
import Mathlib.Tactic.Ring

set_option relaxedAutoImplicit false
set_option autoImplicit false

/-!
# The Gregorian calendar

The dates of the Gregorian calendar, extended to all years from 0 on, and the day that follows on
each. A date is numbered by the days from the beginning of the year 0, so that the next date has the
next number, and dates are in the order of their numbers.

## Main definitions

* `Gregorian.Date`, `Gregorian.Date.next` — a date, and the date of the next day.
* `Gregorian.after` — the date a number of days after 1970-01-01.
* `Gregorian.Date.dayNumber` — the days before a date from the beginning of the year 0.
* `Gregorian.Date.weekday` — the day of the week, from Sunday on.
* `Gregorian.Date.digits` — a date as the number `YYYYMMDD`.

## Main results

* `Gregorian.Date.dayNumber_next`, `Gregorian.dayNumber_after` — days are counted one by one.
* `Gregorian.Date.digits_lt_iff` — dates are in the order of their numbers.
* `Gregorian.yearStart_eq` — the days before a year.
* `Gregorian.weekday_after` — the day of the week after a number of days.
-/

namespace Gregorian

/-! ## Years and months -/

/-- The years with 366 days. -/
def IsLeap (year : ℕ) : Prop := 4 ∣ year ∧ (100 ∣ year → 400 ∣ year)

instance (year : ℕ) : Decidable (IsLeap year) := inferInstanceAs (Decidable (_ ∧ _))

/-- The days of a year. -/
def daysInYear (year : ℕ) : ℕ := if IsLeap year then 366 else 365

/-- The days of a month, the months counted from 1 on. -/
def daysInMonth (year : ℕ) : ℕ → ℕ
  | 2 => if IsLeap year then 29 else 28
  | 4 | 6 | 9 | 11 => 30
  | _ => 31

/-- The days before a year. -/
def yearStart (year : ℕ) : ℕ := ∑ y ∈ Finset.range year, daysInYear y

/-- The days of a year before a month. -/
def monthStart (year month : ℕ) : ℕ := ∑ m ∈ Finset.Ico 1 month, daysInMonth year m

lemma daysInMonth_pos (year month : ℕ) : 0 < daysInMonth year month := by
  unfold daysInMonth
  split
  · split <;> decide
  all_goals decide

lemma daysInMonth_le (year month : ℕ) : daysInMonth year month ≤ 31 := by
  unfold daysInMonth
  split
  · split <;> decide
  all_goals decide

lemma yearStart_succ (year : ℕ) : yearStart (year + 1) = yearStart year + daysInYear year := by
  rw [yearStart, Finset.sum_range_succ, ← yearStart]

lemma yearStart_mono {year year' : ℕ} (h : year ≤ year') : yearStart year ≤ yearStart year' :=
  Finset.sum_le_sum_of_subset (Finset.range_subset_range.mpr h)

lemma monthStart_succ (year : ℕ) {month : ℕ} (h : 1 ≤ month) :
    monthStart year (month + 1) = monthStart year month + daysInMonth year month := by
  rw [monthStart, Finset.sum_Ico_succ_top h, ← monthStart]

@[simp] lemma monthStart_one (year : ℕ) : monthStart year 1 = 0 := by
  rw [monthStart, Finset.Ico_self, Finset.sum_empty]

lemma monthStart_mono (year : ℕ) {month month' : ℕ} (h : month ≤ month') :
    monthStart year month ≤ monthStart year month' :=
  Finset.sum_le_sum_of_subset (Finset.Ico_subset_Ico_right h)

/-- Twelve months are a year. -/
lemma monthStart_thirteen (year : ℕ) : monthStart year 13 = daysInYear year := by
  by_cases h : IsLeap year <;>
    simp [monthStart, Finset.sum_Ico_succ_top, daysInMonth, daysInYear, h]

/-- How many of the numbers before the next are multiples of `n`. -/
lemma multiples_succ (year : ℕ) {n : ℕ} (hn : 0 < n) :
    (year + 1 + (n - 1)) / n = (year + (n - 1)) / n + if n ∣ year then 1 else 0 := by
  rw [Nat.add_right_comm, Nat.succ_div, Nat.add_assoc, Nat.sub_add_cancel hn]
  simp only [Nat.dvd_add_self_right]

/-- The days before a year, in closed form.

**Proof sketch.** Induction on the year. The days of a year are `365`, and one more for each of the
cycles of 4 and 400 years that begins with it, and one fewer for a cycle of 100; `multiples_succ`
says the same of the three quotients. -/
theorem yearStart_eq (year : ℕ) :
    yearStart year + (year + 99) / 100 = 365 * year + (year + 3) / 4 + (year + 399) / 400 := by
  induction year with
  | zero => rfl
  | succ year ih =>
    have hdays : daysInYear year + (if 100 ∣ year then 1 else 0) =
        365 + (if 4 ∣ year then 1 else 0) + if 400 ∣ year then 1 else 0 := by
      have h4 : 100 ∣ year → 4 ∣ year := Nat.dvd_trans (by decide)
      have h100 : 400 ∣ year → 100 ∣ year := Nat.dvd_trans (by decide)
      by_cases hcycle : 400 ∣ year
      · simp [daysInYear, IsLeap, hcycle, h100 hcycle, h4 (h100 hcycle)]
      · by_cases hcentury : 100 ∣ year
        · simp [daysInYear, IsLeap, hcycle, hcentury, h4 hcentury]
        · by_cases hquarter : 4 ∣ year <;>
            simp [daysInYear, IsLeap, hcycle, hcentury, hquarter]
    have hquarters := multiples_succ year (by decide : 0 < 4)
    have hcenturies := multiples_succ year (by decide : 0 < 100)
    have hcycles := multiples_succ year (by decide : 0 < 400)
    rw [yearStart_succ]
    omega

/-! ## Dates -/

/-- A date. -/
@[ext]
structure Date where
  /-- The year, from 0 on. -/
  year : ℕ
  /-- The month, from 1 to 12. -/
  month : ℕ
  /-- The day of the month, from 1 on. -/
  day : ℕ
  month_pos : 1 ≤ month
  month_le : month ≤ 12
  day_pos : 1 ≤ day
  day_le : day ≤ daysInMonth year month
deriving DecidableEq

namespace Date

/-- The date of the next day. -/
def next (date : Date) : Date :=
  if hday : date.day < daysInMonth date.year date.month then
    { date with day := date.day + 1, day_pos := by omega, day_le := hday }
  else if hmonth : date.month < 12 then
    { date with
      month := date.month + 1
      day := 1
      month_pos := by omega
      month_le := hmonth
      day_pos := le_rfl
      day_le := daysInMonth_pos _ _ }
  else
    { year := date.year + 1
      month := 1
      day := 1
      month_pos := le_rfl
      month_le := by omega
      day_pos := le_rfl
      day_le := daysInMonth_pos _ _ }

/-- The days before a date from the beginning of the year 0. -/
def dayNumber (date : Date) : ℕ :=
  yearStart date.year + monthStart date.year date.month + (date.day - 1)

/-- The day of the week, from Sunday on. The first day of the year 0 is a Saturday. -/
def weekday (date : Date) : ℕ := (date.dayNumber + 6) % 7

/-- A date as the number `YYYYMMDD`. -/
def digits (date : Date) : ℕ := date.year * 10000 + date.month * 100 + date.day

/-- The next date has the next number.

**Proof sketch.** The three branches of `next`: within a month only the day grows; after the last
day of a month the next month starts; after the last day of the twelfth month the next year starts,
and `monthStart_thirteen` says that the months fill the year. -/
theorem dayNumber_next (date : Date) : date.next.dayNumber = date.dayNumber + 1 := by
  have hsucc := monthStart_succ date.year date.month_pos
  have hpos := date.day_pos
  have hle := date.day_le
  unfold next
  split_ifs with hday hmonth
  · simp only [dayNumber]
    omega
  · simp only [dayNumber]
    omega
  · -- the last day of the year
    have hlast : date.month = 12 := by
      have := date.month_le
      omega
    have hyear : daysInYear date.year = monthStart date.year 12 + daysInMonth date.year 12 :=
      (monthStart_thirteen _).symm.trans (monthStart_succ _ (by decide))
    have hfull : date.day = daysInMonth date.year 12 := by
      rw [← hlast]
      omega
    simp only [dayNumber, yearStart_succ, monthStart_one, hlast]
    omega

lemma monthStart_add_day_le (date : Date) :
    monthStart date.year date.month + date.day ≤ monthStart date.year (date.month + 1) := by
  rw [monthStart_succ _ date.month_pos]
  exact Nat.add_le_add_left date.day_le _

lemma yearStart_le_dayNumber (date : Date) : yearStart date.year ≤ date.dayNumber := by
  unfold dayNumber
  omega

lemma dayNumber_lt_yearStart (date : Date) : date.dayNumber < yearStart (date.year + 1) := by
  have hday := date.monthStart_add_day_le
  have hyear := monthStart_mono date.year (Nat.add_le_add_right date.month_le 1)
  have hpos := date.day_pos
  rw [monthStart_thirteen] at hyear
  rw [yearStart_succ]
  unfold dayNumber
  omega

lemma day_lt (date : Date) : date.day < 100 :=
  (date.day_le.trans (daysInMonth_le _ _)).trans_lt (by decide)

lemma digits_injective : Function.Injective digits := by
  intro a b h
  have ha := a.day_lt
  have hb := b.day_lt
  have ha' := a.month_le
  have hb' := b.month_le
  unfold digits at h
  ext <;> omega

/-- A later date has a greater number.

**Proof sketch.** The digits compare first the years, then the months, then the days. A smaller year
ends before the later one starts, a smaller month of one year ends before the later one starts
(`monthStart_mono`), and within a month the day decides. -/
lemma dayNumber_lt_of_digits_lt {a b : Date} (h : a.digits < b.digits) :
    a.dayNumber < b.dayNumber := by
  have hday := a.day_lt
  have hday' := b.day_lt
  have hmonth := a.month_le
  have hmonth' := b.month_le
  unfold digits at h
  rcases Nat.lt_trichotomy a.year b.year with hlt | heq | hgt
  · calc a.dayNumber < yearStart (a.year + 1) := a.dayNumber_lt_yearStart
      _ ≤ yearStart b.year := yearStart_mono hlt
      _ ≤ b.dayNumber := b.yearStart_le_dayNumber
  · have hpos := a.day_pos
    have hlast := a.monthStart_add_day_le
    unfold dayNumber
    rw [heq] at hlast ⊢
    rcases Nat.lt_trichotomy a.month b.month with hlt' | heq' | hgt'
    · have hstart : monthStart b.year (a.month + 1) ≤ monthStart b.year b.month :=
        monthStart_mono _ hlt'
      omega
    · rw [heq']
      omega
    · omega
  · omega

/-- **Dates are in the order of their numbers.** -/
theorem digits_lt_iff {a b : Date} : a.digits < b.digits ↔ a.dayNumber < b.dayNumber := by
  refine ⟨dayNumber_lt_of_digits_lt, fun h => ?_⟩
  rcases Nat.lt_trichotomy a.digits b.digits with hlt | heq | hgt
  · exact hlt
  · exact absurd (congrArg dayNumber (digits_injective heq)) h.ne
  · exact absurd (dayNumber_lt_of_digits_lt hgt) h.asymm

lemma dayNumber_injective : Function.Injective dayNumber := by
  intro a b h
  refine digits_injective (Nat.le_antisymm ?_ ?_) <;> rw [← not_lt, digits_lt_iff] <;> omega

end Date

/-! ## Days after 1970-01-01 -/

/-- The first of January 1970. -/
def epoch : Date where
  year := 1970
  month := 1
  day := 1
  month_pos := le_rfl
  month_le := by decide
  day_pos := le_rfl
  day_le := daysInMonth_pos _ _

/-- The date a number of days after 1970-01-01. -/
def after (days : ℕ) : Date := Date.next^[days] epoch

lemma after_succ (days : ℕ) : after (days + 1) = (after days).next :=
  Function.iterate_succ_apply' _ _ _

/-- The days before 1970. -/
lemma yearStart_1970 : yearStart 1970 = 719528 := by
  have := yearStart_eq 1970
  omega

/-- Days are counted one by one. -/
theorem dayNumber_after (days : ℕ) : (after days).dayNumber = yearStart 1970 + days := by
  induction days with
  | zero => simp [after, Date.dayNumber, epoch]
  | succ days ih => rw [after_succ, Date.dayNumber_next, ih, Nat.add_assoc]

/-- A date is the one after the days that its number says. -/
theorem eq_after_iff {date : Date} {days : ℕ} :
    date = after days ↔ date.dayNumber = yearStart 1970 + days := by
  rw [← dayNumber_after, Date.dayNumber_injective.eq_iff]

/-- Later days have greater dates. -/
theorem digits_after_lt_iff {days days' : ℕ} :
    (after days).digits < (after days').digits ↔ days < days' := by
  rw [Date.digits_lt_iff, dayNumber_after, dayNumber_after, Nat.add_lt_add_iff_left]

/-- The day of the week after a number of days: 1970-01-01 was a Thursday. -/
theorem weekday_after (days : ℕ) : (after days).weekday = (days + 4) % 7 := by
  rw [Date.weekday, dayNumber_after, yearStart_1970]
  omega

end Gregorian
