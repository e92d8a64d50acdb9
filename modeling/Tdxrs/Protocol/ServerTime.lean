import Tdxrs.Protocol.Quotes

set_option relaxedAutoImplicit false
set_option autoImplicit false

/-!
# The server time

`format_servertime` of `src/protocol/parsers.rs` cuts the decimal text of a number before its last
six digits, reads the two and the four digits behind the cut, and writes hours, minutes and seconds.
The seconds are a number with three decimal places, which are exact where the minutes are in range,
and are rounded where the six digits are a fraction of an hour. The text is the one that
`formatServertime` finds with the digits as numbers.

## Main definitions

* `Tdxrs.formatServertimeText` — the function on the text of the number.

## Main results

* `Tdxrs.formatServertimeText_eq` — the text is the one of the number.
* `Tdxrs.timeText_lt_iff` — texts of times are in the order of the times.
* `Tdxrs.formatServertimeText_spec` — form and order of the texts.
-/

namespace Tdxrs

/-- The text of seconds: `{:06.3}`. -/
def secondsText (secs : ℚ) : Text := (Decimal.fixed 3 secs).leftpad 6 '0'

/-- `format_servertime` on the text of the number. -/
def formatServertimeText (ts : ℕ) : Text :=
  let s := Nat.toDigits 10 ts
  if s.length < 7 then s
  else
    let (hh, rest) := s.splitAt (s.length - 6)
    if 2 < hh.length then s
    else
      -- the last six digits as a fraction of an hour
      let fraction :=
        match Decimal.parse rest with
        | some whole =>
          let mins := whole * 60 / 1000000
          let secs : ℚ := (whole * 60 % 1000000 : ℕ) * 60 / 1000000
          hh.leftpad 2 '0' ++ ':' :: Decimal.pad 2 mins ++ ':' :: secondsText secs
        | none => s
      match Decimal.parse (rest.take 2), Decimal.parse (rest.drop 2) with
      | some mm, some tail =>
        if mm < 60 then
          hh.leftpad 2 '0' ++ ':' :: Decimal.pad 2 mm ++ ':' ::
            secondsText ((tail : ℕ) * 60 / 10000)
        else fraction
      | _, _ => fraction

/-! ## The text by the digits as numbers -/

lemma secondsText_eq {secs : ℚ} {n : ℕ} (hsecs : 0 ≤ secs)
    (hround : Decimal.roundHalfEven (secs * 10 ^ 3) = n) :
    secondsText secs = Decimal.pad 2 (n / 1000) ++ '.' :: Decimal.pad 3 (n % 1000) :=
  Decimal.leftpad_fixed hsecs hround (by decide)

/-- Four digits of a fraction of a minute are seconds with three decimal places. -/
lemma secondsText_minute (tail : ℕ) : secondsText ((tail : ℕ) * 60 / 10000) =
    Decimal.pad 2 (tail * 6 / 1000) ++ '.' :: Decimal.pad 3 (tail * 6 % 1000) := by
  refine secondsText_eq (by positivity) ?_
  have hexact : (tail * 60 / 10000 * 10 ^ 3 : ℚ) = (tail * 6 : ℕ) := by
    push_cast
    ring
  rw [hexact, Decimal.roundHalfEven_natCast]

/-- What remains of a fraction of an hour, 20 times a number, is never half between two thousandths
of a second. -/
lemma secondsText_hour (whole : ℕ) :
    secondsText ((whole * 60 % 1000000 : ℕ) * 60 / 1000000) =
      Decimal.pad 2 ((whole * 60 % 10 ^ 6 * 6 + 50) / 100 / 1000) ++
        '.' :: Decimal.pad 3 ((whole * 60 % 10 ^ 6 * 6 + 50) / 100 % 1000) := by
  refine secondsText_eq (by positivity) ?_
  have hfraction : ((whole * 60 % 1000000 : ℕ) * 60 / 1000000 * 10 ^ 3 : ℚ) =
      (whole * 60 % 1000000 * 6 : ℕ) / (100 : ℕ) := by
    push_cast
    ring
  rw [hfraction, Decimal.roundHalfEven_div (by decide) (by omega)]
  congr 1
  omega

/-- A number of at least seven digits, cut before the last six. -/
lemma splitAt_toDigits {ts : ℕ} (h : 10 ^ 6 ≤ ts) :
    (Nat.toDigits 10 ts).splitAt ((Nat.toDigits 10 ts).length - 6) =
      (Nat.toDigits 10 (ts / 10 ^ 6), Decimal.pad 6 (ts % 10 ^ 6)) := by
  have hlen : (Decimal.pad 6 (ts % 10 ^ 6)).length = 6 :=
    Decimal.length_pad (by decide) (Nat.mod_lt _ (by decide))
  rw [Decimal.toDigits_eq_append (by decide) h, List.splitAt_eq, List.length_append, hlen,
    Nat.add_sub_cancel, List.take_left, List.drop_left]

/-- Six digits are two and four. -/
lemma pad_six {n : ℕ} (h : n < 10 ^ 6) :
    Decimal.pad 6 n = Decimal.pad 2 (n / 10 ^ 4) ++ Decimal.pad 4 (n % 10 ^ 4) := by
  rw [← Decimal.pad_add (by decide) (by decide) (by omega) (Nat.mod_lt _ (by decide)),
    Nat.div_add_mod']

/-- **The text is the one of the number**: the digits in the text, as numbers, are the quotients and
remainders of the number.

**Proof sketch.** The lengths that the code looks at are bounds on the number
(`Nat.length_toDigits_le_iff`), so both take the same branch. In the long form the text is cut
before its last six digits, which are the hundredths of seconds and what is above them
(`splitAt_toDigits`), and the two digits in front of these are the quotient by `10 ^ 4`
(`pad_six`). -/
theorem formatServertimeText_eq (ts : ℕ) : formatServertimeText ts = formatServertime ts := by
  have hlen (n k : ℕ) (hk : 0 < k) : (Nat.toDigits 10 n).length ≤ k ↔ n < 10 ^ k :=
    Nat.length_toDigits_le_iff (by decide) hk
  rw [formatServertimeText, formatServertime]
  by_cases hshort : ts < 10 ^ 6
  · rw [if_pos (Nat.lt_succ_of_le ((hlen ts 6 (by decide)).mpr hshort)), if_pos hshort]
  · have hlong : ¬(Nat.toDigits 10 ts).length < 7 := fun h =>
      hshort ((hlen ts 6 (by decide)).mp (Nat.le_of_lt_succ h))
    rw [if_neg hlong, if_neg hshort, splitAt_toDigits (not_lt.mp hshort)]
    dsimp only
    by_cases hhours : 100 ≤ ts / 10 ^ 6
    · have hwide : 2 < (Nat.toDigits 10 (ts / 10 ^ 6)).length :=
        not_le.mp fun h => absurd ((hlen _ 2 (by decide)).mp h) (not_lt.mpr hhours)
      rw [if_pos hwide, if_pos hhours]
    · have hnarrow : ¬ 2 < (Nat.toDigits 10 (ts / 10 ^ 6)).length :=
        not_lt.mpr ((hlen _ 2 (by decide)).mpr (not_le.mp hhours))
      have hrest : ts % 10 ^ 6 < 10 ^ 6 := Nat.mod_lt _ (by decide)
      have htwo : (Decimal.pad 2 (ts % 10 ^ 6 / 10 ^ 4)).length = 2 :=
        Decimal.length_pad (by decide) (by omega)
      have hminutes : (Decimal.pad 6 (ts % 10 ^ 6)).take 2 =
          Decimal.pad 2 (ts % 10 ^ 6 / 10 ^ 4) := by
        rw [pad_six hrest, List.take_left' htwo]
      have htail : (Decimal.pad 6 (ts % 10 ^ 6)).drop 2 =
          Decimal.pad 4 (ts % 10 ^ 6 % 10 ^ 4) := by
        rw [pad_six hrest, List.drop_left' htwo]
      rw [if_neg hnarrow, if_neg hhours, hminutes, htail]
      simp only [Decimal.parse_pad, secondsText_minute, secondsText_hour, timeText,
        ← Decimal.pad.eq_def, List.append_assoc, List.cons_append]
      rfl

/-! ## Width and order of the texts -/

/-- The width of the text of a time. -/
lemma length_timeText {h m n : ℕ} (hh : h < 100) (hm : m < 100) (hn : n < 10 ^ 5) :
    (timeText h m n).length = 12 := by
  have hmod : n % 1000 < 10 ^ 3 := Nat.mod_lt _ (by decide)
  simp only [timeText, List.length_append, List.length_cons,
    Decimal.length_pad (by decide : 0 < 2) hh, Decimal.length_pad (by decide : 0 < 2) hm,
    Decimal.length_pad (by decide : 0 < 2) (by omega : n / 1000 < 10 ^ 2),
    Decimal.length_pad (by decide : 0 < 3) hmod]

/-- **Texts of times are in the order of the times.** -/
theorem timeText_lt_iff {h h' m m' n n' : ℕ} (hh : h < 100) (hh' : h' < 100) (hm : m < 100)
    (hm' : m' < 100) (hn : n < 10 ^ 5) (hn' : n' < 10 ^ 5) :
    timeText h m n < timeText h' m' n' ↔ h < h' ∨ h = h' ∧ (m < m' ∨ m = m' ∧ n < n') := by
  simp only [timeText, List.append_assoc, List.cons_append]
  rw [Decimal.pad_append_lt_iff (by decide) hh hh',
    Decimal.pad_append_lt_iff (by decide) hm hm',
    Decimal.pad_append_lt_iff (by decide) (by omega) (by omega),
    Decimal.pad_lt_pad_iff (by decide) (by omega) (by omega)]
  omega

/-- How many digits a number has, by its size. -/
lemma length_toDigits_bounds (ts : ℕ) :
    ((Nat.toDigits 10 ts).length < 7 ↔ ts < 10 ^ 6) ∧
      ((Nat.toDigits 10 ts).length ≤ 8 ↔ ts < 10 ^ 8) :=
  ⟨Nat.lt_succ_iff.trans (Nat.length_toDigits_le_iff (by decide) (by decide)),
    Nat.length_toDigits_le_iff (by decide) (by decide)⟩

/-- A number of seven or eight digits is written as a time. -/
lemma exists_timeText {ts : ℕ} (hle : 10 ^ 6 ≤ ts) (hlt : ts < 10 ^ 8) :
    ∃ mm thousandths, mm < 60 ∧ thousandths < 60 * 1000 ∧
      formatServertime ts = timeText (ts / 10 ^ 6) mm thousandths := by
  rw [formatServertime, if_neg (not_lt.mpr hle), if_neg (by omega)]
  split
  · rename_i hminutes
    exact ⟨_, _, hminutes, by omega, rfl⟩
  · -- what remains is less than a million and a multiple of 20
    exact ⟨_, _, by omega, by omega, rfl⟩

/-- A number whose minute digits are in range is written by its digits. -/
lemma formatServertime_of_minutes {ts : ℕ} (hle : 10 ^ 6 ≤ ts) (hlt : ts < 10 ^ 8)
    (hminutes : ts / 10 ^ 4 % 100 < 60) :
    formatServertime ts = timeText (ts / 10 ^ 6) (ts / 10 ^ 4 % 100) (ts % 10 ^ 4 * 6) := by
  have hdigits : ts % 10 ^ 6 / 10 ^ 4 = ts / 10 ^ 4 % 100 := by omega
  have htail : ts % 10 ^ 6 % 10 ^ 4 = ts % 10 ^ 4 := by omega
  rw [formatServertime, if_neg (not_lt.mpr hle), if_neg (by omega), hdigits, htail,
    if_pos hminutes]

/-- **The server time**: a number of less than seven or more than eight digits is written as it is.
The others are written as a time of twelve characters, whose hour is the number without its last
six digits, and whose minutes and seconds are below 60; where the minute digits are in range, the
texts are in the order of the numbers.

**Proof sketch.** The seconds of a fraction of an hour are a multiple of 1.2 thousandths, at most
59.9988, so that they are not rounded up to 60. With the minute digits in range the thousandths are
six times the last four digits, so that texts are compared as the digits are. -/
theorem formatServertimeText_spec (ts : ℕ) :
    ((Nat.toDigits 10 ts).length < 7 ∨ 8 < (Nat.toDigits 10 ts).length →
      formatServertimeText ts = Nat.toDigits 10 ts) ∧
    (7 ≤ (Nat.toDigits 10 ts).length ∧ (Nat.toDigits 10 ts).length ≤ 8 →
      (formatServertimeText ts).length = 12 ∧
      ∃ mm ss mmm, mm < 60 ∧ ss < 60 ∧ mmm < 1000 ∧
        formatServertimeText ts = Decimal.pad 2 (ts / 10 ^ 6) ++ ':' :: Decimal.pad 2 mm ++
          ':' :: Decimal.pad 2 ss ++ '.' :: Decimal.pad 3 mmm) ∧
    ∀ ts', 7 ≤ (Nat.toDigits 10 ts).length → (Nat.toDigits 10 ts').length ≤ 8 → ts < ts' →
      ts / 10 ^ 4 % 100 < 60 → ts' / 10 ^ 4 % 100 < 60 →
      formatServertimeText ts < formatServertimeText ts' := by
  obtain ⟨hseven, height⟩ := length_toDigits_bounds ts
  refine ⟨fun hlen => ?_, fun ⟨hge, hle⟩ => ?_, fun ts' hge hle' hlt hminutes hminutes' => ?_⟩
  · rw [formatServertimeText_eq, formatServertime]
    rcases hlen with hlen | hlen
    · rw [if_pos (hseven.mp hlen)]
    · have hlarge : ¬ ts < 10 ^ 8 := height.not.mp (not_le.mpr hlen)
      rw [if_neg (by omega), if_pos (by omega)]
  · have hlarge : 10 ^ 6 ≤ ts := not_lt.mp fun h => absurd (hseven.mpr h) (not_lt.mpr hge)
    have hsmall := height.mp hle
    obtain ⟨mm, thousandths, hmm, hseconds, htext⟩ := exists_timeText hlarge hsmall
    rw [formatServertimeText_eq, htext]
    exact ⟨length_timeText (by omega) (by omega) (by omega), mm, thousandths / 1000,
      thousandths % 1000, hmm, by omega, Nat.mod_lt _ (by decide), rfl⟩
  · have hlarge : 10 ^ 6 ≤ ts := not_lt.mp fun h => absurd (hseven.mpr h) (not_lt.mpr hge)
    have hsmall := (length_toDigits_bounds ts').2.mp hle'
    rw [formatServertimeText_eq, formatServertimeText_eq,
      formatServertime_of_minutes hlarge (hlt.trans hsmall) hminutes,
      formatServertime_of_minutes (hlarge.trans hlt.le) hsmall hminutes',
      timeText_lt_iff (by omega) (by omega) (by omega) (by omega) (by omega) (by omega)]
    omega

end Tdxrs
