import Tdxrs.Downloader.Formats

set_option relaxedAutoImplicit false
set_option autoImplicit false

/-!
# Dates of bars in data files

The bars that a client returns carry a valid date and its text. Texts of dates are compared as
texts, which is the order of the dates, and the number that stands for a date in a record is read
back as the text of the date, up to the year 2052: from 2053 on the numbers pass the limit behind
which they are taken for the layout of the dates before 2004.

## Main definitions

* `Tdxrs.SecurityBar.Dated` — a bar with a valid date and its text.

## Main results

* `Tdxrs.dated_of_parse` — the bars of a response are dated.
* `Tdxrs.SecurityBar.Dated.datePart_lt_iff` — texts of dates are in the order of the dates.
* `Tdxrs.dateInt_inj` — different dates have different numbers.
* `Tdxrs.dateText_dateInt`, `Tdxrs.dateText_dateInt_none`, `Tdxrs.dateText_dateInt_misread` —
  reading the number of a date, by its year.
-/

namespace Tdxrs

/-! ## Texts of dates -/

/-- The width of the text of a date. -/
lemma length_formatDate {year month day : ℕ} (hyear : year < 10000) (hmonth : month < 100)
    (hday : day < 100) : (formatDate year month day).length = 10 := by
  simp [formatDate, Decimal.length_pad (by decide : 0 < 4) hyear,
    Decimal.length_pad (by decide : 0 < 2) hmonth, Decimal.length_pad (by decide : 0 < 2) hday]

/-- The year of a text that begins with a date. -/
lemma take_formatDate {year : ℕ} (hyear : year < 10000) (month day : ℕ) (rest : Text) :
    (formatDate year month day ++ rest).take 4 = Decimal.pad 4 year := by
  have hlen := Decimal.length_pad (by decide : 0 < 4) hyear
  rw [formatDate, List.append_assoc, List.append_assoc, List.take_left' hlen]

/-- The month of a text that begins with a date. -/
lemma take_drop_formatDate {year month : ℕ} (hyear : year < 10000) (hmonth : month < 100)
    (day : ℕ) (rest : Text) :
    ((formatDate year month day ++ rest).drop 5).take 2 = Decimal.pad 2 month := by
  have hlen := Decimal.length_pad (by decide : 0 < 4) hyear
  have hlen' := Decimal.length_pad (by decide : 0 < 2) hmonth
  have hsplit : formatDate year month day ++ rest = (Decimal.pad 4 year ++ ['-']) ++
      (Decimal.pad 2 month ++ ('-' :: Decimal.pad 2 day ++ rest)) := by
    simp [formatDate]
  rw [hsplit, List.drop_left' (by simp [hlen]), List.take_left' hlen']

/-- The day of a text that begins with a date. -/
lemma take_drop_formatDate_day {year month day : ℕ} (hyear : year < 10000) (hmonth : month < 100)
    (hday : day < 100) (rest : Text) :
    ((formatDate year month day ++ rest).drop 8).take 2 = Decimal.pad 2 day := by
  have hlen := Decimal.length_pad (by decide : 0 < 4) hyear
  have hlen' := Decimal.length_pad (by decide : 0 < 2) hmonth
  have hlen'' := Decimal.length_pad (by decide : 0 < 2) hday
  have hsplit : formatDate year month day ++ rest =
      (Decimal.pad 4 year ++ '-' :: (Decimal.pad 2 month ++ ['-'])) ++
        (Decimal.pad 2 day ++ rest) := by
    simp [formatDate]
  rw [hsplit, List.drop_left' (by simp [hlen, hlen']), List.take_left' hlen'']

/-- **Texts of dates are in the order of the dates.** -/
theorem formatDate_lt_iff {y m d y' m' d' : ℕ} (hy : y < 10000) (hm : m < 100) (hd : d < 100)
    (hy' : y' < 10000) (hm' : m' < 100) (hd' : d' < 100) :
    formatDate y m d < formatDate y' m' d' ↔ dateKey y m d < dateKey y' m' d' := by
  simp only [formatDate, List.append_assoc, List.cons_append]
  rw [Decimal.pad_append_lt_iff (by decide) hy hy',
    Decimal.pad_append_lt_iff (by decide) hm hm', Decimal.pad_lt_pad_iff (by decide) hd hd']
  unfold dateKey
  omega

/-! ## Dated bars -/

namespace SecurityBar

/-- A bar of a category as the parser makes them: with a valid date of four digits and its
text. -/
structure Dated (category : UInt8) (b : SecurityBar) : Prop where
  year : 1980 ≤ b.year ∧ b.year < 10000
  month : 1 ≤ b.month ∧ b.month ≤ 12
  day : 1 ≤ b.day ∧ b.day ≤ 31
  datetime : b.datetime = formatDatetime category b.year b.month b.day b.hour b.minute

namespace Dated

variable {category : UInt8} {a b : SecurityBar}

/-- The text of a dated bar begins with its date. -/
lemma exists_datetime_eq (h : b.Dated category) :
    ∃ rest, b.datetime = formatDate b.year b.month b.day ++ rest := by
  rw [h.datetime, formatDatetime]
  split
  · exact ⟨_, List.append_assoc _ _ _⟩
  · exact ⟨[], (List.append_nil _).symm⟩

/-- The first ten characters are the date. -/
lemma datePart_eq (h : b.Dated category) : b.datePart = formatDate b.year b.month b.day := by
  obtain ⟨rest, hrest⟩ := h.exists_datetime_eq
  have hmonth := h.month
  have hday := h.day
  rw [datePart, hrest, List.take_left' (length_formatDate h.year.2 (by omega) (by omega))]

/-- The year is read back. -/
lemma parseInt_year (h : b.Dated category) : parseInt (b.datetime.take 4) = .ok b.year := by
  obtain ⟨rest, hrest⟩ := h.exists_datetime_eq
  rw [hrest, take_formatDate h.year.2, parseInt, Decimal.parse_pad]

/-- The month is read back. -/
lemma parseInt_month (h : b.Dated category) :
    parseInt ((b.datetime.drop 5).take 2) = .ok b.month := by
  obtain ⟨rest, hrest⟩ := h.exists_datetime_eq
  have hmonth := h.month
  rw [hrest, take_drop_formatDate h.year.2 (by omega), parseInt, Decimal.parse_pad]

/-- The day is read back. -/
lemma parseInt_day (h : b.Dated category) :
    parseInt ((b.datetime.drop 8).take 2) = .ok b.day := by
  obtain ⟨rest, hrest⟩ := h.exists_datetime_eq
  have hmonth := h.month
  have hday := h.day
  rw [hrest, take_drop_formatDate_day h.year.2 (by omega) (by omega), parseInt, Decimal.parse_pad]

/-- **The texts of dated bars are in the order of their dates.** -/
theorem datePart_lt_iff (ha : a.Dated category) (hb : b.Dated category) :
    a.datePart < b.datePart ↔ a.dateKey < b.dateKey := by
  have hma := ha.month
  have hmb := hb.month
  have hda := ha.day
  have hdb := hb.day
  rw [ha.datePart_eq, hb.datePart_eq, formatDate_lt_iff ha.year.2 (by omega) (by omega) hb.year.2
    (by omega) (by omega)]
  rfl

/-- The text of a dated bar is not empty, and begins with a digit. -/
lemma exists_datePart_cons (h : b.Dated category) :
    ∃ c rest, c.isDigit ∧ b.datePart = c :: rest := by
  have hlen := Decimal.length_pad (by decide : 0 < 4) h.year.2
  obtain ⟨c, t, hct⟩ := List.exists_cons_of_length_pos (by rw [hlen]; decide)
  refine ⟨c, t ++ '-' :: Decimal.pad 2 b.month ++ '-' :: Decimal.pad 2 b.day, ?_, ?_⟩
  · exact Decimal.isDigit_of_mem_pad (hct ▸ List.mem_cons_self)
  · rw [h.datePart_eq, formatDate, hct]
    rfl

/-- The characters of a date. -/
lemma mem_datePart (h : b.Dated category) {c : Char} (hc : c ∈ b.datePart) :
    c.isDigit ∨ c = '-' := by
  rw [h.datePart_eq, formatDate] at hc
  simp only [List.mem_append, List.mem_cons] at hc
  rcases hc with (hc | rfl | hc) | rfl | hc
  · exact .inl (Decimal.isDigit_of_mem_pad hc)
  · exact .inr rfl
  · exact .inl (Decimal.isDigit_of_mem_pad hc)
  · exact .inr rfl
  · exact .inl (Decimal.isDigit_of_mem_pad hc)

end Dated

end SecurityBar

/-- A record that is parsed has a date that is valid, with its text. -/
lemma dated_of_parseKLine {maxValidYear : ℕ} (hmax : maxValidYear < 10000) {category : UInt8}
    {body : Bytes} {pos : ℕ} {preDiffBase : Int64} {r : SecurityBar × ℕ × Int64}
    (h : parseKLine maxValidYear category body pos preDiffBase = some r) :
    r.1.Dated category := by
  unfold parseKLine at h
  simp only at h
  split at h
  · cases h
  · rename_i hvalid
    obtain rfl := Option.some.inj h
    push Not at hvalid
    exact ⟨⟨hvalid.1, hvalid.2.1.trans_lt hmax⟩, hvalid.2.2.1, hvalid.2.2.2, rfl⟩

/-- **The bars of a response are dated**, in the years of four digits.

**Proof sketch.** Induction on the count of the loop: each bar is one that `parseKLine` has
accepted, and that one is dated (`dated_of_parseKLine`). -/
theorem dated_of_parse {maxValidYear : ℕ} (hmax : maxValidYear < 10000) {category : UInt8}
    {body : Bytes} {bars : List SecurityBar}
    (h : parseSecurityBars maxValidYear category body = .ok bars) :
    ∀ b ∈ bars, b.Dated category := by
  have hloop : ∀ count pos preDiffBase,
      ∀ b ∈ parseSecurityBarsLoop maxValidYear category body count pos preDiffBase,
        b.Dated category := by
    intro count
    induction count with
    | zero => simp [parseSecurityBarsLoop]
    | succ count ih =>
      intro pos preDiffBase b hb
      unfold parseSecurityBarsLoop at hb
      split at hb
      · simp at hb
      · split at hb
        · simp at hb
        · rename_i bar pos' preDiffBase' hbar
          rcases List.mem_cons.mp hb with rfl | hb
          · exact dated_of_parseKLine hmax hbar
          · exact ih _ _ b hb
  unfold parseSecurityBars at h
  split at h
  · cases h
  · obtain rfl := Except.ok.inj h
    exact hloop _ _ _

/-! ## Numbers of dates -/

section DateInt

variable {year month day : ℕ}

/-- The number of a date is not zero and fits 32 bits. -/
lemma dateInt_range (hyear : 1980 ≤ year ∧ year < 10000) (hmonth : 1 ≤ month ∧ month ≤ 12)
    (hday : 1 ≤ day ∧ day ≤ 31) :
    0 < dateInt year month day ∧ dateInt year month day < 2 ^ 32 := by
  unfold dateInt
  split <;> omega

/-- The compact layout of a date, taken apart. -/
lemma compact_split (hyear : 2004 ≤ year) (hmonth : 1 ≤ month ∧ month ≤ 12)
    (hday : 1 ≤ day ∧ day ≤ 31) :
    ((year - 2004) * 2048 + month * 100 + day) / 2048 + 2004 = year ∧
      ((year - 2004) * 2048 + month * 100 + day) % 2048 = month * 100 + day := by
  omega

/-- **Different dates have different numbers.** The numbers of the dates before 2004 are above all
others.

**Proof sketch.** From 2004 on the number is the years since then times 2048 and the month and day,
which are below 2048, so that quotient and remainder give both back (`compact_split`). Before 2004
it is the digits of the date, which are greater than any number of the other kind. -/
theorem dateInt_inj {year' month' day' : ℕ} (hyear : 1980 ≤ year ∧ year < 10000)
    (hmonth : 1 ≤ month ∧ month ≤ 12) (hday : 1 ≤ day ∧ day ≤ 31)
    (hyear' : 1980 ≤ year' ∧ year' < 10000) (hmonth' : 1 ≤ month' ∧ month' ≤ 12)
    (hday' : 1 ≤ day' ∧ day' ≤ 31) (h : dateInt year month day = dateInt year' month' day') :
    dateKey year month day = dateKey year' month' day' := by
  have hold : ¬ 2004 ≤ year → 2004 ≤ year' → False := by
    intro hlt hge
    rw [dateInt, if_neg hlt, dateInt, if_pos hge] at h
    omega
  have hold' : 2004 ≤ year → ¬ 2004 ≤ year' → False := by
    intro hge hlt
    rw [dateInt, if_pos hge, dateInt, if_neg hlt] at h
    omega
  by_cases hge : 2004 ≤ year <;> by_cases hge' : 2004 ≤ year'
  · rw [dateInt, if_pos hge, dateInt, if_pos hge'] at h
    obtain ⟨hdiv, hmod⟩ := compact_split hge hmonth hday
    obtain ⟨hdiv', hmod'⟩ := compact_split hge' hmonth' hday'
    rw [h] at hdiv hmod
    have hyears : year = year' := hdiv.symm.trans hdiv'
    have hdays : month * 100 + day = month' * 100 + day' := hmod.symm.trans hmod'
    rw [dateKey, dateKey, hyears, Nat.add_assoc, hdays, Nat.add_assoc]
  · exact (hold' hge hge').elim
  · exact (hold hge hge').elim
  · rwa [dateInt, if_neg hge, dateInt, if_neg hge'] at h

/-- A number of eight digits is read as `YYYYMMDD`.

**Proof sketch.** A number between `10 ^ 7` and `10 ^ 8` has eight digits, which are the four of the
year, the two of the month and the two of the day (`Decimal.pad_add`); the text takes them apart in
the same places. -/
lemma dateText_of_eight_digits {y m d : ℕ} (hy : 1000 ≤ y ∧ y < 10000) (hm : m < 100)
    (hd : d < 100) : dateText (dateKey y m d) = some (formatDate y m d) := by
  have hkey : 10 ^ 7 ≤ dateKey y m d ∧ dateKey y m d < 10 ^ (7 + 1) := by
    unfold dateKey
    omega
  have hlen := Decimal.length_toDigits_eq (by decide) hkey.1 hkey.2
  have hmd : Decimal.pad (2 + 2) (m * 10 ^ 2 + d) = _ :=
    Decimal.pad_add (by decide) (by decide) hm hd
  have hpad : Decimal.pad (4 + (2 + 2)) (y * 10 ^ 4 + (m * 10 ^ 2 + d)) = _ :=
    Decimal.pad_add (by decide) (by decide) hy.2 (by omega)
  have hdigits : Nat.toDigits 10 (dateKey y m d) =
      Decimal.pad 4 y ++ (Decimal.pad 2 m ++ Decimal.pad 2 d) := by
    rw [← Decimal.pad_eq_toDigits hlen.ge, ← hmd, ← hpad, dateKey, Nat.add_assoc]
    rfl
  have hly := Decimal.length_pad (by decide : 0 < 4) hy.2
  have hlm := Decimal.length_pad (by decide : 0 < 2) hm
  have hld := Decimal.length_pad (by decide : 0 < 2) hd
  have hday : (Decimal.pad 4 y ++ (Decimal.pad 2 m ++ Decimal.pad 2 d)).drop 6 =
      Decimal.pad 2 d := by
    rw [← List.append_assoc, List.drop_left' (by simp [hly, hlm])]
  rw [dateText, if_neg (by omega), if_pos (by omega), if_pos hlen, hdigits, List.take_left' hly,
    List.drop_left' hly, List.take_left' hlm, hday, List.take_of_length_le hld.le, formatDate]

/-- **Up to the year 2052 the number of a date is read back** as the text of the date.

**Proof sketch.** From 2004 on the number is the compact one. Up to 2052 it is small enough to be
taken for one, and dividing it gives back the year, the month and the day. Before 2004 it has eight
digits, which are those of the text. -/
theorem dateText_dateInt (hyear : 1980 ≤ year ∧ year ≤ 2052) (hmonth : 1 ≤ month ∧ month ≤ 12)
    (hday : 1 ≤ day ∧ day ≤ 31) :
    dateText (dateInt year month day) = some (formatDate year month day) := by
  unfold dateInt
  split
  · rename_i hcompact
    have hlen := Decimal.length_toDigits_eq (w := 3) (by decide) (by omega : 10 ^ 3 ≤ year)
      (by omega)
    obtain ⟨hdiv, hmod⟩ := compact_split hcompact hmonth hday
    have hpad : Decimal.pad 4 year = Nat.toDigits 10 year := Decimal.pad_eq_toDigits hlen.ge
    have hmonth' : (month * 100 + day) / 100 = month := by omega
    have hday' : (month * 100 + day) % 100 = day := by omega
    rw [dateText, if_neg (by omega), if_neg (by omega)]
    simp only [hdiv, hmod, hmonth', hday']
    rw [if_pos ⟨⟨by omega, by omega⟩, hmonth, hday⟩, formatDate, hpad]
  · exact dateText_of_eight_digits (by omega) (by omega) (by omega)

/-- From 2053 on the number of a date is taken for one of the dates before 2004, and while it has
less than eight digits nothing is read. -/
lemma dateText_dateInt_none (hyear : 2053 ≤ year ∧ year ≤ 6886) (hmonth : 1 ≤ month ∧ month ≤ 12)
    (hday : 1 ≤ day ∧ day ≤ 31) : dateText (dateInt year month day) = none := by
  have hlen := (Nat.length_toDigits_le_iff (by decide : 1 < 10) (by decide : 0 < 7)).mpr
    (by omega : (year - 2004) * 2048 + month * 100 + day < 10 ^ 7)
  rw [dateInt, if_pos (by omega), dateText, if_neg (by omega), if_pos (by omega)]
  exact if_neg (by omega)

/-- From 6887 on it has eight digits, and a date before 1980 is read. -/
lemma dateText_dateInt_misread (hyear : 6887 ≤ year ∧ year < 10000)
    (hmonth : 1 ≤ month ∧ month ≤ 12) (hday : 1 ≤ day ∧ day ≤ 31) :
    ∃ y m d, y < 1980 ∧ m < 100 ∧ d < 100 ∧
      dateText (dateInt year month day) = some (formatDate y m d) := by
  have hkey : ∃ n, dateInt year month day = n ∧ 10 ^ 7 ≤ n ∧ n < 17000000 :=
    ⟨_, rfl, by unfold dateInt; split <;> omega, by unfold dateInt; split <;> omega⟩
  obtain ⟨n, hn, hge, hlt⟩ := hkey
  have hsplit : n = dateKey (n / 10000) (n % 10000 / 100) (n % 100) := by
    unfold dateKey
    omega
  refine ⟨n / 10000, n % 10000 / 100, n % 100, by omega, by omega, by omega, ?_⟩
  rw [hn]
  conv_lhs => rw [hsplit]
  exact dateText_of_eight_digits ⟨by omega, by omega⟩ (by omega) (by omega)

end DateInt

end Tdxrs
