import Mathlib.Tactic.IntervalCases
import Tdxrs.Downloader.Files

set_option relaxedAutoImplicit false
set_option autoImplicit false

/-!
# Reading data files

A data file determines the dates of its bars: files that are the same hold bars of the same dates,
in the same order. The date that `_get_existing_last_date` reads back is that of the last bar,
except for the years from 2053 on in `.day` files.

## Main definitions

* `Tdxrs.Format.lastDate` — the date that is read from a file, by its last bar.

## Main results

* `Tdxrs.dates_eq_of_fileOf_eq` — a file determines the dates of its bars.
* `Tdxrs.getExistingLastDate_fileOf` — the date of the last bar is read.
* `Tdxrs.lastDate_eq_iff` — when this is its date.
-/

namespace Tdxrs

variable {category : UInt8}

/-! ## Lists of entries -/

/-- Entries of one length, written one after the other, can be told apart.

**Proof sketch.** Induction on the one list, by cases of the other. Entries are not empty, so that
an empty list is met by an empty one only; and two first entries of one length are equal, and so is
what follows them. -/
lemma map_eq_of_flatMap_eq {α : Type} {f : α → Bytes} {n : ℕ} (hn : 0 < n) {x y : List α}
    (hx : ∀ a ∈ x, (f a).length = n) (hy : ∀ a ∈ y, (f a).length = n)
    (h : x.flatMap f = y.flatMap f) : x.map f = y.map f := by
  induction x generalizing y with
  | nil =>
    cases y with
    | nil => rfl
    | cons b y =>
      have hb := hy b List.mem_cons_self
      have hlen := congrArg List.length h
      simp only [List.flatMap_nil, List.flatMap_cons, List.length_append, List.length_nil] at hlen
      omega
  | cons a x ih =>
    have ha := hx a List.mem_cons_self
    cases y with
    | nil =>
      have hlen := congrArg List.length h
      simp only [List.flatMap_nil, List.flatMap_cons, List.length_append, List.length_nil] at hlen
      omega
    | cons b y =>
      have hb := hy b List.mem_cons_self
      rw [List.flatMap_cons, List.flatMap_cons] at h
      obtain ⟨hfirst, hrest⟩ := List.append_inj h (ha.trans hb.symm)
      rw [List.map_cons, List.map_cons, hfirst,
        ih (fun a' ha' => hx a' (List.mem_cons_of_mem _ ha'))
          (fun b' hb' => hy b' (List.mem_cons_of_mem _ hb')) hrest]

/-- What the entries of two lists determine is the same when the entries are. -/
lemma map_eq_of_map_eq {α β γ : Type} {f : α → β} {g : α → γ} {x y : List α}
    (hfg : ∀ a ∈ x, ∀ b ∈ y, f a = f b → g a = g b) (h : x.map f = y.map f) :
    x.map g = y.map g := by
  induction x generalizing y with
  | nil =>
    rw [List.map_nil, eq_comm, List.map_eq_nil_iff] at h
    rw [h]
  | cons a x ih =>
    obtain ⟨b, y, rfl, hb, hrest⟩ := List.map_eq_cons_iff.mp h.symm
    rw [List.map_cons, List.map_cons, hfg a List.mem_cons_self b List.mem_cons_self hb.symm,
      ih (fun a' ha' b' hb' => hfg a' (List.mem_cons_of_mem _ ha') b' (List.mem_cons_of_mem _ hb'))
        hrest.symm]

/-! ## Rows of text files -/

/-- What digits are not.

**Proof sketch.** The code of a digit is between 48 and 57, and that of each of these characters is
not. -/
lemma digit_facts {c : Char} (h : c.isDigit) :
    (c ≠ '\r' ∧ c ≠ '\n') ∧ c ≠ ',' ∧ TextLines.isSpace c = false := by
  have hrange := Decimal.toNat_of_isDigit h
  refine ⟨⟨?_, ?_⟩, ?_, ?_⟩
  · rintro rfl
    exact absurd hrange (by decide)
  · rintro rfl
    exact absurd hrange (by decide)
  · rintro rfl
    exact absurd hrange (by decide)
  · obtain ⟨hge, hle⟩ := hrange
    unfold TextLines.isSpace
    generalize c.toNat = n at hge hle
    interval_cases n <;> decide

/-- The characters of a number with decimal places. -/
lemma mem_fixed {places : ℕ} {q : ℚ} {c : Char} (h : c ∈ Decimal.fixed places q) :
    c.isDigit ∨ c = '.' ∨ c = '-' := by
  have htext : ∀ n, c ∈ Nat.toDigits 10 (n / 10 ^ places) ++
      '.' :: Decimal.pad places (n % 10 ^ places) → c.isDigit ∨ c = '.' ∨ c = '-' := by
    intro n hc
    rcases List.mem_append.mp hc with hc | hc
    · exact .inl (Nat.isDigit_of_mem_toDigits (by decide) (by decide) hc)
    · rcases List.mem_cons.mp hc with rfl | hc
      · exact .inr (.inl rfl)
      · exact .inl (Decimal.isDigit_of_mem_pad hc)
  unfold Decimal.fixed at h
  simp only at h
  split at h
  · rcases List.mem_cons.mp h with rfl | h
    · exact .inr (.inr rfl)
    · exact htext _ h
  · exact htext _ h

/-- The characters of an integer. -/
lemma mem_integer {z : ℤ} {c : Char} (h : c ∈ Decimal.integer z) : c.isDigit ∨ c = '-' := by
  have hdigits : c ∈ Nat.toDigits 10 z.natAbs → c.isDigit :=
    Nat.isDigit_of_mem_toDigits (by decide) (by decide)
  unfold Decimal.integer at h
  split at h
  · rcases List.mem_cons.mp h with rfl | h
    · exact .inr rfl
    · exact .inl (hdigits h)
  · exact .inl (hdigits h)

/-- Numbers with decimal places end no line. -/
lemma isLine_fixed (places : ℕ) (q : ℚ) : TextLines.IsLine (Decimal.fixed places q) := by
  intro c hc
  rcases mem_fixed hc with hc | rfl | rfl
  · exact (digit_facts hc).1
  · decide
  · decide

/-- Prices end no line. -/
lemma isLine_px (q : ℚ) : TextLines.IsLine (px q) := by
  unfold px
  split <;> exact isLine_fixed _ q

/-- Integers end no line. -/
lemma isLine_integer (z : ℤ) : TextLines.IsLine (Decimal.integer z) := by
  intro c hc
  rcases mem_integer hc with hc | rfl
  · exact (digit_facts hc).1
  · decide

/-- Dates end no line. -/
lemma isLine_datePart {b : SecurityBar} (hb : b.Dated category) : TextLines.IsLine b.datePart := by
  intro c hc
  rcases hb.mem_datePart hc with hc | rfl
  · exact (digit_facts hc).1
  · decide

/-- A row is one line. -/
lemma isLine_csvRow {b : SecurityBar} (hb : b.Dated category) : TextLines.IsLine (csvRow b) := by
  have hcomma : ',' ≠ '\r' ∧ ',' ≠ '\n' := by decide
  have happend : ∀ {s t : Text}, TextLines.IsLine s → TextLines.IsLine t →
      TextLines.IsLine (s ++ ',' :: t) := fun hs ht => hs.append (.cons hcomma ht)
  have hcolumns : TextLines.IsLine (csvColumns b) := by
    simp only [csvColumns, List.append_assoc, List.cons_append]
    exact happend (isLine_px _) (happend (isLine_px _) (happend (isLine_px _)
      (happend (isLine_px _) (happend (isLine_fixed _ _) (isLine_integer _)))))
  exact happend (isLine_datePart hb) hcolumns

/-- The date of a row is what stands before the first comma. -/
lemma takeWhile_comma {b : SecurityBar} (hb : b.Dated category) (rest : Text) :
    (b.datePart ++ ',' :: rest).takeWhile (· ≠ ',') = b.datePart := by
  rw [List.takeWhile_append_of_pos, List.takeWhile_cons_of_neg (by simp), List.append_nil]
  intro c hc
  rcases hb.mem_datePart hc with hc | rfl
  · simpa using (digit_facts hc).2.1
  · decide

/-- The lines of a text file. -/
lemma readLines_writeRows {bars : List SecurityBar} (hbars : ∀ b ∈ bars, b.Dated category) :
    (decodeText (writeRows (csvHeader :: bars.map csvRow))).map
        (fun t => TextLines.readLines (TextLines.universalNewlines t)) =
      some ((csvHeader :: bars.map csvRow).map (· ++ ['\n'])) := by
  have hall : csvHeader.all (fun c => c ≠ '\r' ∧ c ≠ '\n') = true := by decide
  have hheader : TextLines.IsLine csvHeader := fun c hc =>
    of_decide_eq_true (List.all_eq_true.mp hall c hc)
  rw [writeRows, decodeText_encodeText, Option.map_some, TextLines.readLines_crlf]
  intro line hline
  rcases List.mem_cons.mp hline with rfl | hline
  · exact hheader
  · obtain ⟨b, hb, rfl⟩ := List.mem_map.mp hline
    exact isLine_csvRow (hbars b hb)

/-! ## Files determine dates -/

/-- The record of a dated bar that fits. -/
lemma recordOf_eq {b : SecurityBar} (hb : b.Dated category) (hfits : Format.tdx.fits b = true) :
    ∃ rest, recordOf b = LittleEndian.toLE 4 b.dateInt ++ rest ∧ rest.length = 28 :=
  packRecord_eq hb (packRecord_of_fits hfits)

/-- A record is 32 bytes long. -/
lemma length_recordOf {b : SecurityBar} (hb : b.Dated category)
    (hfits : Format.tdx.fits b = true) : (recordOf b).length = 32 := by
  obtain ⟨rest, hrecord, hlen⟩ := recordOf_eq hb hfits
  rw [hrecord, List.length_append, LittleEndian.length_toLE, hlen]

/-- The first four bytes of a record are the number of the date. -/
lemma field_recordOf {b : SecurityBar} (hb : b.Dated category) (hfits : Format.tdx.fits b = true) :
    LittleEndian.field (recordOf b) 0 4 = b.dateInt := by
  obtain ⟨rest, hrecord, -⟩ := recordOf_eq hb hfits
  have hrange := dateInt_range hb.year hb.month hb.day
  rw [hrecord, LittleEndian.field_append_left _ (by simp), LittleEndian.field_toLE]
  exact Nat.mod_eq_of_lt hrange.2

/-- Bars whose texts of the date are the same have the same date. -/
lemma dateKey_eq_of_datePart_eq {a b : SecurityBar} (ha : a.Dated category)
    (hb : b.Dated category) (h : a.datePart = b.datePart) : a.dateKey = b.dateKey := by
  have hab : ¬ a.dateKey < b.dateKey := fun hlt =>
    List.lt_irrefl _ (h ▸ (ha.datePart_lt_iff hb).mpr hlt)
  have hba : ¬ b.dateKey < a.dateKey := fun hlt =>
    List.lt_irrefl _ (h ▸ (hb.datePart_lt_iff ha).mpr hlt)
  omega

/-- **A file determines the dates of its bars.**

**Proof sketch.** By the format. Records have 32 bytes each, so equal files have equal records, and
a record has the number of the date, which differs for different dates (`dateInt_inj`). Equal texts
have equal lines, and each line begins with the date up to a comma. A table is read as the rows it
was written from, which name the dates. -/
theorem dates_eq_of_fileOf_eq (codec : ParquetCodec) {format : Format} {x y : List SecurityBar}
    (hx : ∀ b ∈ x, b.Dated category ∧ format.fits b = true)
    (hy : ∀ b ∈ y, b.Dated category ∧ format.fits b = true)
    (h : fileOf codec format x = fileOf codec format y) : x.map SecurityBar.dateKey =
      y.map SecurityBar.dateKey := by
  cases format with
  | tdx =>
    have hrecords : x.map recordOf = y.map recordOf :=
      map_eq_of_flatMap_eq (by decide : 0 < 32)
        (fun b hb => length_recordOf (hx b hb).1 (hx b hb).2)
        (fun b hb => length_recordOf (hy b hb).1 (hy b hb).2) h
    refine map_eq_of_map_eq (fun a ha b hb hab => ?_) hrecords
    obtain ⟨ha, hfa⟩ := hx a ha
    obtain ⟨hb, hfb⟩ := hy b hb
    refine dateInt_inj ha.year ha.month ha.day hb.year hb.month hb.day ?_
    rw [← SecurityBar.dateInt, ← SecurityBar.dateInt, ← field_recordOf ha hfa, hab,
      field_recordOf hb hfb]
  | csv =>
    have hlines := readLines_writeRows fun b hb => (hx b hb).1
    have hlines' := readLines_writeRows fun b hb => (hy b hb).1
    rw [fileOf, fileOf] at h
    rw [h, hlines', Option.some.injEq, List.map_cons, List.map_cons, List.cons.injEq,
      List.map_map, List.map_map] at hlines
    refine map_eq_of_map_eq (fun a ha b hb hab => ?_) hlines.2.symm
    have hrows : csvRow a = csvRow b := List.append_cancel_right hab
    have hdates := congrArg (List.takeWhile (· ≠ ',')) hrows
    rw [csvRow, csvRow, takeWhile_comma (hx a ha).1, takeWhile_comma (hy b hb).1] at hdates
    exact dateKey_eq_of_datePart_eq (hx a ha).1 (hy b hb).1 hdates
  | parquet =>
    have htable := congrArg codec.read h
    rw [fileOf, fileOf, codec.read_write, codec.read_write, Option.some.injEq] at htable
    refine map_eq_of_map_eq (fun a ha b hb hab => ?_) htable
    exact dateKey_eq_of_datePart_eq (hx a ha).1 (hy b hb).1 (congrArg ParquetRow.date hab)

/-! ## The last date -/

/-- The date that is read from a file whose last bar is given. -/
def Format.lastDate : Format → SecurityBar → Option Text
  | .tdx, b => dateText b.dateInt
  | .csv, b => some b.datePart
  | .parquet, b => some b.datePart

/-- What is read from a text file, by its last line. -/
lemma lastDateCsv_eq {content : Bytes} {lines : List Text} {line rest : Text} {c : Char}
    (hlines : (decodeText content).map
      (fun t => TextLines.readLines (TextLines.universalNewlines t)) = some lines)
    (hlen : 2 ≤ lines.length) (hlast : lines.getLast? = some line)
    (hstrip : TextLines.strip line = c :: rest) :
    lastDateCsv content = some ((c :: rest).takeWhile (· ≠ ',')) := by
  obtain ⟨t, ht, hlines⟩ := Option.map_eq_some_iff.mp hlines
  simp only [lastDateCsv, ht, hlines]
  rw [if_neg (by omega), hlast, Option.map_some, hstrip]

/-- **The date of the last bar is read**, as far as its number in a record can be.

**Proof sketch.** By the format. The last 32 bytes are the record of the last bar, whose first word
is the number of its date. The last line of a text is the row of the last bar, and stripping it
keeps the date in front of the first comma. The last row of a table is that of the last bar. -/
theorem getExistingLastDate_fileOf (codec : ParquetCodec) {format : Format}
    {init : List SecurityBar} {b : SecurityBar}
    (hbars : ∀ a ∈ init ++ [b], a.Dated category ∧ format.fits a = true) :
    getExistingLastDate codec format (fileOf codec format (init ++ [b])) = format.lastDate b := by
  obtain ⟨hb, hfits⟩ := hbars b (by simp)
  cases format with
  | tdx =>
    have hlen := length_recordOf hb hfits
    simp only [getExistingLastDate, lastDateTdx, fileOf, List.flatMap_append, List.flatMap_cons,
      List.flatMap_nil, List.append_nil, List.length_append, hlen, Nat.add_sub_cancel]
    rw [if_neg (by omega), LittleEndian.field_append_right _ _ (le_refl _), Nat.sub_self,
      field_recordOf hb hfits]
    rfl
  | csv =>
    have hlines := readLines_writeRows fun a ha => (hbars a ha).1
    obtain ⟨c, date, hc, hdate⟩ := hb.exists_datePart_cons
    -- the last line, without its end, keeps the date
    obtain ⟨rest, hstrip⟩ := TextLines.strip_append_cons (t := date) (digit_facts hc).2.2
      (by decide : TextLines.isSpace ',' = false) (csvColumns b ++ ['\n'])
    have hlast : csvRow b ++ ['\n'] = c :: date ++ ',' :: (csvColumns b ++ ['\n']) := by
      simp [csvRow, hdate]
    have hgetLast : ((csvHeader :: (init ++ [b]).map csvRow).map (· ++ ['\n'])).getLast? =
        some (csvRow b ++ ['\n']) := by
      rw [List.map_append, ← List.cons_append, List.map_append]
      exact List.getLast?_concat
    have hdate' : (c :: date ++ ',' :: rest).takeWhile (· ≠ ',') = b.datePart := by
      rw [← hdate, takeWhile_comma hb]
    rw [← hlast] at hstrip
    exact (lastDateCsv_eq hlines (by simp) hgetLast hstrip).trans (congrArg some hdate')
  | parquet =>
    simp [getExistingLastDate, lastDateParquet, fileOf, codec.read_write, Format.lastDate, rowOf]

/-- Up to the year 2052, and in text and parquet files always, the date itself is read. -/
lemma lastDate_eq {format : Format} {b : SecurityBar} (hb : b.Dated category)
    (h : format = .tdx → b.year ≤ 2052) : format.lastDate b = some b.datePart := by
  cases format with
  | tdx =>
    rw [hb.datePart_eq]
    exact dateText_dateInt ⟨hb.year.1, h rfl⟩ hb.month hb.day
  | csv => rfl
  | parquet => rfl

/-- Nothing is read of the years from 2053 to 6886. -/
lemma lastDate_tdx_none {b : SecurityBar} (hb : b.Dated category)
    (h : 2053 ≤ b.year ∧ b.year ≤ 6886) : Format.tdx.lastDate b = none :=
  dateText_dateInt_none h hb.month hb.day

/-- The years from 6887 on are taken for a date before all bars.

**Proof sketch.** The number has eight digits and is read as a date before 1980; a dated bar is from
1980 or later. -/
lemma lastDate_tdx_misread {b : SecurityBar} (hb : b.Dated category) (h : 6887 ≤ b.year) :
    ∃ c text, Format.tdx.lastDate b = some (c :: text) ∧
      ∀ a : SecurityBar, a.Dated category → c :: text < a.datePart := by
  obtain ⟨y, m, d, hy, hm, hd, hread⟩ :=
    dateText_dateInt_misread ⟨h, hb.year.2⟩ hb.month hb.day
  have hlen := length_formatDate (by omega : y < 10000) hm hd
  obtain ⟨c, text, htext⟩ :=
    List.exists_cons_of_length_pos (by omega : 0 < (formatDate y m d).length)
  refine ⟨c, text, htext ▸ hread, fun a ha => ?_⟩
  have hyear := ha.year
  have hmonth := ha.month
  have hday := ha.day
  rw [← htext, ha.datePart_eq, formatDate_lt_iff (by omega) hm hd hyear.2 (by omega) (by omega)]
  unfold dateKey
  omega

/-- **The date itself is read from a `.day` file** exactly up to the year 2052. -/
theorem lastDate_eq_iff {b : SecurityBar} (hb : b.Dated category) :
    Format.tdx.lastDate b = some b.datePart ↔ b.year ≤ 2052 := by
  refine ⟨fun h => ?_, fun h => lastDate_eq hb fun _ => h⟩
  by_contra hlate
  by_cases hsix : b.year ≤ 6886
  · rw [lastDate_tdx_none hb ⟨by omega, hsix⟩] at h
    cases h
  · obtain ⟨c, text, hread, hlt⟩ := lastDate_tdx_misread hb (by omega)
    rw [hread, Option.some.injEq] at h
    exact List.lt_irrefl _ (h ▸ hlt b hb)

/-- No date is read from a file without bars. -/
lemma getExistingLastDate_fileOf_nil (codec : ParquetCodec) (format : Format) :
    getExistingLastDate codec format (fileOf codec format []) = none := by
  cases format with
  | tdx => rfl
  | csv =>
    have hnone : ∀ b ∈ ([] : List SecurityBar), b.Dated 4 := by simp
    obtain ⟨t, ht, hlines⟩ := Option.map_eq_some_iff.mp (readLines_writeRows hnone)
    simp only [getExistingLastDate, lastDateCsv, fileOf, ht, hlines]
    rfl
  | parquet => simp [getExistingLastDate, lastDateParquet, fileOf, codec.read_write]

end Tdxrs
