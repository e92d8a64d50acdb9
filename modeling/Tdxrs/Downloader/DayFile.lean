import Tdxrs.Downloader.FirstDownload
import Tdxrs.Reader.DailyBar

set_option relaxedAutoImplicit false
set_option autoImplicit false

/-!
# `.day` files between the downloader and the reader

The downloader writes `.day` files for the reader of the crate. Prices go into a record in
hundredths, cut off, and come back times 0.01, so that a third decimal place is lost. Dates from
2004 on go into it in the compact layout, whose numbers pass in 2053 the limit above which the
reader takes them for the layout of the dates before 2004.

## Main definitions

* `Tdxrs.SameDay` — a record of a file that shows the date and the prices of a bar.
* `Tdxrs.DayFileShows` — the file of the downloader, read by the reader, shows the bars.

## Main results

* `Tdxrs.parseDailyBar_fileOf` — what the reader makes of the downloader's files.
* `Tdxrs.day_round_trip_iff` — when it shows the bars.
-/

namespace Tdxrs

variable {category : UInt8}

/-! ## Records read back -/

/-- A price in hundredths, cut off. -/
def cents (price : ℚ) : ℕ := (pyInt (price * 100)).toNat

/-- The record that the reader makes of the record of a bar. -/
def readBack (coefficient : ℚ) (b : SecurityBar) : DailyBarRecord :=
  let (year, month, day) := decodeDate b.dateInt
  { date := formatDate year month day
    «open» := cents b.open * coefficient
    high := cents b.high * coefficient
    low := cents b.low * coefficient
    close := cents b.close * coefficient
    amount := Single.ofBits ((float32Bits b.amount).getD 0)
    volume := (pyInt b.vol).toNat
    year, month, day }

/-- A number that can be packed, packed. -/
lemma packU32_eq {z : ℤ} (h : 0 ≤ z ∧ z < 2 ^ 32) :
    packU32 z = .ok (LittleEndian.toLE 4 z.toNat) := by
  rw [packU32, if_pos h]

/-- The fields of the record of a dated bar that fits.

**Proof sketch.** The bar fits, so packing it succeeds, and a successful packing has a value for
each field. These are compared one by one: the date of a dated bar is parsed from its text, and a
price or volume in range is packed as the number it is truncated to. -/
lemma recordOf_fields {b : SecurityBar} (hb : b.Dated category)
    (hfits : Format.tdx.fits b = true) :
    recordOf b = LittleEndian.toLE 4 b.dateInt ++ (LittleEndian.toLE 4 (cents b.open) ++
      (LittleEndian.toLE 4 (cents b.high) ++ (LittleEndian.toLE 4 (cents b.low) ++
        (LittleEndian.toLE 4 (cents b.close) ++
          (LittleEndian.toLE 4 ((float32Bits b.amount).getD 0) ++
            (LittleEndian.toLE 4 (pyInt b.vol).toNat ++ LittleEndian.toLE 4 0)))))) := by
  obtain ⟨hprices, hamount, hvol⟩ := (fits_tdx_iff hb).mp hfits
  simp only [List.forall_mem_cons, List.not_mem_nil, false_imp_iff, implies_true, and_true]
    at hprices
  obtain ⟨hopen, hhigh, hlow, hclose⟩ := hprices
  obtain ⟨bits, hbits⟩ := Option.isSome_iff_exists.mp hamount
  have hpack : packF32 b.amount = .ok (LittleEndian.toLE 4 bits) := by rw [packF32, hbits]
  have hzero : packU32 0 = .ok (LittleEndian.toLE 4 0) := by
    rw [packU32_eq ⟨le_rfl, by norm_num⟩, Int.toNat_zero]
  obtain ⟨year, hyear, month, hmonth, day, hday, date, hdate, _, h1, _, h2, _, h3, _, h4, _, h5, _,
    h6, _, h7, hrecord⟩ := packRecord_eq_ok.mp (packRecord_of_fits hfits)
  obtain rfl := Except.ok.inj (hyear.symm.trans hb.parseInt_year)
  obtain rfl := Except.ok.inj (hmonth.symm.trans hb.parseInt_month)
  obtain rfl := Except.ok.inj (hday.symm.trans hb.parseInt_day)
  rw [← hrecord, Except.ok.inj (hdate.symm.trans hb.packU32_dateInt),
    Except.ok.inj (h1.symm.trans (packU32_eq hopen)),
    Except.ok.inj (h2.symm.trans (packU32_eq hhigh)),
    Except.ok.inj (h3.symm.trans (packU32_eq hlow)),
    Except.ok.inj (h4.symm.trans (packU32_eq hclose)), Except.ok.inj (h5.symm.trans hpack),
    Except.ok.inj (h6.symm.trans (packU32_eq hvol)), Except.ok.inj (h7.symm.trans hzero), hbits,
    Option.getD_some]
  simp only [List.append_assoc, cents, SecurityBar.dateInt]

/-- The bits of a number in single precision fit 32 bits. -/
lemma float32Bits_lt {q : ℚ} {bits : ℕ} (h : float32Bits q = some bits) : bits < 2 ^ 32 := by
  simp only [float32Bits] at h
  generalize (if q = 0 then 0 else _) = n at h
  by_cases hn : 0x7F800000 ≤ n
  · rw [if_pos hn] at h
    cases h
  · rw [if_neg hn] at h
    rw [← Option.some.inj h]
    split <;> omega

/-- A record at a position is read back.

**Proof sketch.** The eight words stand one behind the other (`recordOf_fields`), each within 32
bits, because the bar fits and its date has a number below `2 ^ 32` (`dateInt_range`); so each is
read back where it stands. -/
lemma dailyBar_of_drop {b : SecurityBar} (hb : b.Dated category) (hfits : Format.tdx.fits b = true)
    (coefficient : ℚ) {data rest : Bytes} {pos : ℕ} (h : data.drop pos = recordOf b ++ rest) :
    dailyBar coefficient data pos = readBack coefficient b := by
  obtain ⟨hprices, hamount, hvol⟩ := (fits_tdx_iff hb).mp hfits
  simp only [List.forall_mem_cons, List.not_mem_nil, false_imp_iff, implies_true, and_true]
    at hprices
  obtain ⟨hopen, hhigh, hlow, hclose⟩ := hprices
  have hcents : ∀ {q : ℚ}, pyInt (q * 100) < 2 ^ 32 → cents q < 2 ^ 32 := by
    intro q hq
    unfold cents
    omega
  have hrange := dateInt_range hb.year hb.month hb.day
  rw [recordOf_fields hb hfits] at h
  simp only [List.append_assoc] at h
  have h1 := drop_add h
  have h2 := drop_add h1
  have h3 := drop_add h2
  have h4 := drop_add h3
  have h5 := drop_add h4
  have h6 := drop_add h5
  simp only [LittleEndian.length_toLE, Nat.add_assoc, Nat.reduceAdd] at h1 h2 h3 h4 h5 h6
  obtain ⟨bits, hbits⟩ := Option.isSome_iff_exists.mp hamount
  have hfield : LittleEndian.field data (pos + 20) 4 = (float32Bits b.amount).getD 0 := by
    rw [LittleEndian.field, h5, List.take_left' (LittleEndian.length_toLE 4 _),
      LittleEndian.ofLE_toLE, hbits, Option.getD_some]
    exact Nat.mod_eq_of_lt (float32Bits_lt hbits)
  have hvolume : (pyInt b.vol).toNat < 2 ^ 32 := by omega
  simp only [dailyBar, readBack, readF32, hfield, readU32_of_drop h hrange.2,
    readU32_of_drop h1 (hcents hopen.2), readU32_of_drop h2 (hcents hhigh.2),
    readU32_of_drop h3 (hcents hlow.2), readU32_of_drop h4 (hcents hclose.2),
    readU32_of_drop h6 hvolume]

/-- Entries of one length, without the first ones. -/
lemma drop_entries {α : Type} {f : α → Bytes} {n : ℕ} {l : List α}
    (hl : ∀ a ∈ l, (f a).length = n) (i : ℕ) :
    (l.flatMap f).drop (i * n) = (l.drop i).flatMap f := by
  induction l generalizing i with
  | nil => simp
  | cons a l ih =>
    cases i with
    | zero => simp
    | succ i =>
      have ha := hl a List.mem_cons_self
      rw [List.flatMap_cons, List.drop_succ_cons, Nat.succ_mul, Nat.add_comm (i * n),
        ← List.drop_drop, List.drop_left' ha]
      exact ih (fun a' ha' => hl a' (List.mem_cons_of_mem _ ha')) i

/-- The length of entries of one length. -/
lemma length_entries {α : Type} {f : α → Bytes} {n : ℕ} {l : List α}
    (hl : ∀ a ∈ l, (f a).length = n) : (l.flatMap f).length = l.length * n := by
  induction l with
  | nil => simp
  | cons a l ih =>
    rw [List.flatMap_cons, List.length_append, hl a List.mem_cons_self,
      ih fun a' ha' => hl a' (List.mem_cons_of_mem _ ha'), List.length_cons, Nat.succ_mul,
      Nat.add_comm]

/-- **What the reader makes of the downloader's files**: one record for every bar, in order.

**Proof sketch.** All records are 32 bytes long, so the file is a whole number of them and the
reader finds the record of the `i`-th bar at `32 i`. -/
theorem parseDailyBar_fileOf (codec : ParquetCodec) {bars : List SecurityBar}
    (hbars : ∀ b ∈ bars, b.Dated category ∧ Format.tdx.fits b = true) (coefficient : ℚ) :
    parseDailyBar (fileOf codec .tdx bars) coefficient = .ok (bars.map (readBack coefficient)) := by
  have hlen : ∀ b ∈ bars, (recordOf b).length = 32 := fun b hb =>
    length_recordOf (hbars b hb).1 (hbars b hb).2
  have htotal : (fileOf codec .tdx bars).length = bars.length * 32 := length_entries hlen
  rw [parseDailyBar, htotal, if_neg (by simp), Nat.mul_div_cancel _ (by decide)]
  refine congrArg _ (List.ext_getElem (by simp) fun i h1 h2 => ?_)
  have hi : i < bars.length := by simpa using h1
  have hb := hbars bars[i] (List.getElem_mem hi)
  have hdrop : (fileOf codec .tdx bars).drop (i * 32) =
      recordOf bars[i] ++ (bars.drop (i + 1)).flatMap recordOf := by
    rw [fileOf, drop_entries hlen, List.drop_eq_getElem_cons hi, List.flatMap_cons]
  rw [List.getElem_map, List.getElem_range, List.getElem_map]
  exact dailyBar_of_drop hb.1 hb.2 coefficient hdrop

/-! ## Dates and prices read back -/

/-- The date that is read back is the bar's exactly up to the year 2052.

**Proof sketch.** From 2004 to 2052 the number of the date is at most 100000, so the reader takes it
for the packed form and splits it again (`compact_split`). From 2053 on it is above, and is split as
digits, which gives another year; before 2004 it is above too, and its digits are the date. -/
lemma decodeDate_dateInt_iff {b : SecurityBar} (hb : b.Dated category) :
    decodeDate b.dateInt = (b.year, b.month, b.day) ↔ b.year ≤ 2052 := by
  have hyear := hb.year
  have hmonth := hb.month
  have hday := hb.day
  unfold decodeDate SecurityBar.dateInt dateInt
  by_cases h2004 : 2004 ≤ b.year
  · rw [if_pos h2004]
    split
    · simp only [Prod.mk.injEq]
      omega
    · obtain ⟨hdiv, hmod⟩ := compact_split h2004 hmonth hday
      have hparts : (b.month * 100 + b.day) / 100 = b.month ∧
          (b.month * 100 + b.day) % 100 = b.day := by omega
      rw [hdiv, hmod, hparts.1, hparts.2]
      exact iff_of_true rfl (by omega)
  · rw [if_neg h2004, if_pos (by omega)]
    simp only [Prod.mk.injEq]
    omega

/-- A price comes back exactly when it is a whole number of hundredths. -/
lemma cents_mul_iff {price : ℚ} (h : 0 ≤ price) :
    (cents price : ℚ) * (1 / 100) = price ↔ ∃ n : ℕ, price = n / 100 := by
  constructor
  · intro hprice
    exact ⟨cents price, by rw [← mul_one_div, hprice]⟩
  · rintro ⟨n, rfl⟩
    have hn : (n : ℚ) / 100 * 100 = ((n : ℤ) : ℚ) := by
      push_cast
      ring
    have hint : pyInt ((n : ℚ) / 100 * 100) = n := by
      rw [hn, pyInt, if_pos (by positivity), Int.floor_intCast]
    rw [cents, hint, Int.toNat_natCast, mul_one_div]

/-! ## Files that show the bars -/

/-- A record of a file that shows the date and the prices of a bar. -/
structure SameDay (b : SecurityBar) (r : DailyBarRecord) : Prop where
  date : (r.year, r.month, r.day) = (b.year, b.month, b.day)
  «open» : r.open = b.open
  high : r.high = b.high
  low : r.low = b.low
  close : r.close = b.close

/-- The file of the downloader, read by the reader with the coefficient 0.01, shows the bars, one
record for each and in order. -/
def DayFileShows (bars : List SecurityBar) : Prop :=
  ∃ content records, writeTdx none bars false = (some content, .ok ()) ∧
    parseDailyBar content (1 / 100) = .ok records ∧ List.Forall₂ SameDay bars records

/-- The prices of a bar. -/
def SecurityBar.prices (b : SecurityBar) : List ℚ := [b.open, b.high, b.low, b.close]

/-- When the record that is read back shows the bar. -/
lemma sameDay_readBack_iff {b : SecurityBar} (hb : b.Dated category)
    (hprices : ∀ price ∈ b.prices, 0 ≤ price) :
    SameDay b (readBack (1 / 100) b) ↔
      b.year ≤ 2052 ∧ ∀ price ∈ b.prices, ∃ n : ℕ, price = n / 100 := by
  simp only [SecurityBar.prices, List.forall_mem_cons, List.not_mem_nil, false_imp_iff,
    implies_true, and_true] at hprices ⊢
  obtain ⟨hopen, hhigh, hlow, hclose⟩ := hprices
  rw [← decodeDate_dateInt_iff hb, ← cents_mul_iff hopen, ← cents_mul_iff hhigh,
    ← cents_mul_iff hlow, ← cents_mul_iff hclose]
  exact ⟨fun h => ⟨h.date, h.open, h.high, h.low, h.close⟩,
    fun ⟨hdate, h1, h2, h3, h4⟩ => ⟨hdate, h1, h2, h3, h4⟩⟩

/-- The downloader's file shows the bars when the records that are read back do.

**Proof sketch.** All bars fit, so the write succeeds with the file of all records, and
`parseDailyBar_fileOf` reads them back one for one; thus the two lists match exactly if each bar
matches what it is read back as. -/
lemma dayFileShows_iff {bars : List SecurityBar}
    (hbars : ∀ b ∈ bars, b.Dated category ∧ Format.tdx.fits b = true) :
    DayFileShows bars ↔ ∀ b ∈ bars, SameDay b (readBack (1 / 100) b) := by
  have hall : bars.all Format.tdx.fits = true := List.all_eq_true.mpr fun b hb => (hbars b hb).2
  obtain ⟨hcontent, hresult⟩ := writeRecords_eq [] bars
  rw [Format.kept_eq_self hall, List.nil_append] at hcontent
  have hwrite : writeTdx none bars false =
      (some (fileOf ParquetCodec.enumerated .tdx bars), .ok ()) := by
    show (some (writeRecords [] bars).1, (writeRecords [] bars).2) = _
    rw [hcontent, hresult.mpr hall]
    rfl
  have hread := parseDailyBar_fileOf ParquetCodec.enumerated hbars (1 / 100)
  have hshow : List.Forall₂ SameDay bars (bars.map (readBack (1 / 100))) ↔
      ∀ b ∈ bars, SameDay b (readBack (1 / 100) b) := by
    rw [List.forall₂_map_right_iff, List.forall₂_same]
  rw [← hshow]
  constructor
  · rintro ⟨content, records, hw, hr, h⟩
    rw [hwrite] at hw
    obtain rfl := Option.some.inj (Prod.mk.inj hw).1
    rwa [← Except.ok.inj (hread.symm.trans hr)] at h
  · exact fun h => ⟨_, _, hwrite, hread, h⟩

/-- **When the reader shows what the downloader wrote**, in exact arithmetic. For bars as the parser
makes them, with prices in thousandths and everything in the range of a record, the reader makes one
record for every bar, with its date and its prices, exactly when no bar is later than 2052 and all
prices are whole numbers of hundredths. In the doubles of the source more is lost: 8.20 is a little
less than 820 hundredths there, and is stored as 819.

**Proof sketch.** Records are read back one by one, so that one bar decides: the number that is
stored for a price is its hundredths cut off, and that of a date is read as this date up to 2052
only. -/
theorem day_round_trip_iff (category : UInt8) (bars : List SecurityBar)
    (hdated : ∀ b ∈ bars, b.Dated category)
    (hprices : ∀ b ∈ bars, ∀ price ∈ b.prices, ∃ n : ℕ, price = n / 1000)
    (hfits : ∀ b ∈ bars, Format.tdx.fits b = true) :
    DayFileShows bars ↔
      ∀ b ∈ bars, b.year ≤ 2052 ∧ ∀ price ∈ b.prices, ∃ n : ℕ, price = n / 100 := by
  rw [dayFileShows_iff fun b hb => ⟨hdated b hb, hfits b hb⟩]
  refine forall₂_congr fun b hb => sameDay_readBack_iff (hdated b hb) fun price hprice => ?_
  obtain ⟨n, rfl⟩ := hprices b hb price hprice
  positivity

/-! ## A fund with three decimal places, and a bar of 2053 -/

/-- The bar of a fund at 1.234. -/
def fundBar : SecurityBar := (flatRecord 1234 2024 1 2).bar 4

/-- A bar of the year 2053 at 10.000. -/
def lateBar : SecurityBar := (flatRecord 10000 2053 1 2).bar 4

/-- Bars with all prices equal are dated and in thousandths. -/
lemma flatRecord_bar_facts (price year month day : ℕ) (hyear : 1980 ≤ year ∧ year < 10000)
    (hmonth : 1 ≤ month ∧ month ≤ 12) (hday : 1 ≤ day ∧ day ≤ 31) :
    ((flatRecord price year month day).bar 4).Dated 4 ∧
      ∀ p ∈ ((flatRecord price year month day).bar 4).prices, p = price / 1000 := by
  refine ⟨⟨hyear, hmonth, hday, rfl⟩, ?_⟩
  simp [SecurityBar.prices, KLineRecord.bar, flatRecord]

/-- **The third decimal place of a fund's prices is lost, and so is a date of 2053.**

**Proof sketch.** Both bars fit, so the file shows them only if each is read back as it is; the
price of the fund and the date of the late bar are not. -/
theorem day_round_trip_fails :
    (Format.tdx.fits fundBar = true ∧ ¬ DayFileShows [fundBar]) ∧
      Format.tdx.fits lateBar = true ∧ ¬ DayFileShows [lateBar] := by
  have hfits : Format.tdx.fits fundBar = true ∧ Format.tdx.fits lateBar = true := by
    decide +kernel
  have hfund := (flatRecord_bar_facts 1234 2024 1 2
    (by decide) (by decide) (by decide)).1
  have hlate := (flatRecord_bar_facts 10000 2053 1 2
    (by decide) (by decide) (by decide)).1
  refine ⟨⟨hfits.1, fun h => ?_⟩, hfits.2, fun h => ?_⟩
  · have hsame := (dayFileShows_iff (by simpa using ⟨hfund, hfits.1⟩)).mp h fundBar (by simp)
    have hopen : (readBack (1 / 100) fundBar).open ≠ fundBar.open := by decide +kernel
    exact hopen hsame.open
  · have hsame := (dayFileShows_iff (by simpa using ⟨hlate, hfits.2⟩)).mp h lateBar (by simp)
    have hdate : ((readBack (1 / 100) lateBar).year, (readBack (1 / 100) lateBar).month,
        (readBack (1 / 100) lateBar).day) ≠ (lateBar.year, lateBar.month, lateBar.day) := by
      decide +kernel
    exact hdate hsame.date

/-- A bar of a stock at 10.000 in 2024 is shown. -/
theorem day_round_trip_stock : DayFileShows [(flatRecord 10000 2024 1 2).bar 4] := by
  have hfits : Format.tdx.fits ((flatRecord 10000 2024 1 2).bar 4) = true := by decide +kernel
  obtain ⟨hdated, hprices⟩ := flatRecord_bar_facts 10000 2024 1 2
    (by decide) (by decide) (by decide)
  refine (day_round_trip_iff 4 [(flatRecord 10000 2024 1 2).bar 4] (by simpa using hdated)
    ?_ (by simpa using hfits)).mpr ?_
  · simp only [List.forall_mem_cons, List.not_mem_nil, false_imp_iff, implies_true, and_true]
    exact fun price hprice => ⟨10000, by rw [hprices price hprice]⟩
  · simp only [List.forall_mem_cons, List.not_mem_nil, false_imp_iff, implies_true, and_true]
    refine ⟨by decide, fun price hprice => ⟨1000, ?_⟩⟩
    rw [hprices price hprice]
    norm_num

end Tdxrs
