import Tdxrs.Downloader.Runs
import Tdxrs.Net.SliceServer

set_option relaxedAutoImplicit false
set_option autoImplicit false

/-!
# The first download

A download of daily bars into a directory without the file. The file gets one record for every
bar of the history, but the paging loop puts the older pages behind the newer ones, so that the
records are in ascending order only when the history fits on one page. The last record then gives
the date of the newest bar up to the year 2052.

## Main definitions

* `Tdxrs.FileHolds` — a `.day` file that holds a history.

## Main results

* `Tdxrs.first_download_iff` — when the file holds the history.
-/

namespace Tdxrs

open Window

variable {σ : Type} {category : UInt8}

/-! ## Files that hold a history -/

/-- A `.day` file that holds a history: the records of all bars, in their order, and the date of
the newest bar is read from it. A history without bars needs no file. -/
structure FileHolds (content : Option Bytes) (history : List SecurityBar) : Prop where
  records : ∃ records, history.mapM packRecord = .ok records ∧ content.getD [] = records.flatten
  newest : ∀ b, history.getLast? = some b →
    content.bind lastDateTdx = some (formatDate b.year b.month b.day)

variable {history : List SecurityBar}

/-- The records of a file whose bars all fit. -/
lemma records_iff (codec : ParquetCodec) (hfits : ∀ b ∈ history, Format.tdx.fits b = true)
    (bars : List SecurityBar) :
    (∃ records, history.mapM packRecord = .ok records ∧
        (some (fileOf codec .tdx bars)).getD [] = records.flatten) ↔
      fileOf codec .tdx bars = fileOf codec .tdx history := by
  have hrecords : history.mapM packRecord = .ok (history.map recordOf) :=
    mapM_eq_ok fun b hb => packRecord_of_fits (hfits b hb)
  have hflatten : (history.map recordOf).flatten = fileOf codec .tdx history :=
    List.flatMap_def.symm
  rw [hrecords, ← hflatten]
  exact ⟨fun ⟨_, hr, h⟩ => Except.ok.inj hr ▸ h, fun h => ⟨_, rfl, h⟩⟩

/-- Longer histories are not collected in order: the file begins with another date.

**Proof sketch.** The file determines the dates in it. If there are more than 800 bars, then the
first date is that of the newest 800, which is not that of the first bar of the history. -/
lemma length_le_of_file_eq (codec : ParquetCodec)
    (hstrict : history.Pairwise fun a b => a.dateKey < b.dateKey)
    (hdated : ∀ b ∈ history, b.Dated category)
    (hfits : ∀ b ∈ history, Format.tdx.fits b = true)
    (h : fileOf codec .tdx (newestFirst 800 history) = fileOf codec .tdx history) :
    history.length ≤ 800 := by
  by_contra hlong
  have hdates := dates_eq_of_fileOf_eq codec
    (fun b hb => ⟨hdated b (mem_of_mem_newestFirst hb), hfits b (mem_of_mem_newestFirst hb)⟩)
    (fun b hb => ⟨hdated b hb, hfits b hb⟩) h
  have hfirst := congrArg (fun dates => dates[0]?) hdates
  simp only [List.getElem?_map] at hfirst
  rw [getElem?_newestFirst_zero (by decide) (by omega), List.getElem?_eq_getElem (by omega),
    List.getElem?_eq_getElem (by omega), Option.map_some, Option.map_some, Option.some.injEq]
    at hfirst
  have hlt := List.pairwise_iff_getElem.mp hstrict 0 (history.length - 800) (by omega) (by omega)
    (by omega)
  omega

/-- The new file holds the bars that the paging loop collects. -/
lemma downloadedFile_newestFirst (codec : ParquetCodec)
    (hfits : ∀ b ∈ history, Format.tdx.fits b = true) (hne : history ≠ []) :
    downloadedFile codec .tdx (newestFirst 800 history) =
      some (fileOf codec .tdx (newestFirst 800 history)) := by
  have hall : Format.tdx.kept (newestFirst 800 history) = newestFirst 800 history :=
    Format.kept_eq_self <| List.all_eq_true.mpr fun b hb => hfits b (mem_of_mem_newestFirst hb)
  have hcollected : newestFirst 800 history ≠ [] := newestFirst_ne_nil (by decide) hne
  rw [downloadedFile_eq codec (by rwa [hall]), hall]

/-- When the new file holds the history.

**Proof sketch.** The file holds the bars in the order in which they were fetched, page after page
from the newest one. These are the history exactly if it fits on one page, because otherwise the
dates are not ascending (`length_le_of_file_eq`). The date that is read last is that of the last
record, which is read as written up to 2052 (`lastDate_eq_iff`). -/
lemma fileHolds_iff (codec : ParquetCodec)
    (hstrict : history.Pairwise fun a b => a.dateKey < b.dateKey)
    (hdated : ∀ b ∈ history, b.Dated category)
    (hfits : ∀ b ∈ history, Format.tdx.fits b = true) :
    FileHolds (downloadedFile codec .tdx (newestFirst 800 history)) history ↔
      history.length ≤ 800 ∧ ∀ b, history.getLast? = some b → b.year ≤ 2052 := by
  by_cases hnil : history = []
  · subst hnil
    rw [newestFirst_of_le (by decide) (Nat.zero_le 800)]
    exact iff_of_true ⟨⟨[], rfl, rfl⟩, fun b hb => by cases hb⟩
      ⟨Nat.zero_le _, fun b hb => by cases hb⟩
  have hcontent := downloadedFile_newestFirst codec hfits hnil
  -- the date that is read from a file of the whole history
  have hnewest : ∀ b, history.getLast? = some b →
      ((some (fileOf codec .tdx history)).bind lastDateTdx =
        some (formatDate b.year b.month b.day) ↔ b.year ≤ 2052) := by
    intro b hb
    obtain ⟨init, hinit⟩ := List.getLast?_eq_some_iff.mp hb
    have hdate := hdated b (List.mem_of_getLast? hb)
    have hread : getExistingLastDate codec .tdx (fileOf codec .tdx (init ++ [b])) =
        Format.tdx.lastDate b := getExistingLastDate_fileOf codec fun a ha =>
      ⟨hdated a (hinit ▸ ha), hfits a (hinit ▸ ha)⟩
    rw [← lastDate_eq_iff hdate, ← hdate.datePart_eq, ← hread, ← hinit]
    rfl
  rw [hcontent]
  constructor
  · rintro ⟨hrecords, hlast⟩
    have hsame := (records_iff codec hfits _).mp hrecords
    refine ⟨length_le_of_file_eq codec hstrict hdated hfits hsame, fun b hb => ?_⟩
    rw [hsame] at hlast
    exact (hnewest b hb).mp (hlast b hb)
  · rintro ⟨hlen, hyear⟩
    rw [newestFirst_of_le (by decide) hlen]
    exact ⟨(records_iff codec hfits _).mpr rfl, fun b hb => (hnewest b hb).mpr (hyear b hb)⟩

/-- **The first download of daily bars makes a file that holds the history** exactly when the
history fits on one page and its newest bar is of the year 2052 at the latest. The history is
strictly ascending, its bars fit into records, and the servers answer by its slices.

**Proof sketch.** A download without a file writes all bars that it has fetched, in the order of the
pages (`downloadOne_new`), and `fileHolds_iff` says when such a file holds the history. -/
theorem first_download_iff (codec : ParquetCodec) {client : BarsClient σ} {market : UInt8}
    {code : Text} (hserve : client.Serves market code .daily history)
    (hstrict : history.Pairwise fun a b => a.dateKey < b.dateKey)
    (hdated : ∀ b ∈ history, b.Dated Category.daily.code)
    (hfits : ∀ b ∈ history, Format.tdx.fits b = true) {fuel : ℕ}
    (hfuel : history.length / 800 < fuel) {s : DownloadState σ}
    (hnone : s.files (dataPath ⟨.tdx, 0⟩ market code .daily) = none) :
    ∃ r s', downloadOne codec client ⟨.tdx, 0⟩ market code .daily none none fuel s =
        some (r, s') ∧
      (FileHolds (s'.files (dataPath ⟨.tdx, 0⟩ market code .daily)) history ↔
        history.length ≤ 800 ∧ ∀ b, history.getLast? = some b → b.year ≤ 2052) := by
  obtain ⟨r, s', hrun, hfiles⟩ := downloadOne_new hserve hfuel hnone
  refine ⟨r, s', hrun, ?_⟩
  rw [hfiles, Function.update_self]
  exact fileHolds_iff codec hstrict hdated hfits

/-! ## A history of 801 days -/

/-- A client whose servers have a history. -/
def sliceClient (history : List SecurityBar) : BarsClient Unit where
  getSecurityBars _ _ _ offset count _ w := (.ok (slice history offset count), w)

/-- It serves the history. -/
lemma sliceClient_serves (history : List SecurityBar) (market : UInt8) (code : Text)
    (category : Category) : (sliceClient history).Serves market code category history :=
  fun _ _ w => ⟨w, rfl⟩

/-- A downloader before its first download. -/
def emptyState : DownloadState Unit := ⟨(), fun _ => none, none, 0, none⟩

/-- The bars of encodable records are dated. -/
lemma bar_dated {maxValidYear : ℕ} (hmax : maxValidYear < 10000) {r : KLineRecord}
    (hr : r.Encodable maxValidYear category) : (r.bar category).Dated category where
  year := ⟨hr.year.1, hr.year.2.trans_lt hmax⟩
  month := hr.month
  day := hr.day
  datetime := rfl

/-- The bars of the 801 days are dated. -/
lemma manyDays_dated : ∀ b ∈ barsOf 4 manyDays, b.Dated Category.daily.code := by
  intro b hb
  obtain ⟨r, hr, rfl⟩ := List.mem_map.mp hb
  exact bar_dated (by decide) (manyDays_encodable r hr)

/-- The bars of the 801 days fit into records. -/
lemma manyDays_fit : ∀ b ∈ barsOf 4 manyDays, Format.tdx.fits b = true := by
  intro b hb
  rw [fits_tdx_iff (manyDays_dated b hb)]
  obtain ⟨r, hr, rfl⟩ := List.mem_map.mp hb
  obtain ⟨i, -, rfl⟩ := List.mem_map.mp hr
  have hwords : (float32Bits (getVolume 0)).isSome ∧ 0 ≤ pyInt (getVolume 0) ∧
      pyInt (getVolume 0) < 2 ^ 32 := by
    decide +kernel
  refine ⟨?_, hwords⟩
  simp only [KLineRecord.bar, dayRecord, flatRecord]
  split <;> decide +kernel

/-- The paging loop collects the 800 newer days and then the oldest one. -/
lemma newestFirst_manyDays : newestFirst 800 (barsOf 4 manyDays) =
    slice (barsOf 4 manyDays) 0 800 ++ [(dayRecord 0).bar 4] := by
  have holdest : slice (barsOf 4 manyDays) 800 1 = [(dayRecord 0).bar 4] := by decide +kernel
  rw [newestFirst, length_manyDays, pages_of_pos (by decide) (by decide),
    pages_of_pos (by decide) (by decide), ← holdest]
  simp

/-- For 801 bars the oldest one is written last, so that its date is taken for the date of the
newest one.

**Proof sketch.** The file is that of the bars as they are collected: the newest 800 and then the
oldest one. So the date read back is that of the oldest bar, and the file is not that of the
history, which is longer than 800 bars. -/
theorem oldest_bar_last :
    (barsOf 4 manyDays).Pairwise (fun a b => a.dateKey < b.dateKey) ∧
    (∀ b ∈ barsOf 4 manyDays, b.Dated Category.daily.code ∧ Format.tdx.fits b = true) ∧
    (sliceClient (barsOf 4 manyDays)).Serves 1 "600519".toList .daily (barsOf 4 manyDays) ∧
    ∃ r s', downloadOne ParquetCodec.enumerated (sliceClient (barsOf 4 manyDays)) ⟨.tdx, 0⟩ 1
        "600519".toList .daily none none 2 emptyState = some (r, s') ∧
      (s'.files (dataPath ⟨.tdx, 0⟩ 1 "600519".toList .daily)).bind lastDateTdx =
        some "1990-01-01".toList ∧
      ¬ FileHolds (s'.files (dataPath ⟨.tdx, 0⟩ 1 "600519".toList .daily))
        (barsOf 4 manyDays) := by
  have hserve := sliceClient_serves (barsOf 4 manyDays) 1 "600519".toList .daily
  have hlen := length_manyDays
  have hbars := fun b hb => (⟨manyDays_dated b hb, manyDays_fit b hb⟩ : _ ∧ _)
  refine ⟨manyDays_strict, hbars, hserve, ?_⟩
  have hnew : ∃ r s', downloadOne ParquetCodec.enumerated (sliceClient (barsOf 4 manyDays))
      ⟨.tdx, 0⟩ 1 "600519".toList .daily none none 2 emptyState = some (r, s') ∧ _ :=
    downloadOne_new hserve (by rw [hlen]; decide) rfl
  obtain ⟨r, s', hrun, hfiles⟩ := hnew
  refine ⟨r, s', hrun, ?_, ?_⟩
  · have hne : barsOf 4 manyDays ≠ [] := List.ne_nil_of_length_pos (by omega)
    have hcollected : ∀ b ∈ slice (barsOf 4 manyDays) 0 800 ++ [(dayRecord 0).bar 4],
        b.Dated Category.daily.code ∧ Format.tdx.fits b = true := fun b hb =>
      hbars b (mem_of_mem_newestFirst (newestFirst_manyDays ▸ hb))
    have hread := getExistingLastDate_fileOf ParquetCodec.enumerated hcollected
    have hdate : Format.tdx.lastDate ((dayRecord 0).bar 4) = some "1990-01-01".toList := by
      decide +kernel
    rw [hfiles, Function.update_self, downloadedFile_newestFirst _ manyDays_fit hne,
      newestFirst_manyDays, Option.bind_some]
    exact hread.trans hdate
  · rw [hfiles, Function.update_self, fileHolds_iff _ manyDays_strict manyDays_dated manyDays_fit]
    omega

/-- The first two days make a file that holds them. -/
theorem first_download_iff_two_days :
    ∃ r s', downloadOne ParquetCodec.enumerated (sliceClient ((barsOf 4 manyDays).take 2)) ⟨.tdx, 0⟩
        1 "600519".toList .daily none none 1 emptyState = some (r, s') ∧
      (FileHolds (s'.files (dataPath ⟨.tdx, 0⟩ 1 "600519".toList .daily))
          ((barsOf 4 manyDays).take 2) ↔
        ((barsOf 4 manyDays).take 2).length ≤ 800 ∧
          ∀ b, ((barsOf 4 manyDays).take 2).getLast? = some b → b.year ≤ 2052) :=
  first_download_iff ParquetCodec.enumerated (sliceClient_serves _ 1 "600519".toList .daily)
    (manyDays_strict.sublist (List.take_sublist 2 _))
    (fun b hb => manyDays_dated b (List.mem_of_mem_take hb))
    (fun b hb => manyDays_fit b (List.mem_of_mem_take hb))
    (by
      rw [List.length_take]
      exact (Nat.div_le_div_right (Nat.min_le_left _ _)).trans_lt (by decide))
    rfl

end Tdxrs
