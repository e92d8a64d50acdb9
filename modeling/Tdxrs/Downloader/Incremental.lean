import Tdxrs.Downloader.FirstDownload
import Tdxrs.Protocol.Multiplier

set_option relaxedAutoImplicit false
set_option autoImplicit false

/-!
# Incremental downloads

A second download compares dates only: of the bars of the servers it keeps those dated after the
last bar in the file. Bars that came later on the day of that bar are left out for good, so that
the file is the one of a full download exactly when the history was cut at the end of a day. A
`.day` file whose last date cannot be read, from the year 2053 on, is written anew.

## Main definitions

* `Tdxrs.CutSafe` — bars that can be written behind a given one.
* `Tdxrs.UpdateSafe`, `Tdxrs.Settled` — histories between which an update is right.

## Main results

* `Tdxrs.file_eq_iff` — the newer bars behind a file against all bars.
* `Tdxrs.update_iff` — an update against a full download.
* `Tdxrs.updateSafe_iff_of_fits` — what this comes to when all bars fit.
-/

namespace Tdxrs

open Window

variable {σ : Type} {category : UInt8} {format : Format} {last : SecurityBar}
  {done rest : List SecurityBar}

/-! ## Files behind which bars are written -/

/-- The bars that are written are dated and fit. -/
lemma dated_fits_of_mem_kept {bars : List SecurityBar} (hdated : ∀ b ∈ bars, b.Dated category) :
    ∀ b ∈ format.kept bars, b.Dated category ∧ format.fits b = true :=
  fun b hb => ⟨hdated b ((format.kept_prefix bars).subset hb), Format.fits_of_mem_kept hb⟩

/-- A file that does not change with the bars before it has none before it. -/
lemma eq_nil_of_fileOf_append (codec : ParquetCodec) {x y : List SecurityBar}
    (hx : ∀ b ∈ x, b.Dated category ∧ format.fits b = true)
    (hy : ∀ b ∈ y, b.Dated category ∧ format.fits b = true)
    (h : fileOf codec format (x ++ y) = fileOf codec format y) : x = [] := by
  have hdates := dates_eq_of_fileOf_eq codec (List.forall_mem_append.mpr ⟨hx, hy⟩) hy h
  rwa [List.map_append, List.append_left_eq_self, List.map_eq_nil_iff] at hdates

/-- Bars that can be written behind a given one by date: all are dated later, or neither the first
one nor the first later one fits, so that nothing is written in either case. -/
def CutSafe (format : Format) (last : SecurityBar) (rest : List SecurityBar) : Prop :=
  (∀ b ∈ rest, last.dateKey < b.dateKey) ∨
    (∃ b, rest.head? = some b ∧ format.fits b = false) ∧
      ∀ b, (rest.find? fun b => last.dateKey < b.dateKey) = some b → format.fits b = false

/-- Behind such a bar the later bars are written as all bars are. -/
lemma CutSafe.kept_eq (h : CutSafe format last rest) :
    format.kept (rest.filter fun b => last.dateKey < b.dateKey) = format.kept rest := by
  rcases h with hlater | ⟨⟨b, hhead, hfits⟩, hfirst⟩
  · rw [List.filter_eq_self.mpr (by simpa using hlater)]
  · obtain ⟨tail, rfl⟩ := List.head?_eq_some_iff.mp hhead
    rw [Format.kept_cons_of_not_fits hfits]
    rw [← List.head?_filter] at hfirst
    cases hnewer : (b :: tail).filter fun b => last.dateKey < b.dateKey with
    | nil => exact format.kept_nil
    | cons n newer =>
      rw [hnewer] at hfirst
      exact Format.kept_cons_of_not_fits (hfirst n rfl) newer

/-- Conversely, when the later bars that are written have the dates of all that are, then the bars
can be written behind the given one.

**Proof sketch.** If the first bar is later than the given one, all are, since the bars ascend. If
it is not, it cannot have been written, as its date would be missing among the later ones; so it
does not fit and nothing is written of all bars. Then nothing must be written of the later ones
either, so the first of these does not fit. -/
lemma CutSafe.of_dates (hasc : Ascending rest)
    (hparquet : format = .parquet → rest.all format.fits = true)
    (h : (format.kept (rest.filter fun b => last.dateKey < b.dateKey)).map SecurityBar.dateKey =
      (format.kept rest).map SecurityBar.dateKey) : CutSafe format last rest := by
  have hnewer : ∀ b ∈ format.kept (rest.filter fun b => last.dateKey < b.dateKey),
      last.dateKey < b.dateKey := by
    intro b hb
    simpa using (List.mem_filter.mp ((format.kept_prefix _).subset hb)).2
  cases rest with
  | nil => exact .inl (by simp)
  | cons r rest =>
    by_cases hlt : last.dateKey < r.dateKey
    · refine .inl (List.forall_mem_cons.mpr ⟨hlt, fun b hb => ?_⟩)
      exact hlt.trans_le ((List.pairwise_cons.mp hasc).1 b hb)
    have hparquet' : format = .parquet → rest.all format.fits = true := fun hp =>
      (Bool.and_eq_true_iff.mp (List.all_cons ▸ hparquet hp)).2
    cases hfits : format.fits r with
    | true =>
      -- the first bar is written, but its date is not among those of the later ones
      rw [Format.kept_cons_of_fits hfits hparquet', List.map_cons] at h
      obtain ⟨n, _, hn, hdate, -⟩ := List.map_eq_cons_iff.mp h
      have := hnewer n (hn ▸ List.mem_cons_self)
      omega
    | false =>
      refine .inr ⟨⟨r, rfl, hfits⟩, fun b hb => ?_⟩
      rw [Format.kept_cons_of_not_fits hfits, List.map_nil, List.map_eq_nil_iff] at h
      rw [← List.head?_filter] at hb
      obtain ⟨newer, hcons⟩ := List.head?_eq_some_iff.mp hb
      by_contra hb'
      have hb' : format.fits b = true := by simpa using hb'
      have hall : format = .parquet → newer.all format.fits = true := fun hp =>
        List.all_eq_true.mpr fun a ha => List.all_eq_true.mp (hparquet hp) a
          (List.mem_of_mem_filter (hcons ▸ List.mem_cons_of_mem b ha))
      rw [hcons, Format.kept_cons_of_fits hb' hall] at h
      cases h

/-- **The later bars written behind a file make the file of all bars** exactly when they can be
written behind its last bar, and a table takes all bars.

**Proof sketch.** If a table does not take all bars, no file of all bars is made, and the two sides
differ. Otherwise both files hold the old bars and then what is kept of the later ones or of all;
equal files have equal dates (`dates_eq_of_fileOf_eq`), and from the dates `CutSafe.of_dates`
concludes. -/
theorem file_eq_iff (codec : ParquetCodec) (hdated : ∀ b ∈ done ++ rest, b.Dated category)
    (hfits : ∀ b ∈ done, format.fits b = true) (hasc : Ascending rest) :
    some (fileOf codec format
        (done ++ format.kept (rest.filter fun b => last.dateKey < b.dateKey))) =
        newFile codec format (done ++ rest) ↔
      CutSafe format last rest ∧ (format = .parquet → rest.all format.fits = true) := by
  have hall : (done ++ rest).all format.fits = rest.all format.fits := by
    rw [List.all_append, List.all_eq_true.mpr hfits, Bool.true_and]
  by_cases hparquet : format = .parquet → rest.all format.fits = true
  · have hnew : newFile codec format (done ++ rest) =
        some (fileOf codec format (done ++ format.kept rest)) := by
      rw [newFile_eq codec fun hp => hall ▸ hparquet hp, Format.kept_append hfits hparquet]
    rw [hnew, Option.some.injEq, and_iff_left hparquet]
    refine ⟨fun h => ?_, fun h => by rw [h.kept_eq]⟩
    obtain ⟨hdone, hrest⟩ := List.forall_mem_append.mp hdated
    have hdone' : ∀ b ∈ done, b.Dated category ∧ format.fits b = true :=
      fun b hb => ⟨hdone b hb, hfits b hb⟩
    have hnewer : ∀ b ∈ format.kept (rest.filter fun b => last.dateKey < b.dateKey),
        b.Dated category ∧ format.fits b = true :=
      dated_fits_of_mem_kept fun b hb => hrest b (List.mem_of_mem_filter hb)
    have hdates := dates_eq_of_fileOf_eq codec (List.forall_mem_append.mpr ⟨hdone', hnewer⟩)
      (List.forall_mem_append.mpr ⟨hdone', dated_fits_of_mem_kept hrest⟩) h
    rw [List.map_append, List.map_append, List.append_cancel_left_eq] at hdates
    exact CutSafe.of_dates hasc hparquet hdates
  · have hnew : newFile codec format (done ++ rest) = none := by
      rw [newFile, if_pos]
      rw [hall]
      exact Classical.not_imp.mp hparquet
    rw [hnew]
    exact iff_of_false (fun h => by cases h) (fun h => hparquet h.2)

/-! ## Updates -/

/-- Histories between which an update is right: with the last bar that the first download wrote,
if it wrote any, either the file is written anew because the date of that bar cannot be read, or
its date is read and the bars behind it can be written by date. -/
def UpdateSafe (format : Format) (h1 h2 : List SecurityBar) : Prop :=
  ∀ last, (format.kept h1).getLast? = some last →
    (format = .tdx ∧ 2053 ≤ last.year ∧ last.year ≤ 6886) ∨
      (format = .tdx → last.year ≤ 2052) ∧
        CutSafe format last (h2.drop (format.kept h1).length) ∧
        (format = .parquet → h2.all format.fits = true)

/-- A history of which nothing is left to download: a bar was written whose date can be read, and
no bar is later. -/
def Settled (format : Format) (history : List SecurityBar) : Prop :=
  history = [] ∨ ∃ last, (format.kept history).getLast? = some last ∧
    (format = .tdx → last.year ≤ 2052) ∧ ∀ b ∈ history, b.dateKey ≤ last.dateKey

variable {history : List SecurityBar}

/-- **Between histories of bars that all fit**, with dates that can be read, an update is right
exactly when no bar behind the first history is of its last day.

**Proof sketch.** If all bars fit, all of the first history are kept, and of the ways to be safe
only the one remains in which every bar behind is of a later day. -/
theorem updateSafe_iff_of_fits {h1 h2 : List SecurityBar} (hpre : h1 <+: h2)
    (hfits : h2.all format.fits = true) (hyear : ∀ b ∈ h1, format = .tdx → b.year ≤ 2052) :
    UpdateSafe format h1 h2 ↔
      ∀ last, h1.getLast? = some last → ∀ b ∈ h2.drop h1.length, last.dateKey < b.dateKey := by
  have hkept : format.kept h1 = h1 := Format.kept_eq_self <| List.all_eq_true.mpr fun b hb =>
    List.all_eq_true.mp hfits b (hpre.subset hb)
  unfold UpdateSafe
  rw [hkept]
  refine forall₂_congr fun last hlast => ?_
  have hlastYear := hyear last (List.mem_of_getLast? hlast)
  rw [or_iff_right (fun h => by have := hlastYear h.1; omega), and_iff_right hlastYear,
    and_iff_left fun _ => hfits]
  refine or_iff_left ?_
  -- a bar that does not fit is excluded
  rintro ⟨⟨b, hhead, hb⟩, -⟩
  have hmem := List.mem_of_mem_drop (List.mem_of_mem_head? hhead)
  rw [List.all_eq_true.mp hfits b hmem] at hb
  cases hb

/-- Whether an update is right depends on the last bar that the first download wrote. -/
lemma updateSafe_iff_of_last {h1 h2 : List SecurityBar}
    (hlast : (format.kept h1).getLast? = some last) :
    UpdateSafe format h1 h2 ↔ (format = .tdx ∧ 2053 ≤ last.year ∧ last.year ≤ 6886) ∨
      (format = .tdx → last.year ≤ 2052) ∧
        CutSafe format last (h2.drop (format.kept h1).length) ∧
        (format = .parquet → h2.all format.fits = true) := by
  simp only [UpdateSafe, hlast, Option.some.injEq, forall_eq']

/-- So does whether nothing is left to download. -/
lemma settled_iff_of_last (hlast : (format.kept history).getLast? = some last) :
    Settled format history ↔
      (format = .tdx → last.year ≤ 2052) ∧ ∀ b ∈ history, b.dateKey ≤ last.dateKey := by
  have hne : history ≠ [] :=
    List.ne_nil_of_mem ((format.kept_prefix history).subset (List.mem_of_getLast? hlast))
  simp only [Settled, hlast, Option.some.injEq, exists_eq_left', hne, false_or]

/-- The date that is read after a download into a directory without the file.

**Proof sketch.** If no bar is kept, there is no file or an empty one, and no date is read.
Otherwise the file holds the bars that are kept, and the date is read from the last of them
(`getExistingLastDate_fileOf`). -/
lemma existing_downloaded (codec : ParquetCodec) (hdated : ∀ b ∈ history, b.Dated category) :
    (downloadedFile codec format history).bind (getExistingLastDate codec format) =
      (format.kept history).getLast?.bind format.lastDate := by
  rcases List.eq_nil_or_concat (format.kept history) with hkept | ⟨init, last, hkept⟩
  · -- nothing was written
    have hfile : downloadedFile codec format history = none ∨
        downloadedFile codec format history = some (fileOf codec format []) := by
      unfold downloadedFile newFile
      split
      · exact .inl rfl
      · split
        · exact .inl rfl
        · exact .inr (by rw [hkept])
    rw [hkept]
    rcases hfile with hfile | hfile
    · rw [hfile]
      rfl
    · rw [hfile, Option.bind_some, getExistingLastDate_fileOf_nil]
      rfl
  · rw [List.concat_eq_append] at hkept
    have hbars : ∀ b ∈ init ++ [last], b.Dated category ∧ format.fits b = true :=
      hkept ▸ dated_fits_of_mem_kept hdated
    rw [downloadedFile_eq codec (by simp [hkept]), hkept, Option.bind_some,
      getExistingLastDate_fileOf codec hbars, List.getLast?_concat]
    rfl

/-- What the date of a bar can be read as: the date itself, nothing, or a date before all bars. -/
lemma lastDate_cases (format : Format) {b : SecurityBar} (hb : b.Dated category) :
    (format = .tdx → b.year ≤ 2052) ∧ format.lastDate b = some b.datePart ∨
      (format = .tdx ∧ 2053 ≤ b.year ∧ b.year ≤ 6886) ∧ format.lastDate b = none ∨
      (format = .tdx ∧ 6887 ≤ b.year) ∧ ∃ c text, format.lastDate b = some (c :: text) ∧
        ∀ a : SecurityBar, a.Dated category → c :: text < a.datePart := by
  by_cases hread : format = .tdx → b.year ≤ 2052
  · exact .inl ⟨hread, lastDate_eq hb hread⟩
  · obtain ⟨rfl, hlate⟩ := Classical.not_imp.mp hread
    by_cases hsix : b.year ≤ 6886
    · exact .inr (.inl ⟨⟨rfl, by omega, hsix⟩, lastDate_tdx_none hb ⟨by omega, hsix⟩⟩)
    · exact .inr (.inr ⟨⟨rfl, by omega⟩, lastDate_tdx_misread hb (by omega)⟩)

section Update

variable {market : UInt8} {code : Text} {period : Category} {h1 h2 : List SecurityBar}
  {s : DownloadState σ}

/-- What a second download, of a history that goes on after the first one, does with the bars that
it fetched. -/
def updateResult (codec : ParquetCodec) (format : Format) (market : UInt8) (code : Text)
    (period : Category) (h1 h2 : List SecurityBar) (s : DownloadState σ) :
    Except PyError ℕ × DownloadState σ :=
  storeFetched codec ⟨format, 0⟩ market code period none none
    ((format.kept h1).getLast?.bind format.lastDate) h2 s

/-- The second download does what a full download does, and is done only if the histories are
empty, when no date is read.

**Proof sketch.** No date is read because no bar was kept, or because the last one kept has none. A
parquet file is then there only if the first history kept a bar, whose date it would have; so there
is none, and the bars are written anew. -/
lemma updateResult_anew (codec : ParquetCodec)
    (hnone : (format.kept h1).getLast?.bind format.lastDate = none)
    (hpre : h1 <+: h2)
    (hfile : s.files (dataPath ⟨format, 0⟩ market code period) = downloadedFile codec format h1) :
    (updateResult codec format market code period h1 h2 s).2.files =
        Function.update s.files (dataPath ⟨format, 0⟩ market code period)
          (downloadedFile codec format h2) ∧
      ((updateResult codec format market code period h1 h2 s).1 = .ok 0 ∧
          (updateResult codec format market code period h1 h2 s).2 = s ↔ h2 = []) := by
  rw [updateResult, hnone]
  refine storeFetched_new codec h2 ?_
  rw [hfile]
  rintro (rfl | rfl)
  · rw [List.prefix_nil.mp hpre]
    rfl
  · refine downloadedFile_parquet codec ?_
    cases hlast : (Format.parquet.kept h1).getLast? with
    | none => exact List.getLast?_eq_none_iff.mp hlast
    | some last =>
      rw [hlast] at hnone
      cases hnone

/-- With a date, it writes the bars dated after it behind those of the first one.

**Proof sketch.** A date was read, so some bar was kept and the file is that of the first history.
Behind it the newer bars are written; if there are none, the call returns zero and leaves the state
as it is. -/
lemma updateResult_append (codec : ParquetCodec) (h2 : List SecurityBar) (s : DownloadState σ)
    {c : Char} {text : Text}
    (hsome : (format.kept h1).getLast?.bind format.lastDate = some (c :: text))
    (hfile : s.files (dataPath ⟨format, 0⟩ market code period) = downloadedFile codec format h1) :
    (updateResult codec format market code period h1 h2 s).2.files =
        Function.update s.files (dataPath ⟨format, 0⟩ market code period)
          (some (fileOf codec format (format.kept h1 ++
            format.kept (h2.filter fun b => c :: text < b.datePart)))) ∧
      ((updateResult codec format market code period h1 h2 s).1 = .ok 0 ∧
          (updateResult codec format market code period h1 h2 s).2 = s ↔
        h2.filter (fun b => c :: text < b.datePart) = []) := by
  have hkept : format.kept h1 ≠ [] := by
    intro hkept
    rw [hkept] at hsome
    cases hsome
  rw [downloadedFile_eq codec hkept] at hfile
  obtain ⟨hfiles, hnil, hne⟩ := storeFetched_append h2 c text hfile
  rw [updateResult, hsome]
  refine ⟨hfiles, ⟨fun h => ?_, fun h => ?_⟩⟩
  · by_contra hnewer
    exact hne hnewer h.1
  · rw [hnil h]
    exact ⟨rfl, rfl⟩

/-- The bars after the date of a bar, by their dates. -/
lemma filter_datePart (hdated : ∀ b ∈ h2, b.Dated category) (hmem : last ∈ h2) :
    (h2.filter fun b => last.datePart < b.datePart) =
      h2.filter fun b => last.dateKey < b.dateKey := by
  refine List.filter_congr fun b hb => ?_
  rw [decide_eq_decide, (hdated last hmem).datePart_lt_iff (hdated b hb)]

/-- No bar up to the last one written is dated after it. -/
lemma filter_append_rest (hasc : Ascending (done ++ rest)) (hlast : done.getLast? = some last) :
    ((done ++ rest).filter fun b => last.dateKey < b.dateKey) =
      rest.filter fun b => last.dateKey < b.dateKey := by
  have hdone : (done.filter fun b => last.dateKey < b.dateKey) = [] := by
    rw [List.filter_eq_nil_iff]
    intro b hb
    have hle := Ascending.le_last (hasc.sublist (List.sublist_append_left done rest)) hlast b hb
    simpa using hle
  rw [List.filter_append, hdone, List.nil_append]

/-- The bars dated after the last one written make the file of a full download exactly when they
can be written behind it. -/
lemma appended_iff (codec : ParquetCodec) (hdated : ∀ b ∈ h2, b.Dated category)
    (hasc : Ascending h2) (hpre : h1 <+: h2) (hlast : (format.kept h1).getLast? = some last) :
    some (fileOf codec format
        (format.kept h1 ++ format.kept (h2.filter fun b => last.dateKey < b.dateKey))) =
        downloadedFile codec format h2 ↔
      CutSafe format last (h2.drop (format.kept h1).length) ∧
        (format = .parquet → h2.all format.fits = true) := by
  have hfit : ∀ b ∈ format.kept h1, format.fits b = true := fun b => Format.fits_of_mem_kept
  obtain ⟨rest, rfl⟩ := (format.kept_prefix h1).trans hpre
  have hne : format.kept h1 ++ rest ≠ [] :=
    List.ne_nil_of_mem (List.mem_append_left rest (List.mem_of_getLast? hlast))
  rw [downloadedFile, if_neg hne, filter_append_rest hasc hlast, List.drop_left, List.all_append,
    List.all_eq_true.mpr hfit, Bool.true_and]
  exact file_eq_iff codec hdated hfit (hasc.sublist (List.sublist_append_right _ rest))

/-- All bars written behind some of them never make the file of a full download. -/
lemma appended_all_ne (codec : ParquetCodec) (hdated : ∀ b ∈ h2, b.Dated category)
    (hpre : h1 <+: h2) (hlast : (Format.tdx.kept h1).getLast? = some last) :
    some (fileOf codec .tdx (Format.tdx.kept h1 ++ Format.tdx.kept h2)) ≠
      downloadedFile codec .tdx h2 := by
  have hne : h2 ≠ [] := List.ne_nil_of_mem
    (hpre.subset ((Format.tdx.kept_prefix h1).subset (List.mem_of_getLast? hlast)))
  rw [downloadedFile, if_neg hne, newFile_eq codec (fun h => by cases h), Ne, Option.some.injEq]
  intro hsame
  have hkept := eq_nil_of_fileOf_append codec
    (dated_fits_of_mem_kept fun b hb => hdated b (hpre.subset hb))
    (dated_fits_of_mem_kept hdated) hsame
  rw [hkept] at hlast
  cases hlast

/-- **The second download against a full download.** Its file is the one of a full download exactly
when the update is right, and nothing is done for the same history exactly when it is settled.

**Proof sketch.** By what is read as the date of the last bar written (`lastDate_cases`): its date,
then the later bars are written behind the file; nothing, then the file is written anew; or a date
before all bars, then all of them are written once more. -/
theorem updateResult_iff (codec : ParquetCodec) (hdated : ∀ b ∈ h2, b.Dated category)
    (hasc : Ascending h2) (hpre : h1 <+: h2)
    (hfile : s.files (dataPath ⟨format, 0⟩ market code period) = downloadedFile codec format h1) :
    ((updateResult codec format market code period h1 h2 s).2.files =
        Function.update s.files (dataPath ⟨format, 0⟩ market code period)
          (downloadedFile codec format h2) ↔ UpdateSafe format h1 h2) ∧
      (h1 = h2 → ((updateResult codec format market code period h1 h2 s).1 = .ok 0 ∧
        (updateResult codec format market code period h1 h2 s).2 = s ↔ Settled format h1)) := by
  cases hlast : (format.kept h1).getLast? with
  | none =>
    -- nothing was written
    obtain ⟨hfiles, hdone⟩ := updateResult_anew codec (by rw [hlast]; rfl) hpre hfile
    refine ⟨iff_of_true hfiles fun last h => ?_, ?_⟩
    · rw [hlast] at h
      cases h
    · rintro rfl
      rw [hdone, Settled, hlast]
      simp
  | some last =>
    have hmem : last ∈ h2 :=
      hpre.subset ((format.kept_prefix h1).subset (List.mem_of_getLast? hlast))
    rw [updateSafe_iff_of_last hlast, settled_iff_of_last hlast]
    rcases lastDate_cases format (hdated last hmem) with
      ⟨hyear, hread⟩ | ⟨hyear, hread⟩ | ⟨hyear, c, text, hread, hbefore⟩
    · -- the bars after the last date are written behind the file
      obtain ⟨c, text, -, hcons⟩ := (hdated last hmem).exists_datePart_cons
      obtain ⟨hfiles, hdone⟩ := updateResult_append codec h2 s
        (by rw [hlast, Option.bind_some, hread, hcons]) hfile
      rw [← hcons, filter_datePart hdated hmem] at hfiles hdone
      constructor
      · rw [hfiles, (Function.update_injective _ _).eq_iff,
          or_iff_right (fun h => by have := hyear h.1; omega), and_iff_right hyear]
        exact appended_iff codec hdated hasc hpre hlast
      · rintro rfl
        rw [hdone, and_iff_right hyear, List.filter_eq_nil_iff]
        simp
    · -- the file is written anew
      obtain ⟨hfiles, hdone⟩ := updateResult_anew codec
        (by rw [hlast, Option.bind_some, hread]) hpre hfile
      refine ⟨iff_of_true hfiles (.inl hyear), fun _ => ?_⟩
      rw [hdone]
      exact iff_of_false (List.ne_nil_of_mem hmem) fun h => by have := h.1 hyear.1; omega
    · -- all bars are written behind the file once more
      obtain ⟨rfl, hlate⟩ := hyear
      obtain ⟨hfiles, hdone⟩ := updateResult_append codec h2 s
        (by rw [hlast, Option.bind_some, hread]) hfile
      have hnewer : (h2.filter fun b => c :: text < b.datePart) = h2 :=
        List.filter_eq_self.mpr fun b hb => decide_eq_true (hbefore b (hdated b hb))
      rw [hnewer] at hfiles hdone
      constructor
      · rw [hfiles, (Function.update_injective _ _).eq_iff]
        refine iff_of_false (appended_all_ne codec hdated hpre hlast) ?_
        rintro (h | h)
        · omega
        · have := h.1 rfl
          omega
      · intro _
        rw [hdone]
        exact iff_of_false (List.ne_nil_of_mem hmem) fun h => by have := h.1 rfl; omega

/-- **An update makes the file of a full download, and a second one nothing**, exactly when the
histories are safe to update between and a history that stays the same is settled. The first
history is a beginning of the second one, which is ascending by dates and fits on one page, and the
servers answer by slices of the first history and then of the second one.

**Proof sketch.** The first download and the one from scratch write the files of their histories
(`downloadOne_new`), since a history of one page is fetched in order. The second download reads the
date of the last bar that the first one kept (`existing_downloaded`), and writes what is later than
it behind the file; `updateResult_iff` says when this makes the file of the whole second history,
and when a history that stays the same changes nothing. -/
theorem update_iff (codec : ParquetCodec) (format : Format) {client1 client2 : BarsClient σ}
    (hserve1 : client1.Serves market code period h1)
    (hserve2 : client2.Serves market code period h2) (hpre : h1 <+: h2) (hasc : Ascending h2)
    (hlen : h2.length ≤ 800) (hdated : ∀ b ∈ h2, b.Dated period.code) {fuel : ℕ}
    (hfuel : 1 < fuel) (hnone : s.files (dataPath ⟨format, 0⟩ market code period) = none) :
    ∃ r1 s1 r2 s2 r s',
      downloadOne codec client1 ⟨format, 0⟩ market code period none none fuel s = some (r1, s1) ∧
      downloadOne codec client2 ⟨format, 0⟩ market code period none none fuel s1 = some (r2, s2) ∧
      downloadOne codec client2 ⟨format, 0⟩ market code period none none fuel s = some (r, s') ∧
      (s2.files = s'.files ∧ (h1 = h2 → r2 = .ok 0 ∧ s2 = { s1 with world := s2.world }) ↔
        UpdateSafe format h1 h2 ∧ (h1 = h2 → Settled format h1)) := by
  have hlen1 : h1.length ≤ 800 := hpre.length_le.trans hlen
  have hfuel1 : h1.length / 800 < fuel := by omega
  have hfuel2 : h2.length / 800 < fuel := by omega
  have hfirst : ∃ r1 s1, downloadOne codec client1 ⟨format, 0⟩ market code period none none fuel s =
      some (r1, s1) ∧ _ := downloadOne_new hserve1 hfuel1 hnone
  have hfull : ∃ r s', downloadOne codec client2 ⟨format, 0⟩ market code period none none fuel s =
      some (r, s') ∧ _ := downloadOne_new hserve2 hfuel2 hnone
  obtain ⟨r1, s1, hrun1, hfiles1⟩ := hfirst
  obtain ⟨r, s', hrun, hfiles⟩ := hfull
  rw [newestFirst_of_le (by decide) hlen1] at hfiles1
  rw [newestFirst_of_le (by decide) hlen] at hfiles
  have hfile1 : s1.files (dataPath ⟨format, 0⟩ market code period) =
      downloadedFile codec format h1 := by
    rw [hfiles1, Function.update_self]
  have hexisting : existingLastDate codec ⟨format, 0⟩ market code period s1 =
      (format.kept h1).getLast?.bind format.lastDate := by
    rw [existingLastDate, if_pos rfl, hfile1]
    exact existing_downloaded codec fun b hb => hdated b (hpre.subset hb)
  have hsecond : ∃ w, downloadOne codec client2 ⟨format, 0⟩ market code period none none fuel s1 =
      some (storeFetched _ _ _ _ _ _ _ _ _ _) := downloadOne_serves hserve2 hfuel2 s1
  obtain ⟨w, hrun2⟩ := hsecond
  rw [hexisting, newestFirst_of_le (by decide) hlen, ← updateResult] at hrun2
  obtain ⟨hsafe, hsettled⟩ := updateResult_iff codec (s := { s1 with world := w }) hdated hasc
    hpre hfile1
  refine ⟨r1, s1, _, _, r, s', hrun1, hrun2.trans (congrArg some Prod.mk.eta.symm), hrun, ?_⟩
  have hworld :
      (updateResult codec format market code period h1 h2 { s1 with world := w }).2.world = w :=
    storeFetched_world _ _ _ _ _ _
  have hsame : Function.update s1.files (dataPath ⟨format, 0⟩ market code period)
      (downloadedFile codec format h2) = s'.files := by
    rw [hfiles, hfiles1, Function.update_idem]
  rw [hworld, ← hsafe, hsame]
  exact and_congr_right fun _ => forall_congr' hsettled

end Update

/-! ## Two bars of one day -/

/-- A bar of five minutes on the first trading day of 2024. -/
def minuteRecord (hour minute : ℕ) : KLineRecord :=
  ⟨2024, 1, 2, hour, minute, 10000, 10000, 10000, 10000, 0, 0⟩

/-- The first two bars of the day. -/
def twoMinutes : List SecurityBar := barsOf 0 [minuteRecord 9 35, minuteRecord 9 40]

/-- The two bars are in order and dated. -/
lemma twoMinutes_facts :
    Ascending twoMinutes ∧ ∀ b ∈ twoMinutes, b.Dated Category.min5.code := by
  refine ⟨by unfold Ascending; decide, ?_⟩
  intro b hb
  obtain ⟨r, hr, rfl⟩ := List.mem_map.mp hb
  simp only [List.mem_cons, List.not_mem_nil, or_false] at hr
  rcases hr with rfl | rfl <;> exact ⟨by decide, by decide, by decide, rfl⟩

/-- A second download after the second bar of a day leaves that bar out: the file keeps one record,
where a full download makes two. -/
theorem same_day_bar_lost :
    twoMinutes.take 1 <+: twoMinutes ∧ Ascending twoMinutes ∧ twoMinutes.length ≤ 800 ∧
    (∀ b ∈ twoMinutes, b.Dated Category.min5.code ∧ Format.tdx.fits b = true) ∧
    (sliceClient (twoMinutes.take 1)).Serves 1 "600519".toList .min5 (twoMinutes.take 1) ∧
    (sliceClient twoMinutes).Serves 1 "600519".toList .min5 twoMinutes ∧
    ∃ r1 s1 r2 s2 r s',
      downloadOne ParquetCodec.enumerated (sliceClient (twoMinutes.take 1)) ⟨.tdx, 0⟩ 1
        "600519".toList .min5 none none 2 emptyState = some (r1, s1) ∧
      downloadOne ParquetCodec.enumerated (sliceClient twoMinutes) ⟨.tdx, 0⟩ 1
        "600519".toList .min5 none none 2 s1 = some (r2, s2) ∧
      downloadOne ParquetCodec.enumerated (sliceClient twoMinutes) ⟨.tdx, 0⟩ 1
        "600519".toList .min5 none none 2 emptyState = some (r, s') ∧
      (s2.files (dataPath ⟨.tdx, 0⟩ 1 "600519".toList .min5)).map List.length = some 32 ∧
      (s'.files (dataPath ⟨.tdx, 0⟩ 1 "600519".toList .min5)).map List.length = some 64 := by
  have hfits : ∀ b ∈ twoMinutes, Format.tdx.fits b = true := by decide +kernel
  refine ⟨List.take_prefix 1 _, twoMinutes_facts.1, by decide, fun b hb =>
    ⟨twoMinutes_facts.2 b hb, hfits b hb⟩, sliceClient_serves _ _ _ _, sliceClient_serves _ _ _ _,
    ?_⟩
  refine ⟨_, _, _, _, _, _, rfl, rfl, rfl, ?_, ?_⟩
  · decide +kernel
  · decide +kernel

/-- Between the two bars of the day an update is not safe. -/
theorem update_iff_two_minutes :
    ∃ r1 s1 r2 s2 r s',
      downloadOne ParquetCodec.enumerated (sliceClient (twoMinutes.take 1)) ⟨.tdx, 0⟩ 1
        "600519".toList .min5 none none 2 emptyState = some (r1, s1) ∧
      downloadOne ParquetCodec.enumerated (sliceClient twoMinutes) ⟨.tdx, 0⟩ 1
        "600519".toList .min5 none none 2 s1 = some (r2, s2) ∧
      downloadOne ParquetCodec.enumerated (sliceClient twoMinutes) ⟨.tdx, 0⟩ 1
        "600519".toList .min5 none none 2 emptyState = some (r, s') ∧
      (s2.files = s'.files ∧
          (twoMinutes.take 1 = twoMinutes → r2 = .ok 0 ∧ s2 = { s1 with world := s2.world }) ↔
        UpdateSafe .tdx (twoMinutes.take 1) twoMinutes ∧
          (twoMinutes.take 1 = twoMinutes → Settled .tdx (twoMinutes.take 1))) :=
  update_iff ParquetCodec.enumerated .tdx (sliceClient_serves _ _ _ _) (sliceClient_serves _ _ _ _)
    (List.take_prefix 1 _) twoMinutes_facts.1 (by decide) twoMinutes_facts.2 (by decide) rfl

end Tdxrs
