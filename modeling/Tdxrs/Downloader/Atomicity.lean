import Tdxrs.Downloader.FirstDownload

set_option relaxedAutoImplicit false
set_option autoImplicit false

/-!
# Failed writes

A download whose bars were fetched can still fail while they are written: a record of a `.day`
file cannot hold every bar. The file is opened, and cut off unless it is appended to, before the
first bar is packed, and the records before the one that fails stay in it. A text file takes
every bar. The sync record is set only after the file has been written.

## Main definitions

* `Tdxrs.DownloadState.SameStore` — the data files and the sync record are the same.
* `Tdxrs.FailsClean` — the writes of a `.day` file that leave it as it was when they fail.

## Main results

* `Tdxrs.download_atomic_iff` — when a failed download changes nothing.
-/

namespace Tdxrs

variable {σ : Type}

/-- The data files and the sync record are the same in two states. -/
structure DownloadState.SameStore (s s' : DownloadState σ) : Prop where
  files : s'.files = s.files
  syncData : s'.syncData = s.syncData
  syncCounter : s'.syncCounter = s.syncCounter
  lastSync : s'.lastSync = s.lastSync

/-- A state with another content of one data file. -/
def DownloadState.setFile (s : DownloadState σ) (path : DataPath) (content : Option Bytes) :
    DownloadState σ :=
  { s with files := Function.update s.files path content }

@[simp] lemma DownloadState.setFile_files (s : DownloadState σ) (path : DataPath)
    (content : Option Bytes) :
    (s.setFile path content).files = Function.update s.files path content := rfl

/-- The writes of bars to a `.day` file with the given content that leave it as it was when they
fail. Nothing fails when all bars fit into records. Behind the records of a file, the first bar
must be the one that fails; in place of a file, the records before the one that fails must be what
the file held. -/
def FailsClean (content : Option Bytes) (bars : List SecurityBar) (append : Bool) : Prop :=
  (∀ b ∈ bars, Format.tdx.fits b = true) ∨
    if append then ∃ b rest, bars = b :: rest ∧ Format.tdx.fits b = false
    else content = some ((Format.tdx.kept bars).flatMap recordOf)

/-- Writing no bars does not fail. -/
lemma writeBars_nil (codec : ParquetCodec) (format : Format) (content : Option Bytes)
    (append : Bool) : (writeBars codec format content [] append).2 = .ok () := by
  cases format <;> rfl

section StoreFetched

variable {codec : ParquetCodec} {dl : Downloader} {market : UInt8} {code : Text}
  {category : Category} {startDate endDate existing : Option Text} {all : List SecurityBar}
  {s : DownloadState σ}

/-- Bars are stored or there are none.

**Proof sketch.** With no bars at all none are newer. Otherwise the call returns early exactly if a
date is known and no bar is newer. -/
lemma storeFetched_cases (codec : ParquetCodec) (dl : Downloader) (market : UInt8) (code : Text)
    (category : Category) (startDate endDate existing : Option Text) (all : List SecurityBar)
    (s : DownloadState σ) :
    storeFetched codec dl market code category startDate endDate existing all s =
        storeBars codec dl market code category existing
          (newerBars existing (dateRange startDate endDate all)) s ∨
      newerBars existing (dateRange startDate endDate all) = [] ∧
        storeFetched codec dl market code category startDate endDate existing all s =
          (.ok 0, s) := by
  unfold storeFetched
  by_cases hall : all.isEmpty
  · rw [if_pos hall, List.isEmpty_iff.mp hall]
    refine .inr ⟨?_, rfl⟩
    unfold newerBars dateRange
    split <;> split <;> split <;> rfl
  · rw [if_neg hall]
    by_cases hnone : hasDate existing ∧
        (newerBars existing (dateRange startDate endDate all)).isEmpty
    · exact .inr ⟨List.isEmpty_iff.mp hnone.2, if_pos hnone⟩
    · exact .inl (if_neg hnone)

/-- Storing bars fails exactly when writing them does, and then the data file is the only thing
that has changed. -/
lemma storeBars_error_iff {bars : List SecurityBar} {e : PyError} {s' : DownloadState σ} :
    storeBars codec dl market code category existing bars s = (.error e, s') ↔
      (writeBars codec dl.format (s.files (dataPath dl market code category)) bars
          existing.isSome).2 = .error e ∧
        s' = s.setFile (dataPath dl market code category)
          (writeBars codec dl.format (s.files (dataPath dl market code category)) bars
            existing.isSome).1 := by
  simp only [storeBars]
  generalize writeBars codec dl.format (s.files (dataPath dl market code category)) bars
    existing.isSome = written
  rcases written with ⟨content, e' | u⟩
  · rw [Prod.mk.injEq, Except.error.injEq, Except.error.injEq]
    exact and_congr_right fun _ => eq_comm
  · simp only [reduceCtorEq, false_and, iff_false]
    split <;> simp

/-- What a download does with the bars that were fetched fails exactly when writing the new ones
does. -/
lemma storeFetched_error_iff {e : PyError} {s' : DownloadState σ} :
    storeFetched codec dl market code category startDate endDate existing all s = (.error e, s') ↔
      (writeBars codec dl.format (s.files (dataPath dl market code category))
          (newerBars existing (dateRange startDate endDate all)) existing.isSome).2 = .error e ∧
        s' = s.setFile (dataPath dl market code category)
          (writeBars codec dl.format (s.files (dataPath dl market code category))
            (newerBars existing (dateRange startDate endDate all)) existing.isSome).1 := by
  rcases storeFetched_cases codec dl market code category startDate endDate existing all s with
    h | ⟨hnil, h⟩
  · rw [h, storeBars_error_iff]
  · rw [h, hnil, writeBars_nil]
    simp

end StoreFetched

/-! ## Files after a failed write -/

/-- A record is 32 bytes long. -/
lemma length_packRecord {b : SecurityBar} {record : Bytes} (h : packRecord b = .ok record) :
    record.length = 32 := by
  obtain ⟨_, -, _, -, _, -, _, h0, _, h1, _, h2, _, h3, _, h4, _, h5, _, h6, _, h7, rfl⟩ :=
    packRecord_eq_ok.mp h
  simp only [List.length_append, length_packU32 h0, length_packU32 h1, length_packU32 h2,
    length_packU32 h3, length_packU32 h4, length_packF32 h5, length_packU32 h6,
    length_packU32 h7]

/-- The records of bars that fit are nothing only when there are none. -/
lemma flatMap_recordOf_eq_nil {bars : List SecurityBar}
    (hfits : ∀ b ∈ bars, Format.tdx.fits b = true) : bars.flatMap recordOf = [] ↔ bars = [] := by
  constructor
  · intro h
    cases bars with
    | nil => rfl
    | cons b bars =>
      have hlen := length_packRecord (packRecord_of_fits (hfits b List.mem_cons_self))
      rw [List.flatMap_cons] at h
      rw [(List.append_eq_nil_iff.mp h).1] at hlen
      cases hlen
  · rintro rfl
    rfl

/-- No bar is written exactly when there is none or the first one does not fit. -/
lemma kept_tdx_eq_nil {bars : List SecurityBar} :
    Format.tdx.kept bars = [] ↔
      bars = [] ∨ ∃ b rest, bars = b :: rest ∧ Format.tdx.fits b = false := by
  cases bars with
  | nil => simp [Format.kept]
  | cons b rest =>
    cases hb : Format.tdx.fits b with
    | false => simp [Format.kept_cons_of_not_fits hb, hb]
    | true => simp [Format.kept, hb]

/-- **A failed write of binary records leaves the file as it was** exactly when it fails
clean.

**Proof sketch.** What is written is the old content, or nothing if the file is not appended to, and
then the records of the bars in front of the first that does not fit (`writeRecords_eq`). So a write
that fails has left the file alone exactly if these bars are none and the content was as it is after
opening: the old one when appending, the empty one otherwise. -/
lemma writeTdx_clean_iff {content : Option Bytes} {bars : List SecurityBar} {append : Bool}
    (happend : append = true → content.isSome) :
    (∀ e, (writeTdx content bars append).2 = .error e →
        (writeTdx content bars append).1 = content) ↔ FailsClean content bars append := by
  set start : Bytes := if append then content.getD [] else [] with hstart
  obtain ⟨hcontent, hresult⟩ := writeRecords_eq start bars
  have hwrite : writeTdx content bars append =
      (some (start ++ (Format.tdx.kept bars).flatMap recordOf), (writeRecords start bars).2) := by
    rw [← hcontent]
    rfl
  rw [hwrite]
  unfold FailsClean
  by_cases hall : ∀ b ∈ bars, Format.tdx.fits b = true
  · rw [hresult.mpr (List.all_eq_true.mpr hall)]
    exact iff_of_true (fun e he => by cases he) (.inl hall)
  -- some bar does not fit, so that the write fails
  have hfails : ∃ e, (writeRecords start bars).2 = .error e := by
    cases h : (writeRecords start bars).2 with
    | error e => exact ⟨e, rfl⟩
    | ok u => exact absurd (List.all_eq_true.mp (hresult.mp h)) hall
  obtain ⟨e, he⟩ := hfails
  have hsame : (∀ e', (writeRecords start bars).2 = .error e' →
      some (start ++ (Format.tdx.kept bars).flatMap recordOf) = content) ↔
      some (start ++ (Format.tdx.kept bars).flatMap recordOf) = content :=
    ⟨fun h => h e he, fun h _ _ => h⟩
  rw [hsame, or_iff_right hall]
  cases append with
  | false =>
    rw [hstart, if_neg Bool.false_ne_true, List.nil_append, if_neg Bool.false_ne_true]
    exact eq_comm
  | true =>
    obtain ⟨old, rfl⟩ := Option.isSome_iff_exists.mp (happend rfl)
    have hne : bars ≠ [] := by
      rintro rfl
      exact hall fun b hb => absurd hb List.not_mem_nil
    rw [hstart, if_pos rfl, if_pos rfl, Option.getD_some, Option.some.injEq,
      List.append_right_eq_self, flatMap_recordOf_eq_nil fun b hb => Format.fits_of_mem_kept hb,
      kept_tdx_eq_nil, or_iff_right hne]

/-- A file is appended to only when it is there. -/
lemma isSome_of_existing {codec : ParquetCodec} {dl : Downloader} {market : UInt8} {code : Text}
    {category : Category} {s : DownloadState σ}
    (h : (existingLastDate codec dl market code category s).isSome = true) :
    (s.files (dataPath dl market code category)).isSome := by
  unfold existingLastDate at h
  split at h
  · cases hfile : s.files (dataPath dl market code category) with
    | none => rw [hfile] at h; cases h
    | some content => rfl
  · cases h

/-- After the bars were fetched, a download that raises leaves the store as it was exactly when the
write that raises leaves its file as it was.

**Proof sketch.** Once the bars are fetched, the call raises exactly when the write does
(`storeFetched_error_iff`), and the only file it has touched is that of the stock. Setting a file to
what it holds changes nothing. -/
lemma sameStore_iff_writeBars (codec : ParquetCodec) (client : BarsClient σ) (dl : Downloader)
    (market : UInt8) (code : Text) (category : Category) (startDate endDate : Option Text)
    (fuel : ℕ) (s : DownloadState σ) (all : List SecurityBar) (w : σ)
    (hfetch : fetchAll (fun offset count =>
        client.getSecurityBars category.code market code offset count dl.fq)
      category.maxPerRequest fuel 0 [] s.world = some (.ok all, w)) :
    let path := dataPath dl market code category
    let existing := existingLastDate codec dl market code category s
    let written := writeBars codec dl.format (s.files path)
      (newerBars existing (dateRange startDate endDate all)) existing.isSome
    (∀ e s', downloadOne codec client dl market code category startDate endDate fuel s =
        some (.error e, s') → s.SameStore s') ↔
      ∀ e, written.2 = .error e → written.1 = s.files path := by
  intro path existing written
  have hrun : ∀ e s', downloadOne codec client dl market code category startDate endDate fuel s =
        some (.error e, s') ↔
      written.2 = .error e ∧ s' = ({ s with world := w } : DownloadState σ).setFile path
        written.1 := by
    intro e s'
    simp only [downloadOne, hfetch, Option.some.injEq]
    exact storeFetched_error_iff
  constructor
  · intro h e he
    have hfiles := (h e _ ((hrun e _).mpr ⟨he, rfl⟩)).files
    have hpath := congrFun hfiles path
    rwa [DownloadState.setFile_files, Function.update_self] at hpath
  · intro h e s' hs'
    obtain ⟨he, rfl⟩ := (hrun e s').mp hs'
    refine ⟨?_, rfl, rfl, rfl⟩
    rw [DownloadState.setFile_files, h e he]
    exact Function.update_eq_self path s.files

/-- **When a failed download changes nothing.** After the bars of a stock were fetched, whatever
they are and whatever the file holds, a download to a binary or text file that raises leaves all
data files and the sync record as they were exactly when, for a binary file, the write fails
clean.

**Proof sketch.** By `sameStore_iff_writeBars` only the write counts. A write of text never raises,
so nothing is to be shown; a write of binary records is `writeTdx_clean_iff`, applied to the bars
that are newer than the file. -/
theorem download_atomic_iff (codec : ParquetCodec) (client : BarsClient σ) (dl : Downloader)
    (hformat : dl.format = .tdx ∨ dl.format = .csv) (market : UInt8) (code : Text)
    (category : Category) (startDate endDate : Option Text) (fuel : ℕ) (s : DownloadState σ)
    (all : List SecurityBar) (w : σ)
    (hfetch : fetchAll (fun offset count =>
        client.getSecurityBars category.code market code offset count dl.fq)
      category.maxPerRequest fuel 0 [] s.world = some (.ok all, w)) :
    let existing := existingLastDate codec dl market code category s
    (∀ e s', downloadOne codec client dl market code category startDate endDate fuel s =
        some (.error e, s') → s.SameStore s') ↔
      (dl.format = .tdx →
        FailsClean (s.files (dataPath dl market code category))
          (newerBars existing (dateRange startDate endDate all)) existing.isSome) := by
  intro existing
  refine (sameStore_iff_writeBars codec client dl market code category startDate endDate fuel s all
    w hfetch).trans ?_
  rcases hformat with hformat | hformat
  · rw [hformat, ← writeTdx_clean_iff isSome_of_existing]
    exact ⟨fun h _ => h, fun h => h rfl⟩
  · rw [hformat]
    exact iff_of_true (fun e he => by cases he) fun h => by cases h

/-! ## A volume that does not fit -/

/-- A day of January 2024, with a word for its volume. -/
def januaryRecord (day vol : ℕ) : KLineRecord := { flatRecord 10000 2024 1 day with vol := vol }

/-- Three days, of which the last one has a volume of `2 ^ 32`. -/
def hugeVolume : List SecurityBar :=
  barsOf 4 [januaryRecord 2 0, januaryRecord 3 0, januaryRecord 4 0x4F800000]

/-- Where the days are stored. -/
def januaryPath : DataPath := dataPath ⟨.tdx, 0⟩ 1 "600519".toList .daily

/-- A downloader whose file holds given bars. -/
def storedState (bars : List SecurityBar) : DownloadState Unit :=
  emptyState.setFile januaryPath (some (fileOf ParquetCodec.enumerated .tdx bars))

/-- The download of the three days behind a file. -/
def januaryDownload (s : DownloadState Unit) : Option (Except PyError ℕ × DownloadState Unit) :=
  downloadOne ParquetCodec.enumerated (sliceClient hugeVolume) ⟨.tdx, 0⟩ 1 "600519".toList .daily
    none none 1 s

/-- The page with the three days. -/
lemma fetchAll_hugeVolume : fetchAll (fun offset count =>
      (sliceClient hugeVolume).getSecurityBars Category.daily.code 1 "600519".toList offset count 0)
    Category.daily.maxPerRequest 1 0 [] () = some (.ok hugeVolume, ()) :=
  rfl

/-- When the last of two new days does not fit, the first one stays in the file of a download that
raised. -/
theorem failed_download_leaves_record :
    ∃ e s', januaryDownload (storedState (hugeVolume.take 1)) = some (.error e, s') ∧
      s'.files januaryPath = some (fileOf ParquetCodec.enumerated .tdx (hugeVolume.take 2)) ∧
      ¬ (storedState (hugeVolume.take 1)).SameStore s' := by
  have hrun : (januaryDownload (storedState (hugeVolume.take 1))).map
      (fun r => (r.1.isOk, r.2.files januaryPath)) =
        some (false, some (fileOf ParquetCodec.enumerated .tdx (hugeVolume.take 2))) := by
    decide +kernel
  obtain ⟨⟨result, s'⟩, hs', hpair⟩ := Option.map_eq_some_iff.mp hrun
  obtain ⟨hresult, hfile⟩ := Prod.mk.inj hpair
  cases result with
  | ok n => cases hresult
  | error e =>
    refine ⟨e, s', hs', hfile, fun hsame => ?_⟩
    have hlonger : (storedState (hugeVolume.take 1)).files januaryPath ≠
        some (fileOf ParquetCodec.enumerated .tdx (hugeVolume.take 2)) := by
      decide +kernel
    exact hlonger ((congrFun hsame.files januaryPath).symm.trans hfile)

/-- Behind the first two of the days only the third one is written, and the download that raises
changes nothing. -/
theorem failed_download_unchanged :
    (∃ e s', januaryDownload (storedState (hugeVolume.take 2)) = some (.error e, s')) ∧
      ∀ e s', januaryDownload (storedState (hugeVolume.take 2)) = some (.error e, s') →
        (storedState (hugeVolume.take 2)).SameStore s' := by
  have hrun : (januaryDownload (storedState (hugeVolume.take 2))).map (fun r => r.1.isOk) =
      some false := by
    decide +kernel
  have hclean : newerBars (existingLastDate ParquetCodec.enumerated ⟨.tdx, 0⟩ 1 "600519".toList
      .daily (storedState (hugeVolume.take 2))) (dateRange none none hugeVolume) =
        [(januaryRecord 4 0x4F800000).bar 4] ∧
      (existingLastDate ParquetCodec.enumerated ⟨.tdx, 0⟩ 1 "600519".toList .daily
        (storedState (hugeVolume.take 2))).isSome = true ∧
      Format.tdx.fits ((januaryRecord 4 0x4F800000).bar 4) = false := by
    decide +kernel
  refine ⟨?_, ?_⟩
  · obtain ⟨⟨result, s'⟩, hs', hresult⟩ := Option.map_eq_some_iff.mp hrun
    cases result with
    | ok n => cases hresult
    | error e => exact ⟨e, s', hs'⟩
  · refine (download_atomic_iff ParquetCodec.enumerated (sliceClient hugeVolume) ⟨.tdx, 0⟩
      (.inl rfl) 1 "600519".toList .daily none none 1 (storedState (hugeVolume.take 2)) hugeVolume
      () fetchAll_hugeVolume).mpr fun _ => ?_
    rw [hclean.1, hclean.2.1]
    exact .inr ⟨_, _, rfl, hclean.2.2⟩

end Tdxrs
