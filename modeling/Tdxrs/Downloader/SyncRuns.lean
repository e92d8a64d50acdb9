import Tdxrs.Downloader.Checkpoint
import Tdxrs.Downloader.SyncRecord
import Tdxrs.Downloader.FirstDownload

set_option relaxedAutoImplicit false
set_option autoImplicit false

/-!
# Calls of `run` and `update` and the sync record

Every call of `Downloader.run` or `Downloader.update` on a data directory goes through stocks whose
downloads write data files and set their dates in the sync record. The record is in the memory of
the `Downloader` object; it is written to `last_sync.json` after every hundred stocks and at the end
of each `run`. What is in memory only when a call is interrupted is lost to all other objects.

`update` without codes takes the stocks from the file. It should attempt every stock that has a data
file, and no call should take an entry out of the file.

Calls are on any number of `Downloader` objects, one call at a time, all for original data. The
stocks of a market whose list is fetched, less those that the checkpoint skips, come with the event:
which they are does not matter for the record.

## Main definitions

* `Tdxrs.SyncCall.jobs` — what a call has to do.
* `Tdxrs.SyncRuns.step` — the steps of the calls on one data directory.
* `Tdxrs.SyncRunning.Covers` — an update has attempted every stock that had a data file.
* `Tdxrs.SyncRuns.KeepsRecord` — the steps that leave nothing out of the record.

## Main results

* `Tdxrs.downloadOne_keeps` — what a download does to the files it does to the record.
* `Tdxrs.SyncRuns.grounded_step` — the invariant: what is on disk is in the record.
* `Tdxrs.sync_record_covers` — updates cover what is on disk, and no entry is lost.
-/

namespace Tdxrs

/-! ## Calls -/

/-- The two ways to download. -/
inductive SyncMethod where
  | run
  | update
deriving DecidableEq, Repr

/-- A call for original data. -/
structure SyncCall where
  method : SyncMethod
  format : Format
  startDate : Option Text
  endDate : Option Text
  markets : Option (List Key)
  categories : Option (List Key)
  codes : Option (List Text)
deriving DecidableEq, Repr

/-- Something that a call has to do. -/
inductive SyncJob where
  /-- The stocks of a pair, by their codes or else by the list of the market. -/
  | group (pair : Pair) (codes : Option (List Text))
  /-- The download of a stock. -/
  | stock (pair : Pair) (code : Text)
  /-- The summary at the end of `run`. -/
  | summary
deriving DecidableEq, Repr

namespace SyncCall

/-- The downloader of a call. -/
def downloader (call : SyncCall) : Downloader := ⟨call.format, 0⟩

/-- The categories that a call is asked for, as far as they are known. -/
def knownCategories (call : SyncCall) : List Category :=
  (normalizeCategories (call.categories.getD [.name "daily".toList])).filterMap categoryMap

/-- What `run` does for markets and codes. -/
def runJobs (call : SyncCall) (markets : Option (List Key)) (codes : Option (List Text)) :
    List SyncJob :=
  (RunCall.pairs ⟨⟨call.downloader, call.startDate, call.endDate⟩, markets, call.categories⟩).map
    (SyncJob.group · codes) ++ [.summary]

/-- The codes of a market in the record. -/
def recordedCodes (sync : SyncRecord) : Key → List Text
  | .name market => ((syncCodesByMarket sync).lookup market).getD []
  | .number _ => []

/-- What a call does, by the record in the file. -/
def jobs (call : SyncCall) (sync : SyncRecord) : List SyncJob :=
  match call.method, call.codes with
  | .run, codes => call.runJobs call.markets codes
  | .update, some codes => call.runJobs call.markets (some codes)
  | .update, none =>
    if sync = [] then call.runJobs call.markets none
    else
      (call.markets.getD ((syncCodesByMarket sync).map fun entry => .name entry.1)).flatMap
        fun market =>
          match recordedCodes sync market with
          | [] => []
          | code :: codes => call.runJobs (some [market]) (some (code :: codes))

/-- An update takes the record in the file into memory, unless it is empty and there are no
codes. -/
def loadsRecord (call : SyncCall) (sync : SyncRecord) : Bool :=
  call.method = .update && !(sync = [] && call.codes = none)

/-- An update of all stocks. -/
def UpdatesAll (call : SyncCall) : Prop :=
  call.method = .update ∧ call.markets = none ∧ call.codes = none

instance (call : SyncCall) : Decidable call.UpdatesAll := inferInstanceAs (Decidable (_ ∧ _))

end SyncCall

/-! ## The state of a data directory -/

/-- A call that is running. -/
structure SyncRunning where
  object : ℕ
  call : SyncCall
  jobs : List SyncJob
  /-- Ghost: the stocks that the call has attempted. -/
  attempted : List (Pair × Text)
  /-- Ghost: the data files when the call began. -/
  filesBefore : DataPath → Option Bytes

/-- What a `Downloader` object has of the record. -/
structure SyncMemory where
  syncData : Option SyncRecord
  syncCounter : ℕ
deriving DecidableEq, Repr

/-- A data directory with the `Downloader` objects and the call that is running. -/
structure SyncRuns (σ : Type) where
  world : σ
  files : DataPath → Option Bytes
  lastSync : Option SyncRecord
  objects : ℕ → SyncMemory
  running : Option SyncRunning

/-- Something that happens. -/
inductive SyncEvent (σ : Type) where
  /-- A call on an object. -/
  | start (object : ℕ) (call : SyncCall)
  /-- The running call takes its next step. A market is listed with the given stocks, and a download
  makes fewer requests than `fuel`. -/
  | advance (listed : List Text) (fuel : ℕ)
  /-- The running call is interrupted. -/
  | interrupt
  /-- The servers and the time go on. -/
  | pass (world : σ)

/-- The record in memory, if there is one, is written to the file. -/
def printSummary {σ : Type} (d : DownloadState σ) : DownloadState σ :=
  match d.syncData with
  | some sync => { d with lastSync := some sync }
  | none => d

namespace SyncRuns

variable {σ : Type}

/-- An empty data directory. -/
def init (world : σ) : SyncRuns σ := ⟨world, fun _ => none, none, fun _ => ⟨none, 0⟩, none⟩

/-- The data directory as an object sees it. -/
def view (s : SyncRuns σ) (object : ℕ) : DownloadState σ :=
  ⟨s.world, s.files, (s.objects object).syncData, (s.objects object).syncCounter, s.lastSync⟩

/-- What an object leaves. -/
def store (s : SyncRuns σ) (object : ℕ) (d : DownloadState σ) : SyncRuns σ :=
  { s with
    world := d.world
    files := d.files
    lastSync := d.lastSync
    objects := Function.update s.objects object ⟨d.syncData, d.syncCounter⟩ }

/-- The data directory as an object sees it when a call on it has begun. -/
def loaded (s : SyncRuns σ) (object : ℕ) (call : SyncCall) : DownloadState σ :=
  if call.loadsRecord (s.lastSync.getD []) then
    { s.view object with syncData := some (s.lastSync.getD []) }
  else s.view object

/-- A call begins. -/
def startCall (s : SyncRuns σ) (object : ℕ) (call : SyncCall) : SyncRuns σ :=
  { s.store object (s.loaded object call) with
    running := some ⟨object, call, call.jobs (s.lastSync.getD []), [], s.files⟩ }

/-- The next step of a running call. -/
def advance (codec : ParquetCodec) (client : BarsClient σ) (s : SyncRuns σ) (r : SyncRunning)
    (listed : List Text) (fuel : ℕ) : Option (SyncRuns σ) :=
  match r.jobs with
  | [] => some { s with running := none }
  | .group pair codes :: jobs =>
    some { s with
      running := some { r with jobs := (codes.getD listed).map (SyncJob.stock pair) ++ jobs } }
  | .stock pair code :: jobs =>
    (downloadOne codec client r.call.downloader pair.market.code code pair.category
      r.call.startDate r.call.endDate fuel (s.view r.object)).map fun d =>
        { s.store r.object d.2 with
          running := some { r with jobs := jobs, attempted := (pair, code) :: r.attempted } }
  | .summary :: jobs =>
    some { s.store r.object (printSummary (s.view r.object)) with
      running := some { r with jobs := jobs } }

/-- What happens on a data directory. One call runs at a time. -/
def step (codec : ParquetCodec) (client : BarsClient σ) (s : SyncRuns σ) :
    SyncEvent σ → Option (SyncRuns σ)
  | .start object call => if s.running.isNone then some (s.startCall object call) else none
  | .advance listed fuel => s.running.bind fun r => s.advance codec client r listed fuel
  | .interrupt => s.running.map fun _ => { s with running := none }
  | .pass world => some { s with world := world }

end SyncRuns

/-! ## What should hold -/

/-- An update of all stocks that has come to its end has attempted each stock that had a data file
when it began, for all categories that it was asked for, and it was asked for at least one. -/
def SyncRunning.Covers (r : SyncRunning) : Prop :=
  r.call.UpdatesAll → ∀ path, r.filesBefore path ≠ none →
    r.call.knownCategories ≠ [] ∧ ∀ category ∈ r.call.knownCategories,
      ∃ market : Market, market.name = path.marketDir ∧
        (⟨category, market⟩, path.code) ∈ r.attempted

/-- The key of a stock in the record. -/
def syncKey (market : Market) (code : Text) : Text := market.name ++ '/' :: code

/-- The stock of a data file is in the record. -/
def SyncRecord.Lists (sync : SyncRecord) (path : DataPath) : Prop :=
  '/' ∉ path.code ∧ ∃ market : Market, market.name = path.marketDir ∧
    syncKey market path.code ∈ SyncRecord.keys sync

/-! ## The steps that leave nothing out -/

section Guard

variable {σ : Type} (codec : ParquetCodec) (client : BarsClient σ)

/-- A download that leaves a data file leaves its stock in the record: the code has no slash, and
either the stock is in the record already, or there are bars left after the filters and the format
takes them all. -/
def RecordsStock (call : SyncCall) (pair : Pair) (code : Text) (fuel : ℕ) (d : DownloadState σ) :
    Prop :=
  match fetchAll (fun offset count => client.getSecurityBars pair.category.code pair.market.code
      code offset count call.downloader.fq) pair.category.maxPerRequest fuel 0 [] d.world with
  | some (.ok all, _) =>
    let existing := existingLastDate codec call.downloader pair.market.code code pair.category d
    let bars := newerBars existing (dateRange call.startDate call.endDate all)
    let written := writeBars codec call.downloader.format
      (d.files (dataPath call.downloader pair.market.code code pair.category)) bars existing.isSome
    (all = [] ∨ hasDate existing = true ∧ bars = []) ∨ written.1 = none ∨
      '/' ∉ code ∧ (syncKey pair.market code ∈ SyncRecord.keys d.record ∨
        bars ≠ [] ∧ written.2 = .ok ())
  | _ => True

instance (call : SyncCall) (pair : Pair) (code : Text) (fuel : ℕ) (d : DownloadState σ) :
    Decidable (RecordsStock codec client call pair code fuel d) := by
  unfold RecordsStock
  split <;> infer_instance

/-- So does the next step of a call. -/
def SyncRunning.RecordsNext (r : SyncRunning) (fuel : ℕ) (d : DownloadState σ) : Prop :=
  match r.jobs with
  | .stock pair code :: _ => RecordsStock codec client r.call pair code fuel d
  | _ => True

instance (r : SyncRunning) (fuel : ℕ) (d : DownloadState σ) :
    Decidable (r.RecordsNext codec client fuel d) := by
  unfold SyncRunning.RecordsNext
  split <;> infer_instance

/-- The stocks that are recorded in memory are in the file too. -/
def DownloadState.Flushed (d : DownloadState σ) : Prop :=
  ∀ sync ∈ d.syncData, ∀ key ∈ SyncRecord.keys sync, key ∈ SyncRecord.keys d.savedRecord

instance (d : DownloadState σ) : Decidable d.Flushed := inferInstanceAs (Decidable (∀ sync ∈ _, _))

instance (d : DownloadState σ) : Decidable d.MemoryHolds :=
  inferInstanceAs (Decidable (∀ sync ∈ _, _))

/-- The steps that leave nothing out of the record: an object on which `run` is called knows what is
in the file, or nothing; an update of all stocks is asked for a category that there is; a download
that leaves a file leaves its stock in the record; and a call is interrupted only when the stocks in
memory are in the file. -/
def SyncRuns.KeepsRecord (s : SyncRuns σ) : SyncEvent σ → Prop
  | .start object call =>
    (call.method = .run → (s.view object).MemoryHolds) ∧
      (call.UpdatesAll → call.knownCategories ≠ [])
  | .advance _ fuel => ∀ r ∈ s.running, r.RecordsNext codec client fuel (s.view r.object)
  | .interrupt => ∀ r ∈ s.running, (s.view r.object).Flushed
  | .pass _ => True

instance (s : SyncRuns σ) : ∀ e : SyncEvent σ, Decidable (s.KeepsRecord codec client e)
  | .start _ _ => inferInstanceAs (Decidable (_ ∧ _))
  | .advance _ fuel =>
    inferInstanceAs (Decidable (∀ r ∈ s.running,
      r.RecordsNext codec client fuel (s.view r.object)))
  | .interrupt => inferInstanceAs (Decidable (∀ r ∈ s.running, (s.view r.object).Flushed))
  | .pass _ => inferInstanceAs (Decidable True)

end Guard

/-! ## One download -/

section Download

variable {σ : Type} {codec : ParquetCodec} {client : BarsClient σ}

/-- From one state of an object to the next no entry is lost, in memory or in the file. -/
structure DownloadState.Keeps (d d' : DownloadState σ) : Prop where
  record : SyncRecord.Within d.record d'.record
  saved : SyncRecord.Within d.savedRecord d'.savedRecord
  memory : d'.MemoryHolds

variable {d d' : DownloadState σ}

/-- Nothing is lost if the record is not touched. -/
lemma DownloadState.MemoryHolds.keeps (h : d.MemoryHolds) (hdata : d'.syncData = d.syncData)
    (hsaved : d'.lastSync = d.lastSync) : d.Keeps d' := by
  have hsaved' : d'.savedRecord = d.savedRecord := congrArg (Option.getD · []) hsaved
  have hrecord : d'.record = d.record := by
    unfold record
    rw [hdata, hsaved']
  refine ⟨hrecord ▸ .refl _, hsaved' ▸ .refl _, ?_⟩
  rw [MemoryHolds, hdata, hsaved']
  exact h

/-- Nothing is lost when a stock is recorded, and the stock is there.

**Proof sketch.** The record in memory is set for the stock, and it is either saved or the file
stays as it is (`updateSync_spec`). Setting a date loses no entry (`SyncRecord.within_setDate`), and
the file had no entry that the memory did not have. -/
lemma DownloadState.MemoryHolds.updateSync (h : d.MemoryHolds) (market : UInt8)
    (code category lastDate : Text) :
    d.Keeps (updateSync market code category lastDate d) ∧
      marketDir market ++ '/' :: code ∈
        SyncRecord.keys (Tdxrs.updateSync market code category lastDate d).record := by
  obtain ⟨hdata, hsaved⟩ := updateSync_spec d market code category lastDate
  have hwithin := SyncRecord.within_setDate d.record (marketDir market ++ '/' :: code) category
    lastDate
  have hmemory : (Tdxrs.updateSync market code category lastDate d).MemoryHolds := by
    intro sync hsync
    obtain rfl := Option.some.inj (hdata.symm.trans hsync)
    rcases hsaved with hsame | hnew
    · rw [savedRecord, hsame]
      exact h.within.trans hwithin
    · rw [savedRecord, hnew]
      exact .refl _
  have hrecord := hmemory.record_eq hdata
  refine ⟨⟨hrecord ▸ hwithin, ?_, hmemory⟩, hrecord ▸ SyncRecord.mem_keys_setDate _ _ _ _⟩
  rcases hsaved with hsame | hnew
  · rw [savedRecord, savedRecord, hsame]
    exact .refl _
  · rw [savedRecord, savedRecord, hnew]
    exact h.within.trans hwithin

/-- The directory of a market is its name. -/
lemma marketDir_code (market : Market) : marketDir market.code = market.name := by
  cases market <;> rfl

/-- The data file of a stock is listed as soon as the stock is recorded. -/
lemma lists_dataPath {sync : SyncRecord} {dl : Downloader} {pair : Pair} {code : Text}
    (hcode : '/' ∉ code) (hkey : syncKey pair.market code ∈ SyncRecord.keys sync) :
    sync.Lists (dataPath dl pair.market.code code pair.category) :=
  ⟨hcode, pair.market, (marketDir_code pair.market).symm, hkey⟩

/-- Bars that are stored go to the data file, and the stock is recorded then, unless there are none
or the write fails.

**Proof sketch.** The branches after the write: if it failed, the error is returned and nothing
recorded; if there is no last bar, nothing is either; otherwise the stock is recorded with the date
of the last bar. -/
lemma storeBars_snd (codec : ParquetCodec) (format : Format) (market : UInt8) (code : Text)
    (category : Category) (existing : Option Text) (bars : List SecurityBar)
    (d : DownloadState σ) :
    ∃ files, (storeBars codec ⟨format, 0⟩ market code category existing bars d).2.files = files ∧
      ((storeBars codec ⟨format, 0⟩ market code category existing bars d).2 =
          { d with files := files } ∧
        (bars = [] ∨ ∃ e, (writeBars codec format
          (d.files (dataPath ⟨format, 0⟩ market code category)) bars
          existing.isSome).2 = .error e) ∨
      ∃ lastDate, (storeBars codec ⟨format, 0⟩ market code category existing bars d).2 =
        updateSync market code category.dirName lastDate { d with files := files }) := by
  refine ⟨_, storeBars_files ⟨format, 0⟩ existing bars d, ?_⟩
  unfold storeBars
  simp only
  split
  · rename_i e he
    exact .inl ⟨rfl, .inr ⟨e, he⟩⟩
  · split
    · rename_i last _
      exact .inr ⟨last.datePart, by rw [if_pos trivial]⟩
    · rename_i hnone
      exact .inl ⟨rfl, .inl (List.getLast?_eq_none_iff.mp hnone)⟩

/-- No entry is lost when bars are stored, and the stock is in the record after it if it was before,
or if there are some bars and they are written.

**Proof sketch.** Either the record is not written, because there are no bars or they cannot be
written, or the entry of the stock is put into it, which loses no other entry. -/
lemma storeBars_keeps {call : SyncCall} {pair : Pair} {code : Text} {existing : Option Text}
    {bars : List SecurityBar} (hmem : d.MemoryHolds)
    (hd' : (storeBars codec call.downloader pair.market.code code pair.category existing bars d).2 =
      d') :
    d.Keeps d' ∧
      (syncKey pair.market code ∈ SyncRecord.keys d.record ∨ bars ≠ [] ∧
          (writeBars codec call.format
            (d.files (dataPath call.downloader pair.market.code code pair.category)) bars
            existing.isSome).2 = .ok () →
        syncKey pair.market code ∈ SyncRecord.keys d'.record) := by
  obtain ⟨files, -, ⟨hsame, hnot⟩ | ⟨lastDate, hrecorded⟩⟩ :=
    storeBars_snd codec call.format pair.market.code code pair.category existing bars d
  · obtain rfl := hsame.symm.trans hd'
    refine ⟨hmem.keeps rfl rfl, fun hok => hok.resolve_right ?_⟩
    exact fun ⟨hbars, hfine⟩ => hnot.elim hbars fun ⟨_, he⟩ => nomatch hfine.symm.trans he
  · obtain rfl := hrecorded.symm.trans hd'
    have hwritten : ({ d with files := files } : DownloadState σ).MemoryHolds := hmem
    obtain ⟨hkeeps, hkey⟩ :=
      hwritten.updateSync pair.market.code code pair.category.dirName lastDate
    rw [marketDir_code] at hkey
    exact ⟨⟨hkeeps.record, hkeeps.saved, hkeeps.memory⟩, fun _ => hkey⟩

/-- **What a download does to the files it does to the record**: no entry is lost, and a data file
that is new is one of a stock in the record.

**Proof sketch.** A download that has no bars to store changes no file and no record. One that
stores some writes the one file of the stock and then records it (`storeBars_keeps`); by the guard a
new file is one for which this comes about, so the stock is in the record, and all other files are
as they were. -/
lemma downloadOne_keeps {call : SyncCall} {pair : Pair} {code : Text} {fuel : ℕ}
    {result : Except PyError ℕ} (hmem : d.MemoryHolds)
    (hok : RecordsStock codec client call pair code fuel d)
    (hrun : downloadOne codec client call.downloader pair.market.code code pair.category
      call.startDate call.endDate fuel d = some (result, d')) :
    d.Keeps d' ∧ ∀ path, d'.files path ≠ none → d.files path ≠ none ∨ d'.record.Lists path := by
  unfold RecordsStock at hok
  unfold downloadOne at hrun
  rcases hfetch : fetchAll (fun offset count => client.getSecurityBars pair.category.code
    pair.market.code code offset count call.downloader.fq) pair.category.maxPerRequest fuel 0 []
    d.world with _ | ⟨e | all, w⟩ <;> simp only [hfetch] at hrun
  · exact nomatch hrun
  · obtain ⟨-, rfl⟩ := Prod.mk.inj (Option.some.inj hrun)
    exact ⟨hmem.keeps rfl rfl, fun path hpath => .inl hpath⟩
  · have hd' := congrArg Prod.snd (Option.some.inj hrun)
    have hfetched : ({ d with world := w } : DownloadState σ).MemoryHolds := hmem
    simp only [hfetch] at hok
    unfold storeFetched at hd'
    simp only at hd'
    split at hd'
    · subst hd'
      exact ⟨hmem.keeps rfl rfl, fun path hpath => .inl hpath⟩
    · rename_i hall
      split at hd'
      · subst hd'
        exact ⟨hmem.keeps rfl rfl, fun path hpath => .inl hpath⟩
      · rename_i hleft
        obtain ⟨hkeeps, hrecords⟩ := storeBars_keeps hfetched hd'
        refine ⟨⟨hkeeps.record, hkeeps.saved, hkeeps.memory⟩, fun path hpath => ?_⟩
        rw [← hd', storeBars_files] at hpath
        by_cases hsame : path = dataPath call.downloader pair.market.code code pair.category
        · subst hsame
          rw [Function.update_self] at hpath
          obtain (hnone | ⟨hdate, hnone⟩) | hnone | ⟨hcode, hok⟩ := hok
          · exact absurd (List.isEmpty_iff.mpr hnone) hall
          · exact absurd ⟨hdate, List.isEmpty_iff.mpr hnone⟩ hleft
          · exact absurd hnone hpath
          · exact .inr (lists_dataPath hcode (hrecords hok))
        · rw [Function.update_of_ne hsame] at hpath
          exact .inl hpath

end Download

/-! ## The invariant -/

section Invariant

variable {σ : Type} {codec : ParquetCodec} {client : BarsClient σ}

/-- The stock has been attempted for the pair, or it is to be. -/
def SyncRunning.Due (r : SyncRunning) (pair : Pair) (code : Text) : Prop :=
  (pair, code) ∈ r.attempted ∨ .stock pair code ∈ r.jobs ∨
    ∃ codes, .group pair (some codes) ∈ r.jobs ∧ code ∈ codes

/-- An update of all stocks has attempted every stock that had a data file when it began, or is to,
for all categories that it was asked for, and it was asked for at least one. -/
def SyncRunning.CoversDue (r : SyncRunning) : Prop :=
  r.call.UpdatesAll → ∀ path, r.filesBefore path ≠ none →
    r.call.knownCategories ≠ [] ∧ ∀ category ∈ r.call.knownCategories,
      ∃ market : Market, market.name = path.marketDir ∧ r.Due ⟨category, market⟩ path.code

/-- The invariant of a running call: the record that its downloads go on from has all entries of the
file and all stocks that have data files, a summary is to come unless everything is in the file, and
an update of all stocks has attempted what it should, or is to. -/
structure SyncRunning.Grounded (r : SyncRunning) (d : DownloadState σ) : Prop where
  memory : d.MemoryHolds
  present : ∀ path, d.files path ≠ none → d.record.Lists path
  ending : r.jobs = [] ∧ d.Flushed ∨ r.jobs.getLast? = some .summary
  covers : r.CoversDue

/-- The invariant of a data directory: while no call is running, the file has all stocks that have
data files. -/
structure SyncRuns.Grounded (s : SyncRuns σ) : Prop where
  idle : s.running = none → ∀ path, s.files path ≠ none → SyncRecord.Lists (s.lastSync.getD []) path
  running : ∀ r ∈ s.running, r.Grounded (s.view r.object)

lemma SyncRecord.Lists.mono {a b : SyncRecord} {path : DataPath}
    (hab : ∀ key ∈ keys a, key ∈ keys b) (h : a.Lists path) : b.Lists path := by
  obtain ⟨hcode, market, hname, hkey⟩ := h
  exact ⟨hcode, market, hname, hab _ hkey⟩

@[simp] lemma SyncRuns.view_store (s : SyncRuns σ) (object : ℕ) (d : DownloadState σ) :
    (s.store object d).view object = d := by
  simp [view, store]

/-- When everything is in the file, the file has all stocks that have data files. -/
lemma SyncRunning.Grounded.lists {r : SyncRunning} {d : DownloadState σ} (h : r.Grounded d)
    (hflushed : d.Flushed) (path : DataPath) (hpath : d.files path ≠ none) :
    d.savedRecord.Lists path := by
  have hlists := h.present path hpath
  rcases hdata : d.syncData with _ | sync
  · rw [DownloadState.record, hdata] at hlists
    exact hlists
  · rw [h.memory.record_eq hdata] at hlists
    exact hlists.mono (hflushed sync hdata)

/-! ### What a call has to do -/

/-- Lists of jobs that each end with a summary do so together. -/
lemma getLast_flatMap {α : Type} {jobs : α → List SyncJob}
    (h : ∀ a, jobs a = [] ∨ (jobs a).getLast? = some .summary) (l : List α) :
    l.flatMap jobs = [] ∨ (l.flatMap jobs).getLast? = some .summary := by
  induction l with
  | nil => exact .inl rfl
  | cons a l ih =>
    rw [List.flatMap_cons, List.getLast?_append]
    rcases ih with hnil | hlast
    · rw [hnil, List.append_nil]
      exact h a
    · rw [hlast]
      exact .inr rfl

lemma getLast_runJobs (call : SyncCall) (markets : Option (List Key)) (codes : Option (List Text)) :
    (call.runJobs markets codes).getLast? = some .summary := by
  simp [SyncCall.runJobs]

/-- A call ends with a summary, or it has nothing to do and takes the record from the file.

**Proof sketch.** By the method and the codes. All groups of jobs end with a summary. Only an update
of all stocks may have no group at all, when there is a record without a stock for its markets. -/
lemma getLast_jobs (call : SyncCall) (sync : SyncRecord) :
    call.jobs sync = [] ∧ call.loadsRecord sync = true ∨
      (call.jobs sync).getLast? = some .summary := by
  unfold SyncCall.jobs SyncCall.loadsRecord
  split
  · exact .inr (getLast_runJobs _ _ _)
  · exact .inr (getLast_runJobs _ _ _)
  · rename_i hmethod hcodes
    split
    · exact .inr (getLast_runJobs _ _ _)
    · rename_i hsync
      refine (getLast_flatMap (fun market => ?_) _).imp_left fun hnil =>
        ⟨hnil, by simp [hmethod, hsync]⟩
      split
      · exact .inl rfl
      · exact .inr (getLast_runJobs _ _ _)

/-- A call for a market by its name goes through all categories that it is asked for. -/
lemma group_mem_runJobs {call : SyncCall} {category : Category}
    (hcategory : category ∈ call.knownCategories) (market : Market) (codes : Option (List Text)) :
    .group ⟨category, market⟩ codes ∈ call.runJobs (some [.name market.name]) codes := by
  have hmarket : (normalizeMarkets [.name market.name]).filterMap marketMap = [market] := by
    cases market <;> rfl
  refine List.mem_append_left _ (List.mem_map_of_mem ?_)
  rw [RunCall.pairs]
  simp only [Option.getD_some, hmarket]
  exact List.mem_flatMap.mpr ⟨category, hcategory, List.mem_singleton_self _⟩

/-- **An update of all stocks has all stocks of the record to do**, for all categories.

**Proof sketch.** A path that is listed has an entry under the key of its market and code. Reading
the record puts the code under the market (`mem_syncCodesByMarket`), an update of all stocks goes
through all markets that the record names, and for each through all categories, with the codes of
the market. -/
lemma group_mem_jobs {call : SyncCall} (hall : call.UpdatesAll) {sync : SyncRecord}
    {path : DataPath} (hlists : sync.Lists path) {category : Category}
    (hcategory : category ∈ call.knownCategories) :
    ∃ market : Market, market.name = path.marketDir ∧
      ∃ codes, .group ⟨category, market⟩ (some codes) ∈ call.jobs sync ∧ path.code ∈ codes := by
  obtain ⟨hmethod, hmarkets, hcodes⟩ := hall
  obtain ⟨hcode, market, hname, hkey⟩ := hlists
  have hsync : sync ≠ [] := by
    rintro rfl
    exact absurd hkey List.not_mem_nil
  have hslash : '/' ∉ market.name := by cases market <;> decide
  have hread := mem_syncCodesByMarket hslash hcode hkey
  obtain ⟨code, codes, hrecorded⟩ := List.exists_cons_of_ne_nil (List.ne_nil_of_mem hread)
  refine ⟨market, hname, code :: codes, ?_, hrecorded ▸ hread⟩
  rw [SyncCall.jobs, hmethod, hcodes, hmarkets]
  simp only [if_neg hsync, Option.getD_none]
  refine List.mem_flatMap.mpr ⟨.name market.name, ?_, ?_⟩
  · have hentry : market.name ∈ (syncCodesByMarket sync).map Prod.fst := by
      rw [mem_keys_iff]
      rcases hlookup : (syncCodesByMarket sync).lookup market.name with _ | codes
      · rw [hlookup] at hread
        exact absurd hread List.not_mem_nil
      · rfl
    obtain ⟨entry, hmem, heq⟩ := List.mem_map.mp hentry
    exact List.mem_map.mpr ⟨entry, hmem, congrArg Key.name heq⟩
  · rw [SyncCall.recordedCodes, hrecorded]
    exact group_mem_runJobs hcategory market _

/-! ### The steps -/

/-- The record that a call begins with has all entries of the file.

**Proof sketch.** A call that loads the record has what the file has. A `run` that does not is
allowed by the guard only if its object already has all entries; an update that does not load has
found the file without entries. -/
lemma SyncRuns.memoryHolds_loaded {s : SyncRuns σ} {object : ℕ} {call : SyncCall}
    (h : call.method = .run → (s.view object).MemoryHolds) :
    (s.loaded object call).MemoryHolds := by
  unfold loaded
  split
  · rintro sync ⟨⟩
    exact .refl _
  · rename_i hloads
    rcases hmethod : call.method with _ | _
    · exact h hmethod
    · -- an update that does not take the record into memory has found it empty
      have hempty : s.lastSync.getD [] = [] := by
        simp only [SyncCall.loadsRecord, hmethod] at hloads
        simp_all
      intro sync _
      rw [DownloadState.savedRecord, view, hempty]
      exact SyncRecord.within_nil sync

/-- A call that begins leaves the files as they are. -/
lemma SyncRuns.loaded_files (s : SyncRuns σ) (object : ℕ) (call : SyncCall) :
    (s.loaded object call).files = s.files ∧ (s.loaded object call).lastSync = s.lastSync := by
  unfold loaded
  split <;> exact ⟨rfl, rfl⟩

/-- **A call that begins** keeps the invariant.

**Proof sketch.** Nothing is written yet, and the record that the call begins with has all entries
of the file (`memoryHolds_loaded`), so that every data file is still listed. What an update of all
stocks has to do covers the listed files (`group_mem_jobs`), and the last job is the summary, unless
there is none and the record is the one of the file (`getLast_jobs`). -/
lemma SyncRuns.Grounded.start {s : SyncRuns σ} (hs : s.Grounded) (hidle : s.running = none)
    {object : ℕ} {call : SyncCall} (hok : s.KeepsRecord codec client (.start object call)) :
    (s.startCall object call).Grounded ∧
      SyncRecord.Within (s.lastSync.getD []) ((s.startCall object call).lastSync.getD []) := by
  obtain ⟨hobject, hcategories⟩ := hok
  obtain ⟨hfiles, hsaved⟩ := s.loaded_files object call
  have hmemory := memoryHolds_loaded hobject
  have hrecord : SyncRecord.Within (s.lastSync.getD []) (s.loaded object call).record := by
    rw [← hsaved]
    exact hmemory.within
  have hview : ({ s.store object (s.loaded object call) with
      running := some ⟨object, call, call.jobs (s.lastSync.getD []), [], s.files⟩ } :
        SyncRuns σ).view object = s.loaded object call :=
    view_store s object _
  have hsaved' : (s.startCall object call).lastSync = s.lastSync := hsaved
  rw [hsaved']
  refine ⟨⟨fun hnone => (nomatch hnone), ?_⟩, .refl _⟩
  rintro r ⟨⟩
  rw [startCall, hview]
  refine ⟨hmemory, fun path hpath => ?_, ?_, fun hall path hpath => ?_⟩
  · exact (hs.idle hidle path (hfiles ▸ hpath)).mono hrecord.keys
  · refine (getLast_jobs call (s.lastSync.getD [])).imp_left fun ⟨hnil, hloads⟩ => ⟨hnil, ?_⟩
    rw [loaded, if_pos hloads]
    rintro sync ⟨⟩
    exact fun key hkey => hkey
  · refine ⟨hcategories hall, fun category hcategory => ?_⟩
    obtain ⟨market, hname, codes, hgroup, hcode⟩ :=
      group_mem_jobs hall (hs.idle hidle path hpath) hcategory
    exact ⟨market, hname, .inr (.inr ⟨codes, hgroup, hcode⟩)⟩

/-- A summary that is to come after another job is still to come. -/
lemma getLast_tail {job : SyncJob} {jobs : List SyncJob} (hjob : job ≠ .summary)
    (h : (job :: jobs).getLast? = some .summary) : jobs.getLast? = some .summary := by
  rcases jobs with _ | ⟨next, jobs⟩
  · exact absurd (Option.some.inj h) hjob
  · rwa [List.getLast?_cons_cons] at h

/-- What is due stays due. -/
lemma SyncRunning.CoversDue.next {r : SyncRunning} (h : r.CoversDue) {jobs : List SyncJob}
    {attempted : List (Pair × Text)}
    (hnext : ∀ pair code, r.Due pair code →
      ({ r with jobs := jobs, attempted := attempted } : SyncRunning).Due pair code) :
    ({ r with jobs := jobs, attempted := attempted } : SyncRunning).CoversDue := by
  intro hall path hpath
  obtain ⟨hne, hdue⟩ := h hall path hpath
  refine ⟨hne, fun category hcategory => ?_⟩
  obtain ⟨market, hname, hstock⟩ := hdue category hcategory
  exact ⟨market, hname, hnext _ _ hstock⟩

/-- While a call has something to do, a summary is to come. -/
lemma SyncRunning.Grounded.last {r : SyncRunning} {d : DownloadState σ} {job : SyncJob}
    {jobs : List SyncJob} (h : r.Grounded d) (hjobs : r.jobs = job :: jobs) :
    (job :: jobs).getLast? = some .summary :=
  hjobs ▸ h.ending.resolve_left fun hnil => by simp [hjobs] at hnil

section Running

variable {s : SyncRuns σ} {r : SyncRunning} {jobs : List SyncJob}

/-- A call that leaves everything in the file may end. -/
lemma SyncRunning.Grounded.stop (h : r.Grounded (s.view r.object))
    (hflushed : (s.view r.object).Flushed) : ({ s with running := none } : SyncRuns σ).Grounded :=
  ⟨fun _ => h.lists hflushed, fun _ hnone => (nomatch hnone)⟩

/-- The stocks of a pair are next.

**Proof sketch.** The codes that were given to the group, or else those that the exchange lists,
become stocks to be done; those of any other job are where they were. -/
lemma SyncRunning.Grounded.group (h : r.Grounded (s.view r.object)) {pair : Pair}
    {codes : Option (List Text)} (hjobs : r.jobs = .group pair codes :: jobs)
    (listed : List Text) :
    ({ r with jobs := (codes.getD listed).map (SyncJob.stock pair) ++ jobs } : SyncRunning).Grounded
      (s.view r.object) := by
  refine ⟨h.memory, h.present, .inr ?_, h.covers.next ?_⟩
  · rw [List.getLast?_append, getLast_tail (by simp) (h.last hjobs), Option.some_or]
  · rintro pair' code (hattempted | hstock | ⟨given, hgroup, hcode⟩)
    · exact .inl hattempted
    · rw [hjobs] at hstock
      exact .inr (.inl (List.mem_append_right _ ((List.mem_cons.mp hstock).resolve_left (by simp))))
    · rw [hjobs] at hgroup
      rcases List.mem_cons.mp hgroup with hsame | hlater
      · obtain ⟨rfl, rfl⟩ := SyncJob.group.inj hsame
        exact .inr (.inl (List.mem_append_left _ (List.mem_map_of_mem hcode)))
      · exact .inr (.inr ⟨given, List.mem_append_right _ hlater, hcode⟩)

/-- A stock is downloaded.

**Proof sketch.** No entry of the record is lost, and a data file that is new is listed. The stock
is no longer to be done but attempted, so what covers the files is where it was or among the
attempted. -/
lemma SyncRunning.Grounded.stock (h : r.Grounded (s.view r.object)) {pair : Pair} {code : Text}
    (hjobs : r.jobs = .stock pair code :: jobs) {d' : DownloadState σ}
    (hkeeps : (s.view r.object).Keeps d')
    (hfiles : ∀ path, d'.files path ≠ none →
      (s.view r.object).files path ≠ none ∨ d'.record.Lists path) :
    ({ r with jobs := jobs, attempted := (pair, code) :: r.attempted } : SyncRunning).Grounded
      d' := by
  refine ⟨hkeeps.memory, fun path hpath => ?_, .inr (getLast_tail (by simp) (h.last hjobs)),
    h.covers.next ?_⟩
  · exact (hfiles path hpath).elim
      (fun hthere => (h.present path hthere).mono hkeeps.record.keys) id
  · rintro pair' code' (hattempted | hstock | ⟨given, hgroup, hcode⟩)
    · exact .inl (List.mem_cons_of_mem _ hattempted)
    · rw [hjobs] at hstock
      rcases List.mem_cons.mp hstock with hsame | hlater
      · obtain ⟨rfl, rfl⟩ := SyncJob.stock.inj hsame
        exact .inl List.mem_cons_self
      · exact .inr (.inl hlater)
    · rw [hjobs] at hgroup
      exact .inr (.inr ⟨given, (List.mem_cons.mp hgroup).resolve_left (by simp), hcode⟩)

/-- The summary leaves the record as it is and writes it to the file.

**Proof sketch.** If there is a record in memory, the file gets it, and with it every entry of
memory; if not, nothing is written, and nothing is in memory that the file would lack. -/
lemma printSummary_keeps {d : DownloadState σ} (h : d.MemoryHolds) :
    d.Keeps (printSummary d) ∧ (printSummary d).Flushed ∧ (printSummary d).files = d.files := by
  unfold printSummary
  split
  · rename_i sync hsync
    have hflushed : ({ d with lastSync := some sync } : DownloadState σ).Flushed := by
      intro other hother
      obtain rfl := Option.some.inj (hsync.symm.trans hother)
      exact fun key hkey => hkey
    have hmemory : ({ d with lastSync := some sync } : DownloadState σ).MemoryHolds := by
      intro other hother
      obtain rfl := Option.some.inj (hsync.symm.trans hother)
      exact .refl _
    refine ⟨⟨?_, h sync hsync, hmemory⟩, hflushed, rfl⟩
    rw [h.record_eq hsync, hmemory.record_eq hsync]
    exact .refl _
  · rename_i hnone
    refine ⟨h.keeps rfl rfl, fun sync hsync => ?_, rfl⟩
    exact nomatch hnone.symm.trans hsync

/-- The summary at the end of a `run`.

**Proof sketch.** The summary changes no data file and loses no entry (`printSummary_keeps`). It is
the last job, after which memory and file agree, or another one is the last still; and it covers no
stock, so what covers the files is among the jobs behind it. -/
lemma SyncRunning.Grounded.summary (h : r.Grounded (s.view r.object))
    (hjobs : r.jobs = .summary :: jobs) :
    ({ r with jobs := jobs } : SyncRunning).Grounded (printSummary (s.view r.object)) := by
  obtain ⟨hkeeps, hflushed, hfiles⟩ := printSummary_keeps h.memory
  refine ⟨hkeeps.memory, fun path hpath => ?_, ?_, h.covers.next ?_⟩
  · exact (h.present path (hfiles ▸ hpath)).mono hkeeps.record.keys
  · have hlast := h.last hjobs
    rcases jobs with _ | ⟨next, jobs⟩
    · exact .inl ⟨rfl, hflushed⟩
    · rw [List.getLast?_cons_cons] at hlast
      exact .inr hlast
  · rintro pair code (hattempted | hstock | ⟨given, hgroup, hcode⟩)
    · exact .inl hattempted
    · rw [hjobs] at hstock
      exact .inr (.inl ((List.mem_cons.mp hstock).resolve_left (by simp)))
    · rw [hjobs] at hgroup
      exact .inr (.inr ⟨given, (List.mem_cons.mp hgroup).resolve_left (by simp), hcode⟩)

/-- **The next step of a running call** keeps the invariant.

**Proof sketch.** By the next job. Without one the call ends, and its last job has left memory and
file in agreement. A group becomes the jobs of its stocks (`SyncRunning.Grounded.group`), a stock is
downloaded (`downloadOne_keeps`, `SyncRunning.Grounded.stock`), and the summary is written
(`SyncRunning.Grounded.summary`). -/
lemma SyncRuns.Grounded.advance {s' : SyncRuns σ} (hs : s.Grounded) (hr : s.running = some r)
    {listed : List Text} {fuel : ℕ} (hok : r.RecordsNext codec client fuel (s.view r.object))
    (hstep : s.advance codec client r listed fuel = some s') :
    s'.Grounded ∧ SyncRecord.Within (s.lastSync.getD []) (s'.lastSync.getD []) := by
  have h := hs.running r hr
  unfold SyncRuns.advance at hstep
  unfold SyncRunning.RecordsNext at hok
  rcases hjobs : r.jobs with _ | ⟨⟨pair, codes⟩ | ⟨pair, code⟩ | _, jobs⟩ <;>
    simp only [hjobs] at hstep hok
  · obtain rfl := Option.some.inj hstep
    have hflushed := h.ending.resolve_right fun hlast => by simp [hjobs] at hlast
    exact ⟨h.stop hflushed.2, .refl _⟩
  · obtain rfl := Option.some.inj hstep
    exact ⟨⟨fun hnone => (nomatch hnone), by rintro _ ⟨⟩; exact h.group hjobs listed⟩, .refl _⟩
  · obtain ⟨⟨result, d'⟩, hrun, rfl⟩ := Option.map_eq_some_iff.mp hstep
    obtain ⟨hkeeps, hfiles⟩ := downloadOne_keeps h.memory hok hrun
    have hview := s.view_store r.object d'
    refine ⟨⟨fun hnone => (nomatch hnone), ?_⟩, hkeeps.saved⟩
    rintro _ ⟨⟩
    exact hview.symm ▸ h.stock hjobs hkeeps hfiles
  · obtain rfl := Option.some.inj hstep
    have hview := s.view_store r.object (printSummary (s.view r.object))
    refine ⟨⟨fun hnone => (nomatch hnone), ?_⟩, (printSummary_keeps h.memory).1.saved⟩
    rintro _ ⟨⟩
    exact hview.symm ▸ h.summary hjobs

end Running

/-- **Every step that leaves nothing out keeps the invariant**, and no entry of the file is lost.

**Proof sketch.** One lemma for each event: a call that begins (`Grounded.start`), its next step
(`Grounded.advance`), and an interruption, which the guard allows only where memory and file agree.
Servers and
time that go on change neither. -/
theorem SyncRuns.grounded_step {s s' : SyncRuns σ} {e : SyncEvent σ} (hs : s.Grounded)
    (hok : s.KeepsRecord codec client e) (hstep : step codec client s e = some s') :
    s'.Grounded ∧ SyncRecord.Within (s.lastSync.getD []) (s'.lastSync.getD []) := by
  cases e with
  | start object call =>
    obtain ⟨hidle, hsome⟩ := Option.ite_none_right_eq_some.mp hstep
    obtain rfl := Option.some.inj hsome
    exact hs.start (Option.isNone_iff_eq_none.mp hidle) hok
  | advance listed fuel =>
    obtain ⟨r, hr, hadvance⟩ := Option.bind_eq_some_iff.mp hstep
    exact hs.advance hr (hok r hr) hadvance
  | interrupt =>
    obtain ⟨r, hr, rfl⟩ := Option.map_eq_some_iff.mp hstep
    exact ⟨(hs.running r hr).stop (hok r hr), .refl _⟩
  | pass world =>
    obtain rfl := Option.some.inj hstep
    refine ⟨⟨hs.idle, fun r hr => ?_⟩, .refl _⟩
    obtain ⟨hmemory, hpresent, hending, hcovers⟩ := hs.running r hr
    exact ⟨hmemory, hpresent, hending, hcovers⟩

/-- An empty data directory. -/
lemma SyncRuns.grounded_init (world : σ) : (init world).Grounded :=
  ⟨fun _ _ hpath => absurd rfl hpath, fun _ hnone => (nomatch hnone)⟩

/-- A call that has nothing left to do has attempted what was due. -/
lemma SyncRunning.CoversDue.covers {r : SyncRunning} (h : r.CoversDue) (hdone : r.jobs = []) :
    r.Covers := by
  intro hall path hpath
  obtain ⟨hne, hdue⟩ := h hall path hpath
  refine ⟨hne, fun category hcategory => ?_⟩
  obtain ⟨market, hname, hattempted | hstock | ⟨codes, hgroup, -⟩⟩ := hdue category hcategory
  · exact ⟨market, hname, hattempted⟩
  · exact absurd (hdone ▸ hstock) List.not_mem_nil
  · exact absurd (hdone ▸ hgroup) List.not_mem_nil

end Invariant

/-- **The sync record covers what is on disk**, after any calls of `run` and `update` with any
interruptions on an empty data directory, as long as all steps leave nothing out of the record: an
update of all stocks that has come to its end has attempted every stock that had a data file when it
began; while no call is running, every stock that has a data file is in the record; and whatever
happens from then on in such steps, no entry of the file is lost.

**Proof sketch.** Induction on the steps. While a call is running, the record in memory has the
stocks that have data files, and what is in the file; a summary is to come, after which the file has
them too. -/
theorem sync_record_covers {σ : Type} (codec : ParquetCodec) (client : BarsClient σ) (world : σ)
    (events later : List (SyncEvent σ)) (s s' : SyncRuns σ)
    (hrun : Transition.run (SyncRuns.step codec client) (.init world) events = some s)
    (hkeeps : Transition.Guarded (SyncRuns.step codec client) (SyncRuns.KeepsRecord codec client)
      (.init world) events)
    (hlater : Transition.run (SyncRuns.step codec client) s later = some s')
    (hlaterKeeps : Transition.Guarded (SyncRuns.step codec client)
      (SyncRuns.KeepsRecord codec client) s later) :
    (∀ r ∈ s.running, r.jobs = [] → r.Covers) ∧
      (s.running = none → ∀ path, s.files path ≠ none →
        SyncRecord.Lists (s.lastSync.getD []) path) ∧
      SyncRecord.Within (s.lastSync.getD []) (s'.lastSync.getD []) := by
  have hs : s.Grounded := Transition.run_invariant_of_guarded
    (fun _ _ _ hs hok hstep => (SyncRuns.grounded_step hs hok hstep).1)
    (SyncRuns.grounded_init world) hkeeps hrun
  refine ⟨fun r hr hdone => (hs.running r hr).covers.covers hdone, hs.idle, ?_⟩
  refine (Transition.run_invariant_of_guarded
    (I := fun t : SyncRuns σ => t.Grounded ∧
      SyncRecord.Within (s.lastSync.getD []) (t.lastSync.getD [])) ?_ ⟨hs, .refl _⟩ hlaterKeeps
    hlater).2
  rintro t e t' ⟨ht, hwithin⟩ hok hstep
  obtain ⟨ht', hnext⟩ := SyncRuns.grounded_step ht hok hstep
  exact ⟨ht', hwithin.trans hnext⟩

/-! ## An interrupted call -/

/-- Servers that have one day of every stock. -/
def oneDayClient : BarsClient Unit := sliceClient [(dayRecord 0).bar 4]

/-- The daily bars of a stock in Shanghai. -/
def shanghaiStock (code : String) : SyncCall :=
  ⟨.run, .tdx, none, none, some [.name "sh".toList], none, some [code.toList]⟩

/-- The daily bars of all stocks that are recorded. -/
def dailyUpdate : SyncCall := ⟨.update, .tdx, none, none, none, none, none⟩

/-- A call for a stock comes to its end, another object is called for another stock, and after
`second` a third one for an update, which takes the given number of steps. -/
def twoStocksThen (second : List (SyncEvent Unit)) (steps : ℕ) : List (SyncEvent Unit) :=
  .start 0 (shanghaiStock "600000") :: List.replicate 4 (.advance [] 2) ++
    .start 1 (shanghaiStock "600519") :: second ++ .start 2 dailyUpdate ::
      List.replicate steps (.advance [] 2)

/-- The data file of the second stock. -/
def secondStockPath : DataPath := dataPath ⟨.tdx, 0⟩ Market.sh.code "600519".toList .daily

/-- **After two calls that came to their ends** the update attempts the second stock too. -/
theorem sync_record_covers_two_stocks :
    ∃ s r, Transition.run (SyncRuns.step ParquetCodec.enumerated oneDayClient) (.init ())
        (twoStocksThen (List.replicate 4 (.advance [] 2)) 4) = some s ∧
      s.running = some r ∧ r.filesBefore secondStockPath ≠ none ∧ r.Covers := by
  have hsome : (Transition.run (SyncRuns.step ParquetCodec.enumerated oneDayClient) (.init ())
      (twoStocksThen (List.replicate 4 (.advance [] 2)) 4)).any (fun s => s.running.any fun r =>
        r.jobs = [] ∧ r.filesBefore secondStockPath ≠ none) = true := by
    decide +kernel
  obtain ⟨s, hrun, hrunning⟩ := (Option.any_eq_true _ _).mp hsome
  obtain ⟨r, hr, hdone⟩ := (Option.any_eq_true _ _).mp hrunning
  obtain ⟨hjobs, hfile⟩ := of_decide_eq_true hdone
  obtain ⟨hcovers, -, -⟩ := sync_record_covers ParquetCodec.enumerated oneDayClient () _ [] s s hrun
    (by decide +kernel) rfl trivial
  exact ⟨s, r, hrun, hr, hfile, hcovers r hr hjobs⟩

/-- **After a call that was interrupted** the update does not attempt the stock whose data file this
call has written.

**Proof sketch.** The run is evaluated up to the state in which the update is done. It attempts one
stock; to cover the file of the other one it would have to attempt that one, too. -/
theorem sync_record_misses_stock :
    ∃ s r, Transition.run (SyncRuns.step ParquetCodec.enumerated oneDayClient) (.init ())
        (twoStocksThen [.advance [] 2, .advance [] 2, .interrupt] 3) = some s ∧
      s.running = some r ∧ r.jobs = [] ∧ r.filesBefore secondStockPath ≠ none ∧
      (∀ attempt ∈ r.attempted, attempt.2 ≠ "600519".toList) ∧ ¬ r.Covers := by
  have hsome : (Transition.run (SyncRuns.step ParquetCodec.enumerated oneDayClient) (.init ())
      (twoStocksThen [.advance [] 2, .advance [] 2, .interrupt] 3)).any (fun s =>
        s.running.any fun r => r.jobs = [] ∧ r.filesBefore secondStockPath ≠ none ∧
          r.call = dailyUpdate ∧ ∀ attempt ∈ r.attempted, attempt.2 ≠ "600519".toList) = true := by
    decide +kernel
  obtain ⟨s, hrun, hrunning⟩ := (Option.any_eq_true _ _).mp hsome
  obtain ⟨r, hr, hdone⟩ := (Option.any_eq_true _ _).mp hrunning
  obtain ⟨hjobs, hfile, hcall, hmissed⟩ := of_decide_eq_true hdone
  refine ⟨s, r, hrun, hr, hjobs, hfile, hmissed, fun hcovers => ?_⟩
  have hall : r.call.UpdatesAll := hcall ▸ ⟨rfl, rfl, rfl⟩
  have hdaily : Category.daily ∈ r.call.knownCategories := hcall ▸ (by decide)
  obtain ⟨market, -, hattempted⟩ := (hcovers hall secondStockPath hfile).2 .daily hdaily
  exact hmissed _ hattempted rfl

end Tdxrs
