import Mathlib.Data.Char
import Mathlib.Data.List.Lex
import Tdxrs.Downloader.Formats

set_option relaxedAutoImplicit false
set_option autoImplicit false

/-!
# Downloading one stock

`Downloader._download_one` of `python/tdxrs/downloader.py` with its paging loop, its filters and
the sync record. The loop ends when a page comes short; how many pages a server has is not known,
so that the loop takes fuel, and `none` is a loop that has not ended. The servers are behind
`BarsClient`, over a world that each request may change.

## Main definitions

* `Tdxrs.Category` — the categories of `_CATEGORY_MAP`.
* `Tdxrs.DownloadState` — the data files, the sync record and the world.
* `Tdxrs.fetchAll` — the paging loop.
* `Tdxrs.downloadOne` — the download of one stock.
-/

namespace Tdxrs

/-! ## Categories and paths -/

/-- The categories that can be downloaded. -/
inductive Category where
  | daily
  | weekly
  | monthly
  | min5
  | min15
  | min30
  | min60
deriving DecidableEq, Repr

namespace Category

/-- The number of a category in requests. -/
def code : Category → UInt8
  | .min5 => 0
  | .min15 => 1
  | .min30 => 2
  | .min60 => 3
  | .daily => 4
  | .weekly => 5
  | .monthly => 6

/-- The directory of a category. -/
def dirName : Category → Text
  | .daily => "daily".toList
  | .weekly => "weekly".toList
  | .monthly => "monthly".toList
  | .min5 => "min5".toList
  | .min15 => "min15".toList
  | .min30 => "min30".toList
  | .min60 => "min60".toList

/-- How many bars a request of a category asks for. -/
def maxPerRequest : Category → ℕ
  | _ => 800

end Category

/-- The directory of a market; unknown ones go to that of Shenzhen. -/
def marketDir (market : UInt8) : Text :=
  if market = 1 then "sh".toList
  else if market = 0 then "sz".toList
  else if market = 2 then "bj".toList
  else "sz".toList

/-- Where a data file is. -/
structure DataPath where
  marketDir : Text
  dirName : Text
  code : Text
  ext : Text
deriving DecidableEq

/-! ## The state of a downloader -/

/-- For each stock, the last date of each category that was downloaded, in order of insertion. -/
abbrev SyncRecord := List (Text × List (Text × Text))

/-- An entry of an ordered table set to a value: in place, or behind the others. -/
def setEntry {α : Type} (table : List (Text × α)) (key : Text) (value : α) : List (Text × α) :=
  if table.any fun entry => entry.1 = key then
    table.map fun entry => if entry.1 = key then (key, value) else entry
  else table ++ [(key, value)]

/-- The settings of a downloader. -/
structure Downloader where
  format : Format
  fq : UInt8
deriving DecidableEq, Repr

/-- The data files, the sync record as the downloader has it and as its file has it, and the
world of the servers. -/
structure DownloadState (σ : Type) where
  world : σ
  files : DataPath → Option Bytes
  syncData : Option SyncRecord
  syncCounter : ℕ
  lastSync : Option SyncRecord

/-- One K-line request to the next server, by category, market, code, offset, count and `fq`. -/
structure BarsClient (σ : Type) where
  getSecurityBars : UInt8 → UInt8 → Text → ℕ → ℕ → UInt8 → σ →
    Except TdxError (List SecurityBar) × σ

variable {σ : Type}

/-- Sets the last date of a stock in the sync record; the file is written every hundred times. -/
def updateSync (market : UInt8) (code category lastDate : Text) (s : DownloadState σ) :
    DownloadState σ :=
  let key := marketDir market ++ '/' :: code
  let sync :=
    match s.syncData with
    | some (entry :: sync) => entry :: sync
    | _ => s.lastSync.getD []
  let dates := (sync.lookup key).getD []
  let sync := setEntry sync key (setEntry dates category lastDate)
  { s with
    syncData := some sync
    syncCounter := s.syncCounter + 1
    lastSync := if (s.syncCounter + 1) % 100 = 0 then some sync else s.lastSync }

/-! ## The download -/

/-- The pages of a stock that are left to fetch, from `offset` on: each page goes behind the bars
at hand, and a short page is the last one. -/
def fetchAll (request : ℕ → ℕ → σ → Except TdxError (List SecurityBar) × σ) (maxPerReq : ℕ) :
    ℕ → ℕ → List SecurityBar → σ → Option (Except PyError (List SecurityBar) × σ)
  | 0, _, _, _ => none
  | fuel + 1, offset, all, w =>
    match request offset maxPerReq w with
    | (.error e, w) => some (.error (.client e), w)
    | (.ok bars, w) =>
      if bars.isEmpty then some (.ok all, w)
      else if bars.length < maxPerReq then some (.ok (all ++ bars), w)
      else fetchAll request maxPerReq fuel (offset + maxPerReq) (all ++ bars) w

/-- The bars within a range of dates. -/
def dateRange (startDate endDate : Option Text) (bars : List SecurityBar) : List SecurityBar :=
  let bars :=
    match startDate with
    | some (c :: start) => bars.filter fun b => c :: start ≤ b.datePart
    | _ => bars
  match endDate with
  | some (c :: stop) => bars.filter fun b => b.datePart ≤ c :: stop
  | _ => bars

/-- The bars that are newer than those a file has. -/
def newerBars (existing : Option Text) (bars : List SecurityBar) : List SecurityBar :=
  match existing with
  | some (c :: last) => bars.filter fun b => c :: last < b.datePart
  | _ => bars

/-- The path of the data file of a stock. -/
def dataPath (dl : Downloader) (market : UInt8) (code : Text) (category : Category) : DataPath :=
  ⟨marketDir market, category.dirName, code, dl.format.ext⟩

/-- Writes the bars that were fetched to the data file. The result is the number of new bars. -/
def storeBars (codec : ParquetCodec) (dl : Downloader) (market : UInt8) (code : Text)
    (category : Category) (existing : Option Text) (bars : List SecurityBar)
    (s : DownloadState σ) : Except PyError ℕ × DownloadState σ :=
  let path := dataPath dl market code category
  let (content, result) := writeBars codec dl.format (s.files path) bars existing.isSome
  let s := { s with files := Function.update s.files path content }
  match result with
  | .error e => (.error e, s)
  | .ok _ =>
    match bars.getLast? with
    | some last =>
      (.ok bars.length,
        if dl.fq = 0 then updateSync market code category.dirName last.datePart s else s)
    | none => (.ok bars.length, s)

/-- Whether a file has a date to compare with; an empty text counts as none. -/
def hasDate : Option Text → Bool
  | some (_ :: _) => true
  | _ => false

/-- What a download does with all bars that were fetched: a file of original data gets the newer
ones only, and with a date in the file nothing is written when nothing is newer. -/
def storeFetched (codec : ParquetCodec) (dl : Downloader) (market : UInt8) (code : Text)
    (category : Category) (startDate endDate existing : Option Text) (all : List SecurityBar)
    (s : DownloadState σ) : Except PyError ℕ × DownloadState σ :=
  if all.isEmpty then (.ok 0, s)
  else
    let bars := newerBars existing (dateRange startDate endDate all)
    if hasDate existing ∧ bars.isEmpty then (.ok 0, s)
    else storeBars codec dl market code category existing bars s

/-- The date of the last record in the data file of a stock, for original data. -/
def existingLastDate (codec : ParquetCodec) (dl : Downloader) (market : UInt8) (code : Text)
    (category : Category) (s : DownloadState σ) : Option Text :=
  if dl.fq = 0 then
    (s.files (dataPath dl market code category)).bind (getExistingLastDate codec dl.format)
  else none

/-- Downloads one category of one stock. The result is the number of new bars. -/
def downloadOne (codec : ParquetCodec) (client : BarsClient σ) (dl : Downloader)
    (market : UInt8) (code : Text) (category : Category) (startDate endDate : Option Text)
    (fuel : ℕ) (s : DownloadState σ) : Option (Except PyError ℕ × DownloadState σ) :=
  let existing := existingLastDate codec dl market code category s
  let request := fun offset count => client.getSecurityBars category.code market code offset count
    dl.fq
  match fetchAll request category.maxPerRequest fuel 0 [] s.world with
  | none => none
  | some (.error e, w) => some (.error e, { s with world := w })
  | some (.ok all, w) =>
    some (storeFetched codec dl market code category startDate endDate existing all
      { s with world := w })

end Tdxrs
