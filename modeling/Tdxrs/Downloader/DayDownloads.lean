import Mathlib.Data.Char
import Mathlib.Data.List.Dedup
import Mathlib.Data.List.Lex
import Mathlib.Data.List.Sort
import Tdxrs.Downloader.Download
import Tdxrs.Downloader.LastDate
import Tdxrs.Library.Window
import Tdxrs.Protocol.Constants
import Tdxrs.Protocol.MinuteRoundTrip
import Tdxrs.Protocol.TickRoundTrip

set_option relaxedAutoImplicit false
set_option autoImplicit false

/-!
# Downloads by day

`download_minute` and `download_ticks` of `python/tdxrs/downloader.py`. Dates are given as numbers
or as texts. Each day of each stock is a job of its own: what goes wrong in it is counted and noted,
and the next job goes on. At the end the sync record, if the object has one from other calls, is
written to its file. The minutes of a day come with one request, the transactions in pages of 2000.
The offset of a page is passed as a `u16`, so that the paging loop ends in any case: there is no
page behind the 33rd.

## Main definitions

* `Tdxrs.intOfText`, `Tdxrs.normalizeDates` — the dates that are given.
* `Tdxrs.dayJobs` — the jobs of a download.
* `Tdxrs.downloadDays` — the jobs one after the other; `Tdxrs.DayState.printSummary` — the end.
* `Tdxrs.downloadMinute`, `Tdxrs.downloadTicks` — the two downloads.

## Main results

* `Tdxrs.intOfText_formatDate` — the text of a date is read as its number.
-/

namespace Tdxrs

/-! ## Jobs -/

/-- A market as it is given, by its number or by its name. -/
inductive MarketArgument where
  | number (n : ℤ)
  | name (t : Text)
deriving DecidableEq, Repr

/-- The number of a market that has a name becomes the name. -/
def normalizeMarket : MarketArgument → MarketArgument
  | .number 0 => .name "sz".toList
  | .number 1 => .name "sh".toList
  | m => m

/-- The name and the number of a market that can be downloaded. -/
def marketOf : MarketArgument → Option (Text × UInt8)
  | .number _ => none
  | .name t =>
    if t = "sh".toList then some (t, marketSh)
    else if t = "sz".toList then some (t, marketSz)
    else none

/-- A date as it is given. What is neither a number nor a text is passed over. -/
inductive DateArgument where
  | number (n : ℤ)
  | text (t : Text)
  | other
deriving DecidableEq, Repr

/-- The digits of a number that are left, behind those of `value`. Between two digits there may be
an underscore. What counts as a digit is up to `decimal`. -/
def readDigits (decimal : Char → Option ℕ) : (value : ℕ) → (afterDigit : Bool) → Text → Option ℕ
  | value, afterDigit, [] => if afterDigit then some value else none
  | value, afterDigit, c :: t =>
    if c = '_' then if afterDigit then readDigits decimal value false t else none
    else (decimal c).bind fun digit => readDigits decimal (10 * value + digit) true t

/-- `int()` of a text: a sign and digits, but not more than 4300, with blanks around them. -/
def intOfText (decimal : Char → Option ℕ) (t : Text) : Except PyError ℤ :=
  let (negative, digits) := match TextLines.strip t with
    | '+' :: rest => (false, rest)
    | '-' :: rest => (true, rest)
    | rest => (false, rest)
  if 4300 < (digits.filter fun c => c ≠ '_').length then .error .value
  else
    match readDigits decimal 0 false digits with
    | some n => .ok (if negative then -n else n)
    | none => .error .value

/-- The numbers of dates. The hyphens in a text are dropped. -/
def dateNumbers (decimal : Char → Option ℕ) : List DateArgument → Except PyError (List ℤ)
  | [] => .ok []
  | .number n :: dates => (dateNumbers decimal dates).map (n :: ·)
  | .text t :: dates =>
    match intOfText decimal (t.filter fun c => c ≠ '-') with
    | .error e => .error e
    | .ok n => (dateNumbers decimal dates).map (n :: ·)
  | .other :: dates => dateNumbers decimal dates

/-- The dates of a download: each once, in order. A single date counts as a list. -/
def normalizeDates (decimal : Char → Option ℕ) (dates : List DateArgument) :
    Except PyError (List ℤ) :=
  (dateNumbers decimal dates).map fun numbers => numbers.dedup.insertionSort (· ≤ ·)

/-- One day of a stock. -/
structure DayJob where
  marketName : Text
  market : UInt8
  code : Text
  date : ℤ
deriving DecidableEq

/-- The file `{code}_{date}.csv` in a directory of a market. -/
structure DayPath where
  marketDir : Text
  dirName : Text
  code : Text
  date : ℤ
deriving DecidableEq

/-- Where the file of a job is. -/
def DayJob.path (dirName : Text) (job : DayJob) : DayPath :=
  ⟨job.marketName, dirName, job.code, job.date⟩

/-- The jobs of a download, market by market and stock by stock. -/
def dayJobs (markets : Option (List MarketArgument)) (codes : List Text) (dates : List ℤ) :
    List DayJob :=
  let markets := (markets.getD [.name "sh".toList, .name "sz".toList]).map normalizeMarket
  (markets.filterMap marketOf).flatMap fun (name, market) =>
    codes.flatMap fun code => dates.map fun date => ⟨name, market, code, date⟩

/-! ## The download -/

/-- The files by day, the sync record as the object has it and as its file has it, the counters, and
the world of the servers with the pool. -/
structure DayState (σ : Type) where
  world : σ
  files : DayPath → Option Bytes
  syncData : Option SyncRecord
  lastSync : Option SyncRecord
  done : ℕ
  skipped : ℕ
  failed : ℕ
  errors : List (Text × ℤ × PyError)

variable {σ ρ : Type}

/-- A job: without data it is skipped, otherwise its file is written. -/
def dayStep (dirName : Text) (fetch : DayJob → σ → Except PyError (List ρ) × σ)
    (file : ℤ → List ρ → Bytes) (s : DayState σ) (job : DayJob) : DayState σ :=
  match fetch job s.world with
  | (.error e, w) =>
    { s with
      world := w
      failed := s.failed + 1
      errors := s.errors ++ [(job.code, job.date, e)] }
  | (.ok [], w) => { s with world := w, skipped := s.skipped + 1 }
  | (.ok (r :: data), w) =>
    { s with
      world := w
      files := Function.update s.files (job.path dirName) (some (file job.date (r :: data)))
      done := s.done + 1 }

/-- The jobs one after the other. -/
def downloadDays (dirName : Text) (fetch : DayJob → σ → Except PyError (List ρ) × σ)
    (file : ℤ → List ρ → Bytes) (jobs : List DayJob) (s : DayState σ) : DayState σ :=
  jobs.foldl (dayStep dirName fetch file) s

/-- The end of a download: the record in memory, if there is one, is written to its file. -/
def DayState.printSummary (s : DayState σ) : DayState σ :=
  match s.syncData with
  | some sync => { s with lastSync := some sync }
  | none => s

/-- A download by day. Without codes nothing is done, and the summary is left out. -/
def downloadByDay (decimal : Char → Option ℕ) (dirName : Text)
    (fetch : DayJob → σ → Except PyError (List ρ) × σ) (file : ℤ → List ρ → Bytes)
    (dates : List DateArgument) (codes : List Text) (markets : Option (List MarketArgument))
    (s : DayState σ) : Except PyError Unit × DayState σ :=
  match normalizeDates decimal dates with
  | .error e => (.error e, s)
  | .ok dates =>
    if codes.isEmpty then (.ok (), s)
    else (.ok (), (downloadDays dirName fetch file (dayJobs markets codes dates) s).printSummary)

/-- The servers of a pool: a request takes the next server, and goes to it. -/
structure DayClient (σ : Type) where
  nextClient : σ → σ
  /-- By market, code and date. -/
  getHistoryMinuteTimeData : UInt8 → Text → ℕ → σ → Except TdxError (List MinuteTimePrice) × σ
  /-- By market, code, start, count and date. -/
  getHistoryTransactionData : UInt8 → Text → ℕ → ℕ → ℕ → σ → Except TdxError (List TickData) × σ

/-- A number as an argument of so many bits. -/
def argument (bits : ℕ) (n : ℤ) : Except PyError ℕ :=
  if 0 ≤ n ∧ n < 2 ^ bits then .ok n.toNat else .error .overflow

/-- The date of a row in a file. -/
def dateFormat (date : ℤ) : Text :=
  let s := Decimal.integer date
  s.take 4 ++ '-' :: (s.drop 4).take 2 ++ '-' :: (s.drop 6).take 2

/-! ### Minutes -/

/-- One request for the minutes of a day. -/
def fetchMinutes (client : DayClient σ) (job : DayJob) (w : σ) :
    Except PyError (List MinuteTimePrice) × σ :=
  let w := client.nextClient w
  match argument 32 job.date with
  | .error e => (.error e, w)
  | .ok date =>
    match client.getHistoryMinuteTimeData job.market job.code date w with
    | (.error e, w) => (.error (.client e), w)
    | (.ok data, w) => (.ok data, w)

/-- The row of a minute. No column needs quotes. -/
def minuteRow (date : ℤ) (m : MinuteTimePrice) : Text :=
  dateFormat date ++ ' ' :: m.time ++ ',' :: Decimal.fixed 3 m.price ++
    ',' :: Decimal.integer (pyInt m.vol)

/-- The header of a file of minutes. -/
def minuteHeader : Text := "datetime,price,vol".toList

/-- A file of minutes, in the order of the texts of their times. -/
def minuteFile (date : ℤ) (data : List MinuteTimePrice) : Bytes :=
  let rows := data.insertionSort fun a b => a.time ≤ b.time
  writeRows (minuteHeader :: rows.map (minuteRow date))

/-- Downloads minutes day by day. -/
def downloadMinute (decimal : Char → Option ℕ) (client : DayClient σ) (dates : List DateArgument)
    (codes : List Text) (markets : Option (List MarketArgument)) (s : DayState σ) :
    Except PyError Unit × DayState σ :=
  downloadByDay decimal "minute".toList (fetchMinutes client) minuteFile dates codes markets s

/-! ### Transactions -/

/-- How many transactions a request asks for. -/
def ticksPerRequest : ℕ := 2000

/-- The pages of a day that are left to fetch, from `start` on. -/
def fetchTickPages (client : DayClient σ) (job : DayJob) (start : ℕ) (allTicks : List TickData)
    (w : σ) : Except PyError (List TickData) × σ :=
  let w := client.nextClient w
  if start < 2 ^ 16 then
    match argument 32 job.date with
    | .error e => (.error e, w)
    | .ok date =>
      match client.getHistoryTransactionData job.market job.code start ticksPerRequest date w with
      | (.error e, w) => (.error (.client e), w)
      | (.ok data, w) =>
        if data.isEmpty then (.ok allTicks, w)
        else if data.length < ticksPerRequest then (.ok (allTicks ++ data), w)
        else fetchTickPages client job (start + ticksPerRequest) (allTicks ++ data) w
  else (.error .overflow, w)
termination_by 2 ^ 16 - start
decreasing_by
  simp only [ticksPerRequest]
  omega

/-- The transactions of a day. -/
def fetchTicks (client : DayClient σ) (job : DayJob) (w : σ) :
    Except PyError (List TickData) × σ :=
  fetchTickPages client job 0 [] w

/-- The row of a transaction. No column needs quotes. -/
def tickRow (date : ℤ) (t : TickData) : Text :=
  dateFormat date ++ ' ' :: t.time ++ ',' :: Decimal.fixed 3 t.price ++
    ',' :: Decimal.integer (pyInt t.vol) ++ ',' :: Decimal.integer t.num ++
    ',' :: Decimal.integer t.buyorsell

/-- The header of a file of transactions. -/
def tickHeader : Text := "datetime,price,vol,num,buyorsell".toList

/-- A file of transactions, in the order in which they came. -/
def tickFile (date : ℤ) (data : List TickData) : Bytes :=
  writeRows (tickHeader :: data.map (tickRow date))

/-- Downloads transactions day by day. -/
def downloadTicks (decimal : Char → Option ℕ) (client : DayClient σ) (dates : List DateArgument)
    (codes : List Text) (markets : Option (List MarketArgument)) (s : DayState σ) :
    Except PyError Unit × DayState σ :=
  downloadByDay decimal "ticks".toList (fetchTicks client) tickFile dates codes markets s

/-! ## Dates as texts -/

/-- The digits that every interpreter knows. -/
def asciiDecimal (c : Char) : Option ℕ := if c.isDigit then some (c.toNat - '0'.toNat) else none

/-- Digits are read as the number that they stand for. -/
lemma readDigits_of_isDigit {decimal : Char → Option ℕ}
    (hdecimal : ∀ c n, asciiDecimal c = some n → decimal c = some n) {t : Text}
    (ht : ∀ c ∈ t, c.isDigit) (value : ℕ) :
    readDigits decimal value true t = some (Nat.ofDigitChars 10 t value) := by
  induction t generalizing value with
  | nil => rfl
  | cons c t ih =>
    obtain ⟨hc, ht⟩ := List.forall_mem_cons.mp ht
    have hunderscore : c ≠ '_' := by
      rintro rfl
      exact absurd hc (by decide)
    rw [readDigits, if_neg hunderscore, hdecimal c _ (if_pos hc), Option.bind_some, ih ht,
      Nat.ofDigitChars_cons]

/-- `int()` of a text of digits.

**Proof sketch.** Digits have no spaces to strip, no sign and no underscores, and are few enough.
What is left is the loop over the digits (`readDigits_of_isDigit`). -/
lemma intOfText_of_isDigit {decimal : Char → Option ℕ}
    (hdecimal : ∀ c n, asciiDecimal c = some n → decimal c = some n) {t : Text} (hne : t ≠ [])
    (ht : ∀ c ∈ t, c.isDigit) (hlen : t.length ≤ 4300) :
    intOfText decimal t = .ok (Nat.ofDigitChars 10 t 0 : ℕ) := by
  have hfew : ¬ 4300 < (t.filter fun c => c ≠ '_').length :=
    not_lt.mpr ((List.length_filter_le _ t).trans hlen)
  have hread : readDigits decimal 0 false t = some (Nat.ofDigitChars 10 t 0) := by
    rw [← readDigits_of_isDigit hdecimal ht]
    obtain ⟨c, t, rfl⟩ := List.exists_cons_of_ne_nil hne
    have hunderscore : c ≠ '_' := by
      rintro rfl
      exact absurd (ht '_' List.mem_cons_self) (by decide)
    rw [readDigits, readDigits, if_neg hunderscore, if_neg hunderscore]
  rw [intOfText, TextLines.strip_of_forall fun c hc => (digit_facts (ht c hc)).2.2]
  split
  rename_i negative digits hsplit
  split at hsplit
  · exact absurd (ht '+' List.mem_cons_self) (by decide)
  · exact absurd (ht '-' List.mem_cons_self) (by decide)
  · obtain ⟨rfl, rfl⟩ := Prod.mk.inj hsplit
    rw [if_neg hfew, hread]
    rfl

/-- The text of a date without its hyphens. -/
lemma filter_formatDate (year month day : ℕ) :
    (formatDate year month day).filter (fun c => c ≠ '-') =
      Decimal.pad 4 year ++ (Decimal.pad 2 month ++ Decimal.pad 2 day) := by
  have hpad (w n : ℕ) : (Decimal.pad w n).filter (fun c => c ≠ '-') = Decimal.pad w n := by
    refine List.filter_eq_self.mpr fun c hc => decide_eq_true ?_
    rintro rfl
    exact absurd (Decimal.isDigit_of_mem_pad hc) (by decide)
  simp only [formatDate, List.filter_append, List.filter_cons, hpad, List.append_assoc]
  rfl

/-- **The text of a date is read as its number**, `YYYYMMDD`. -/
theorem intOfText_formatDate {decimal : Char → Option ℕ}
    (hdecimal : ∀ c n, asciiDecimal c = some n → decimal c = some n) {year month day : ℕ}
    (hyear : year < 10000) (hmonth : month < 100) (hday : day < 100) :
    intOfText decimal ((formatDate year month day).filter fun c => c ≠ '-') =
      .ok (dateKey year month day : ℕ) := by
  have hmd : Decimal.pad (2 + 2) (month * 10 ^ 2 + day) = _ :=
    Decimal.pad_add (by decide) (by decide) hmonth hday
  have hpad : Decimal.pad (4 + (2 + 2)) (year * 10 ^ 4 + (month * 10 ^ 2 + day)) = _ :=
    Decimal.pad_add (by decide) (by decide) hyear (by omega)
  have hlen := Decimal.length_pad (by decide : 0 < 4 + (2 + 2))
    (by omega : year * 10 ^ 4 + (month * 10 ^ 2 + day) < 10 ^ (4 + (2 + 2)))
  rw [filter_formatDate, ← hmd, ← hpad, intOfText_of_isDigit hdecimal
    (List.ne_nil_of_length_eq_add_one hlen) (fun c => Decimal.isDigit_of_mem_pad) (by omega),
    Decimal.ofDigitChars_pad, dateKey, Nat.add_assoc]
  rfl

end Tdxrs
