import Tdxrs.Downloader.DayDownloads

set_option relaxedAutoImplicit false
set_option autoImplicit false

/-!
# Runs of a download by day

What a download by day leaves behind, job by job: with any servers the counters and the files are
determined by what the requests of each job give, and with servers that have a database of the days
the files are determined by the database. Beside the files of its jobs a download writes one more:
that of the sync record, if the object has one in memory.

## Main definitions

* `Tdxrs.fetched` — what the requests of the jobs give.
* `Tdxrs.DayAccounts` — the counters and the files are those of the single jobs.
* `Tdxrs.DayCall` — what a whole call leaves behind, the sync record among it.
* `Tdxrs.DayClient.ServesTicks`, `Tdxrs.DayClient.ServesMinutes` — servers with a database.

## Main results

* `Tdxrs.day_jobs_isolated` — every job is counted once, and changes only its own file.
* `Tdxrs.tick_days_stored` — the transactions of a server with a database.
* `Tdxrs.minute_days_stored` — the minutes of a server with a database.
-/

namespace Tdxrs

open Window

variable {σ ρ : Type}

/-! ## What the requests give -/

/-- What the requests of the jobs give, one job after the other. -/
def fetched (fetch : DayJob → σ → Except PyError (List ρ) × σ) :
    List DayJob → σ → List (DayJob × Except PyError (List ρ))
  | [], _ => []
  | job :: jobs, w => (job, (fetch job w).1) :: fetched fetch jobs (fetch job w).2

/-- There is data for a job. -/
def hasData (r : DayJob × Except PyError (List ρ)) : Bool :=
  match r.2 with
  | .ok data => !data.isEmpty
  | .error _ => false

/-- There is nothing for a job. -/
def hasNothing (r : DayJob × Except PyError (List ρ)) : Bool :=
  match r.2 with
  | .ok data => data.isEmpty
  | .error _ => false

/-- The entry for a job that failed. -/
def failure : DayJob × Except PyError (List ρ) → Option (Text × ℤ × PyError)
  | (job, .error e) => some (job.code, job.date, e)
  | (_, .ok _) => none

/-- What a job writes to a file. -/
def written (dirName : Text) (file : ℤ → List ρ → Bytes) (path : DayPath)
    (r : DayJob × Except PyError (List ρ)) : Option Bytes :=
  match r.2 with
  | .ok data =>
    if data.isEmpty = false ∧ r.1.path dirName = path then some (file r.1.date data) else none
  | .error _ => none

/-- The counters and the files after a download: each job is counted once, errors are noted in
order, and a file is what the last job for it with data has written. -/
structure DayAccounts (dirName : Text) (file : ℤ → List ρ → Bytes)
    (rs : List (DayJob × Except PyError (List ρ))) (s s' : DayState σ) : Prop where
  done : s'.done = s.done + rs.countP hasData
  skipped : s'.skipped = s.skipped + rs.countP hasNothing
  errors : s'.errors = s.errors ++ rs.filterMap failure
  failed : s'.failed = s.failed + (rs.filterMap failure).length
  all : s'.done + s'.skipped + s'.failed = s.done + s.skipped + s.failed + rs.length
  files : ∀ path, s'.files path =
    (rs.reverse.findSome? (written dirName file path)).or (s.files path)

/-- What a call whose dates can be read leaves behind: the accounts of its jobs; and if it was given
any codes, the file of the sync record has the record that the object has in memory, if it has
one. -/
structure DayCall (dirName : Text) (file : ℤ → List ρ → Bytes)
    (rs : List (DayJob × Except PyError (List ρ))) (codes : List Text) (s : DayState σ)
    (r : Except PyError Unit × DayState σ) : Prop where
  returns : r.1 = .ok ()
  accounts : DayAccounts dirName file rs s r.2
  syncData : r.2.syncData = s.syncData
  lastSync : r.2.lastSync = if codes = [] then s.lastSync else s.syncData.or s.lastSync

section Accounts

variable {dirName : Text} {file : ℤ → List ρ → Bytes}
  {fetch : DayJob → σ → Except PyError (List ρ) × σ} {s s' s'' : DayState σ}
  {rs rs' : List (DayJob × Except PyError (List ρ))}

/-- One job.

**Proof sketch.** By the outcome of the job: an error and an empty answer write nothing, and an
answer with data writes the file of the job and no other. -/
lemma dayStep_accounts (dirName : Text) (file : ℤ → List ρ → Bytes)
    (fetch : DayJob → σ → Except PyError (List ρ) × σ) (s : DayState σ) (job : DayJob) :
    DayAccounts dirName file [(job, (fetch job s.world).1)] s (dayStep dirName fetch file s job) ∧
      (dayStep dirName fetch file s job).world = (fetch job s.world).2 := by
  unfold dayStep
  rcases fetch job s.world with ⟨e | data, w⟩
  · refine ⟨⟨rfl, rfl, rfl, rfl, rfl, fun path => rfl⟩, rfl⟩
  · cases data with
    | nil => exact ⟨⟨rfl, rfl, (List.append_nil _).symm, rfl, by simp; omega, fun path => rfl⟩, rfl⟩
    | cons r data =>
      refine ⟨⟨rfl, rfl, (List.append_nil _).symm, rfl, by simp; omega, fun path => ?_⟩, rfl⟩
      by_cases hpath : job.path dirName = path
      · subst hpath
        simp [written]
      · simp [written, hpath, Function.update_of_ne (Ne.symm hpath)]

/-- More jobs behind others. -/
lemma DayAccounts.trans (h : DayAccounts dirName file rs s s')
    (h' : DayAccounts dirName file rs' s' s'') : DayAccounts dirName file (rs ++ rs') s s'' where
  done := by rw [h'.done, h.done, List.countP_append, Nat.add_assoc]
  skipped := by rw [h'.skipped, h.skipped, List.countP_append, Nat.add_assoc]
  errors := by rw [h'.errors, h.errors, List.filterMap_append, List.append_assoc]
  failed := by
    rw [h'.failed, h.failed, List.filterMap_append, List.length_append, Nat.add_assoc]
  all := by
    rw [h'.all, h.all, List.length_append, Nat.add_assoc]
  files path := by
    rw [h'.files, h.files, List.reverse_append, List.findSome?_append, Option.or_assoc]

/-- The jobs one after the other. -/
theorem downloadDays_accounts (jobs : List DayJob) (s : DayState σ) :
    DayAccounts dirName file (fetched fetch jobs s.world) s
      (downloadDays dirName fetch file jobs s) := by
  induction jobs generalizing s with
  | nil => exact ⟨rfl, rfl, (List.append_nil _).symm, rfl, rfl, fun path => rfl⟩
  | cons job jobs ih =>
    obtain ⟨hstep, hworld⟩ := dayStep_accounts dirName file fetch s job
    have hrest := ih (dayStep dirName fetch file s job)
    rw [hworld] at hrest
    exact hstep.trans hrest

/-- A list in which all elements give the same, or nothing. -/
lemma findSome?_eq {α β : Type} {f : α → Option β} {o : Option β} {l : List α}
    (hall : ∀ a ∈ l, f a = o ∨ f a = none) (hone : ∃ a ∈ l, f a = o) : l.findSome? f = o := by
  cases o with
  | none =>
    refine List.findSome?_eq_none_iff.mpr fun a ha => ?_
    exact (hall a ha).elim id id
  | some b =>
    obtain ⟨a, ha, hfa⟩ := hone
    have hsome : (l.findSome? f).isSome := List.findSome?_isSome_iff.mpr ⟨a, ha, by rw [hfa]; rfl⟩
    obtain ⟨b', hb'⟩ := Option.isSome_iff_exists.mp hsome
    obtain ⟨a', ha', hfa'⟩ := List.exists_of_findSome?_eq_some hb'
    rw [hb', ← hfa']
    exact (hall a' ha').resolve_right (by rw [hfa']; exact Option.some_ne_none _)

variable {answer : DayJob → Except PyError (List ρ)} {jobs : List DayJob}

/-- Requests whose outcome does not depend on the world. -/
lemma fetched_eq_map (hfetch : ∀ job w, (fetch job w).1 = answer job) (jobs : List DayJob) (w : σ) :
    fetched fetch jobs w = jobs.map fun job => (job, answer job) := by
  induction jobs generalizing w with
  | nil => rfl
  | cons job jobs ih => rw [fetched, ih, hfetch, List.map_cons]

/-- The file of a job, when no other job has the same file.

**Proof sketch.** Any job that writes this file has the same path, so it is this job and writes the
same; the last job to write it is therefore as good as this one. -/
lemma DayAccounts.file_of_job
    (h : DayAccounts dirName file (jobs.map fun job => (job, answer job)) s s')
    (hpaths : ∀ job ∈ jobs, ∀ job' ∈ jobs, job.path dirName = job'.path dirName → job = job')
    {job : DayJob} (hjob : job ∈ jobs) :
    s'.files (job.path dirName) =
      (written dirName file (job.path dirName) (job, answer job)).or
        (s.files (job.path dirName)) := by
  rw [h.files]
  refine congrArg (Option.or · _) (findSome?_eq (fun r hr => ?_) ⟨(job, answer job), ?_, rfl⟩)
  · obtain ⟨job', hjob', rfl⟩ := List.mem_map.mp (List.mem_reverse.mp hr)
    by_cases hsame : job'.path dirName = job.path dirName
    · exact .inl (hpaths job' hjob' job hjob hsame ▸ rfl)
    · refine .inr ?_
      unfold written
      split
      · exact if_neg fun h => hsame h.2
      · rfl
  · exact List.mem_reverse.mpr (List.mem_map.mpr ⟨job, hjob, rfl⟩)

/-- The jobs leave the sync record as it is. -/
lemma downloadDays_sync (dirName : Text) (fetch : DayJob → σ → Except PyError (List ρ) × σ)
    (file : ℤ → List ρ → Bytes) (jobs : List DayJob) (s : DayState σ) :
    (downloadDays dirName fetch file jobs s).syncData = s.syncData ∧
      (downloadDays dirName fetch file jobs s).lastSync = s.lastSync := by
  induction jobs generalizing s with
  | nil => exact ⟨rfl, rfl⟩
  | cons job jobs ih =>
    obtain ⟨hdata, hlast⟩ := ih (dayStep dirName fetch file s job)
    have hstep : (dayStep dirName fetch file s job).syncData = s.syncData ∧
        (dayStep dirName fetch file s job).lastSync = s.lastSync := by
      unfold dayStep
      split <;> exact ⟨rfl, rfl⟩
    exact ⟨hdata.trans hstep.1, hlast.trans hstep.2⟩

/-- The summary is not among the accounts. -/
lemma DayAccounts.printSummary (h : DayAccounts dirName file rs s s') :
    DayAccounts dirName file rs s s'.printSummary := by
  unfold DayState.printSummary
  split
  · exact ⟨h.done, h.skipped, h.errors, h.failed, h.all, h.files⟩
  · exact h

/-- What the summary makes of the sync record. -/
lemma printSummary_sync (s : DayState σ) :
    s.printSummary.syncData = s.syncData ∧
      s.printSummary.lastSync = s.syncData.or s.lastSync := by
  unfold DayState.printSummary
  split
  · rename_i hsync
    rw [hsync]
    exact ⟨rfl, rfl⟩
  · rename_i hsync
    rw [hsync]
    exact ⟨rfl, rfl⟩

/-- Without codes there are no jobs. -/
lemma dayJobs_nil (markets : Option (List MarketArgument)) (dates : List ℤ) :
    dayJobs markets [] dates = [] := by
  simp [dayJobs]

variable {decimal : Char → Option ℕ} {dates : List DateArgument} {days : List ℤ}

/-- **What a whole call leaves behind.**

**Proof sketch.** The jobs are worked through in order, which `downloadDays_accounts` accounts for,
from the worlds in which they are fetched. Without codes there are no jobs and the summary is not
reached; with codes it comes last and changes only the record of the last sync
(`printSummary_sync`). -/
theorem downloadByDay_call (hdates : normalizeDates decimal dates = .ok days) (codes : List Text)
    (markets : Option (List MarketArgument)) (s : DayState σ) :
    DayCall dirName file (fetched fetch (dayJobs markets codes days) s.world) codes s
      (downloadByDay decimal dirName fetch file dates codes markets s) := by
  have haccounts : DayAccounts dirName file (fetched fetch (dayJobs markets codes days) s.world) s
      (downloadDays dirName fetch file (dayJobs markets codes days) s) :=
    downloadDays_accounts _ s
  unfold downloadByDay
  rw [hdates]
  by_cases hcodes : codes = []
  · subst hcodes
    rw [dayJobs_nil] at haccounts ⊢
    exact ⟨rfl, haccounts, rfl, (if_pos rfl).symm⟩
  · have hnonempty : codes.isEmpty = false := List.isEmpty_eq_false_iff.mpr hcodes
    obtain ⟨hdata, hlast⟩ := downloadDays_sync dirName fetch file (dayJobs markets codes days) s
    obtain ⟨hdata', hlast'⟩ :=
      printSummary_sync (downloadDays dirName fetch file (dayJobs markets codes days) s)
    simp only [hnonempty, Bool.false_eq_true, if_false]
    refine ⟨rfl, haccounts.printSummary, hdata'.trans hdata, ?_⟩
    rw [if_neg hcodes, hlast', hdata, hlast]

/-- A call whose dates cannot be read does nothing. -/
lemma downloadByDay_error {e : PyError} (hdates : normalizeDates decimal dates = .error e)
    (codes : List Text) (markets : Option (List MarketArgument)) (s : DayState σ) :
    downloadByDay decimal dirName fetch file dates codes markets s = (.error e, s) := by
  rw [downloadByDay, hdates]

end Accounts

/-- The number of a market that can be downloaded goes with its name.

**Proof sketch.** Only the names `sh` and `sz` are markets, each with its number; a number is
none. -/
lemma marketOf_eq_some {m : MarketArgument} {name : Text} {market : UInt8}
    (h : marketOf m = some (name, market)) :
    market = if name = "sh".toList then marketSh else marketSz := by
  unfold marketOf at h
  cases m with
  | number n => cases h
  | name t =>
    simp only at h
    split at h
    · rename_i hname
      obtain ⟨rfl, rfl⟩ := Prod.mk.inj (Option.some.inj h)
      rw [if_pos hname]
    · rename_i hname
      split at h
      · obtain ⟨rfl, rfl⟩ := Prod.mk.inj (Option.some.inj h)
        rw [if_neg hname]
      · cases h

/-- The jobs of a download are told apart by their files.

**Proof sketch.** The path holds the name of the market, the code and the date, and the number of
the market goes with its name (`marketOf_eq_some`), so the path determines the job. -/
lemma dayJobs_path_inj {markets : Option (List MarketArgument)} {codes : List Text}
    {dates : List ℤ} (dirName : Text) :
    ∀ job ∈ dayJobs markets codes dates, ∀ job' ∈ dayJobs markets codes dates,
      job.path dirName = job'.path dirName → job = job' := by
  have hmarket : ∀ job ∈ dayJobs markets codes dates,
      job.market = if job.marketName = "sh".toList then marketSh else marketSz := by
    intro job hjob
    obtain ⟨⟨name, market⟩, hmem, hjob⟩ := List.mem_flatMap.mp hjob
    obtain ⟨code, -, hjob⟩ := List.mem_flatMap.mp hjob
    obtain ⟨date, -, rfl⟩ := List.mem_map.mp hjob
    obtain ⟨m, -, hm⟩ := List.mem_filterMap.mp hmem
    exact marketOf_eq_some hm
  intro job hjob job' hjob' hpath
  obtain ⟨hname, -, hcode, hdate⟩ := DayPath.mk.inj hpath
  have hsame : job.market = job'.market := by rw [hmarket job hjob, hmarket job' hjob', hname]
  cases job
  cases job'
  rw [DayJob.mk.injEq]
  exact ⟨hname, hsame, hcode, hdate⟩

/-- The date of a job can be passed on. -/
def DayJob.DateFits (job : DayJob) : Prop := 0 ≤ job.date ∧ job.date < 2 ^ 32

instance (job : DayJob) : Decidable job.DateFits := by
  unfold DayJob.DateFits
  exact inferInstance

lemma argument_date (job : DayJob) :
    argument 32 job.date = if job.DateFits then .ok job.date.toNat else .error .overflow := rfl

/-! ## Answers that do not depend on the world -/

/-- What a download leaves behind when the requests of each job give `stored job` or, if the job
does not fit, an error. -/
structure DaysStored (dirName : Text) (file : ℤ → List ρ → Bytes) (Fits : DayJob → Prop)
    [DecidablePred Fits] (stored : DayJob → List ρ) (jobs : List DayJob) (s s' : DayState σ) :
    Prop where
  file : ∀ job ∈ jobs, Fits job → stored job ≠ [] →
    s'.files (job.path dirName) = some (file job.date (stored job))
  kept : ∀ path, (∀ job ∈ jobs, Fits job → stored job ≠ [] → job.path dirName ≠ path) →
    s'.files path = s.files path
  done : s'.done = s.done + jobs.countP fun job => Fits job ∧ stored job ≠ []
  skipped : s'.skipped = s.skipped + jobs.countP fun job => Fits job ∧ stored job = []
  failed : s'.failed = s.failed + jobs.countP fun job => ¬ Fits job
  errors : s'.errors = s.errors ++
    (jobs.filter fun job => ¬ Fits job).map fun job => (job.code, job.date, .overflow)

section Stored

variable {dirName : Text} {file : ℤ → List ρ → Bytes}
  {fetch : DayJob → σ → Except PyError (List ρ) × σ} {Fits : DayJob → Prop} [DecidablePred Fits]
  {stored : DayJob → List ρ} {jobs : List DayJob}

/-- The entries for the jobs that do not fit. -/
lemma filterMap_failure (jobs : List DayJob) :
    (jobs.map fun job => (job, if Fits job then .ok (stored job) else .error .overflow)).filterMap
        failure =
      (jobs.filter fun job => ¬ Fits job).map fun job => (job.code, job.date, .overflow) := by
  induction jobs with
  | nil => rfl
  | cons job jobs ih =>
    rw [List.map_cons, List.filterMap_cons, ih]
    by_cases hfits : Fits job
    · rw [List.filter_cons_of_neg (by simpa using hfits), if_pos hfits]
      rfl
    · rw [List.filter_cons_of_pos (by simpa using hfits), if_neg hfits, List.map_cons]
      rfl

/-- **A download whose requests give the same in every world.**

**Proof sketch.** Since a request gives the same in every world, the results are known from the jobs
(`fetched_eq_map`). A job with data is the only one of its path, so its file is the last one written
there; on every other path nothing is written. The counts of the jobs with data, without data and
with an error are counts over the jobs. -/
theorem DayAccounts.daysStored
    (hfetch : ∀ job w, (fetch job w).1 =
      if Fits job then .ok (stored job) else .error .overflow)
    (hpaths : ∀ job ∈ jobs, ∀ job' ∈ jobs, job.path dirName = job'.path dirName → job = job')
    {s s' : DayState σ}
    (haccounts : DayAccounts dirName file (fetched fetch jobs s.world) s s') :
    DaysStored dirName file Fits stored jobs s s' := by
  rw [fetched_eq_map hfetch] at haccounts
  have hwritten (path : DayPath) (job : DayJob) : written dirName file path
      (job, if Fits job then .ok (stored job) else .error .overflow) =
        if Fits job ∧ stored job ≠ [] ∧ job.path dirName = path then
          some (file job.date (stored job)) else none := by
    by_cases hfits : Fits job <;> simp [written, hfits, List.isEmpty_eq_false_iff]
  have herrors := haccounts.errors
  rw [filterMap_failure] at herrors
  refine ⟨fun job hjob hfits hdata => ?_, fun path hpath => ?_, ?_, ?_, ?_, herrors⟩
  · rw [haccounts.file_of_job hpaths hjob, hwritten, if_pos ⟨hfits, hdata, rfl⟩, Option.some_or]
  · rw [haccounts.files]
    refine (congrArg (Option.or · _) (List.findSome?_eq_none_iff.mpr fun r hr => ?_)).trans
      (Option.none_or)
    obtain ⟨job, hjob, rfl⟩ := List.mem_map.mp (List.mem_reverse.mp hr)
    rw [hwritten, if_neg fun h => hpath job hjob h.1 h.2.1 h.2.2]
  · rw [haccounts.done, List.countP_map]
    congr 2
    funext job
    by_cases hfits : Fits job <;> cases hdata : stored job <;> simp [hasData, hfits, hdata]
  · rw [haccounts.skipped, List.countP_map]
    congr 2
    funext job
    by_cases hfits : Fits job <;> cases hdata : stored job <;> simp [hasNothing, hfits, hdata]
  · rw [haccounts.failed, filterMap_failure, List.length_map, List.countP_eq_length_filter]

end Stored

/-! ## Transactions -/

/-- A list of transactions that can be written can be written in parts. -/
lemma TickRecord.allFollow_of_append {newer : List TickRecord} :
    ∀ {older : List TickRecord} {prev : ℤ}, AllFollow prev (older ++ newer) →
      AllFollow prev older ∧ AllFollow 0 newer
  | [], _, h => by
    refine ⟨trivial, ?_⟩
    cases newer with
    | nil => trivial
    | cons r rs => exact ⟨⟨h.1.minutes, ⟨by decide, h.1.prices.2.1, by simpa using h.1.prices.2.1⟩,
        h.1.vol, h.1.words⟩, h.2⟩
  | _ :: _, _, h =>
    let ⟨hold, hnew⟩ := allFollow_of_append h.2
    ⟨⟨h.1, hold⟩, hnew⟩

/-- A slice of the transactions can be written. -/
lemma TickRecord.allFollow_slice {rs : List TickRecord} (h : AllFollow 0 rs) (start count : ℕ) :
    AllFollow 0 (slice rs start count) := by
  rw [← rdrop_append_rtake rs start] at h
  have hold := (allFollow_of_append h).1
  rw [← rdrop_append_slice rs start count] at hold
  exact (allFollow_of_append hold).2

/-- Servers that answer a request for transactions by a slice of those in a database. -/
structure DayClient.ServesTicks (client : DayClient σ) (db : UInt8 → Text → ℕ → List TickRecord) :
    Prop where
  follow : ∀ market code date, TickRecord.AllFollow 0 (db market code date)
  answer : ∀ market code start count date w, start < 2 ^ 16 → count < 2 ^ 16 →
    ∃ skipped : Bytes, skipped.length = 4 ∧
      (client.getHistoryTransactionData market code start count date w).1 =
        parseHistoryTransactionDataWithCoefficient
          (encodeHistoryTransactions skipped (slice (db market code date) start count))
          (getSecurityCoefficient market code)

/-- The transactions of a day in a database. -/
def ticksOf (db : UInt8 → Text → ℕ → List TickRecord) (job : DayJob) : List TickData :=
  (db job.market job.code job.date.toNat).map
    (TickRecord.historyTick (getSecurityCoefficient job.market job.code))

/-- The transactions of a day as they are stored, newest page first. -/
def ticksStored (db : UInt8 → Text → ℕ → List TickRecord) (job : DayJob) : List TickData :=
  newestPages ticksPerRequest (ticksOf db job) (ticksOf db job).length

/-- What a day gives: 33 pages are too many. -/
def tickAnswer (db : UInt8 → Text → ℕ → List TickRecord) (job : DayJob) :
    Except PyError (List TickData) :=
  if job.DateFits ∧ (ticksOf db job).length < 66000 then .ok (ticksStored db job)
  else .error .overflow

section Ticks

variable {client : DayClient σ} {db : UInt8 → Text → ℕ → List TickRecord} {job : DayJob}

/-- A page. -/
lemma DayClient.ServesTicks.page (h : client.ServesTicks db) (job : DayJob) {start count : ℕ}
    (hstart : start < 2 ^ 16) (hcount : count < 2 ^ 16) (w : σ) :
    (client.getHistoryTransactionData job.market job.code start count job.date.toNat w).1 =
      .ok (slice (ticksOf db job) start count) := by
  obtain ⟨skipped, hskipped, hanswer⟩ :=
    h.answer job.market job.code start count job.date.toNat w hstart hcount
  have hlen : (slice (db job.market job.code job.date.toNat) start count).length < 2 ^ 16 := by
    rw [length_slice]
    omega
  have hfollow := TickRecord.allFollow_slice (h.follow job.market job.code job.date.toNat) start
    count
  rw [hanswer, ticksOf, slice_map]
  exact parseHistoryTransactionDataM_encode inRange_wrapping hskipped hlen hfollow

/-- The paging loop, from any page on.

**Proof sketch.** Induction on the pages that are left; with them the start grows up to 66000, which
is above what 16 bits carry, so a day of that many transactions ends in an error. A page that is
short or empty is the last one, and any other is put behind those before, with the next start one
page further on. -/
lemma fetchTickPages_serves (h : client.ServesTicks db) (hdate : job.DateFits) (pagesLeft : ℕ) :
    ∀ (start : ℕ) (all : List TickData) (w : σ),
      start + pagesLeft * ticksPerRequest = 66000 → start ≤ (ticksOf db job).length →
      (fetchTickPages client job start all w).1 =
        if (ticksOf db job).length < 66000 then
          .ok (all ++ (pages ticksPerRequest start ((ticksOf db job).length - start)).flatMap
            fun r => slice (ticksOf db job) r.1 r.2)
        else .error .overflow := by
  induction pagesLeft with
  | zero =>
    intro start all w hstart hlen
    rw [fetchTickPages, if_neg (by omega), if_neg (by omega)]
  | succ pagesLeft ih =>
    intro start all w hstart hlen
    rw [Nat.succ_mul] at hstart
    have hsize : ticksPerRequest = 2000 := rfl
    have hfits : start < 2 ^ 16 := by omega
    have hpage := h.page job hfits (by decide : ticksPerRequest < 2 ^ 16) (client.nextClient w)
    have hlength := length_slice (ticksOf db job) start ticksPerRequest
    rw [fetchTickPages]
    simp only [if_pos hfits, argument_date, if_pos hdate]
    rcases hreq : client.getHistoryTransactionData job.market job.code start ticksPerRequest
      job.date.toNat (client.nextClient w) with ⟨result, w'⟩
    rw [hreq] at hpage
    obtain rfl : result = .ok (slice (ticksOf db job) start ticksPerRequest) := hpage
    simp only
    by_cases hshort : (ticksOf db job).length - start < ticksPerRequest
    · -- the last page: a short one, or none
      have hall : (ticksOf db job).length < 66000 := by omega
      rw [if_pos hall, flatMap_pages_short hshort]
      split
      · rename_i hempty
        rw [List.isEmpty_iff.mp hempty, List.append_nil]
      · rw [if_pos (by omega)]
    · have hnonempty : ¬ (slice (ticksOf db job) start ticksPerRequest).isEmpty := by
        rw [List.isEmpty_iff, slice_eq_nil_iff]
        omega
      have hmin : min ((ticksOf db job).length - start) ticksPerRequest = ticksPerRequest := by
        omega
      rw [if_neg hnonempty, if_neg (by omega), ih _ _ w' (by omega) (by omega),
        pages_of_pos (by decide) (by omega : 0 < (ticksOf db job).length - start), hmin,
        List.flatMap_cons, List.append_assoc, Nat.sub_sub]

/-- The transactions of a day, all at once. -/
lemma fetchTicks_serves (h : client.ServesTicks db) (job : DayJob) (w : σ) :
    (fetchTicks client job w).1 = tickAnswer db job := by
  unfold fetchTicks tickAnswer ticksStored newestPages
  by_cases hdate : job.DateFits
  · rw [fetchTickPages_serves h hdate 33 0 [] w rfl (Nat.zero_le _)]
    simp only [hdate, true_and, List.nil_append, Nat.sub_zero]
  · have hnot : ¬ (job.DateFits ∧ (ticksOf db job).length < 66000) := fun hboth => hdate hboth.1
    rw [if_neg hnot, fetchTickPages]
    simp only [Nat.reducePow, Nat.ofNat_pos, if_true, argument_date, if_neg hdate]

/-- The transactions that are stored are those of the day, each once; page by page they are in the
order of the day only if there is one page. -/
lemma ticksStored_perm (db : UInt8 → Text → ℕ → List TickRecord) (job : DayJob) :
    (ticksStored db job).Perm (ticksOf db job) ∧
      ((ticksOf db job).Nodup →
        (ticksStored db job = ticksOf db job ↔ (ticksOf db job).length ≤ 2000)) := by
  have hall := rtake_of_le (le_refl (ticksOf db job).length)
  refine ⟨(newestPages_perm (by decide) _ _).trans (.of_eq hall), fun hnodup => ?_⟩
  have heq := newestPages_eq_iff (R := (· ≠ ·)) (fun a h => h rfl) (by decide : 0 < ticksPerRequest)
    hnodup (ticksOf db job).length
  rw [hall, or_self] at heq
  exact heq

end Ticks

/-- Servers that answer a request for the minutes of a day by those in a database. -/
structure DayClient.ServesMinutes (client : DayClient σ)
    (db : UInt8 → Text → ℕ → List MinuteRecord) : Prop where
  follow : ∀ market code date, MinuteRecord.AllFollow 0 (db market code date)
  answer : ∀ market code date w, ∃ header : Bytes, header.length = 6 ∧
    (client.getHistoryMinuteTimeData market code date w).1 =
      parseHistoryMinuteTimeData (encodeHistoryMinutes header (db market code date)) market code

/-- The minutes of a day in a database, in their order. -/
def minutesOf (db : UInt8 → Text → ℕ → List MinuteRecord) (job : DayJob) : List MinuteTimePrice :=
  let rs := db job.market job.code job.date.toNat
  List.ofFn fun k : Fin rs.length =>
    minuteAfter (getSecurityCoefficient job.market job.code) (rs.take k) rs[k]

/-- The minutes of a day as the request gives them, the newest first.

**Proof sketch.** A date that does not fit the request is refused before anything is sent. Otherwise
the answer is an encoded day, which the parser reads back (`parseHistoryMinuteTimeData_encode`). -/
lemma fetchMinutes_serves {client : DayClient σ} {db : UInt8 → Text → ℕ → List MinuteRecord}
    (h : client.ServesMinutes db) (job : DayJob) (w : σ) :
    (fetchMinutes client job w).1 =
      if job.DateFits then .ok (minutesOf db job).reverse else .error .overflow := by
  unfold fetchMinutes
  rw [argument_date]
  by_cases hdate : job.DateFits
  · obtain ⟨header, hheader, hanswer⟩ :=
      h.answer job.market job.code job.date.toNat (client.nextClient w)
    rw [parseHistoryMinuteTimeData_encode hheader (h.follow job.market job.code job.date.toNat)]
      at hanswer
    simp only [if_pos hdate]
    rcases hreq : client.getHistoryMinuteTimeData job.market job.code job.date.toNat
      (client.nextClient w) with ⟨result, w'⟩
    rw [hreq] at hanswer
    obtain rfl : result = .ok (minutesOf db job).reverse := hanswer
    rfl
  · simp only [if_neg hdate]

/-- Texts of times are in the order of the times, as long as the hours have two digits. -/
lemma minutesText_lt_iff {m m' : ℕ} (h : m < 6000) (h' : m' < 6000) :
    minutesText m < minutesText m' ↔ m < m' := by
  rw [minutesText, minutesText, Decimal.pad_append_lt_iff (by decide) (by omega) (by omega),
    Decimal.pad_lt_pad_iff (by decide) (by omega) (by omega)]
  omega

/-- The times of the minutes of a day are in order. -/
lemma minuteTimeFromIndex_lt {i j : ℕ} (hij : i < j) (hj : j < 5339) :
    minuteTimeFromIndex i < minuteTimeFromIndex j := by
  unfold minuteTimeFromIndex
  rw [minutesText_lt_iff (by split <;> omega) (by split <;> omega)]
  split <;> split <;> omega

lemma minutesOf_pairwise (db : UInt8 → Text → ℕ → List MinuteRecord) {job : DayJob}
    (hlen : (minutesOf db job).length ≤ 5339) :
    (minutesOf db job).Pairwise fun a b => a.time < b.time := by
  rw [minutesOf, List.length_ofFn] at hlen
  refine List.pairwise_ofFn.mpr fun i j hij => ?_
  have hi : ((db job.market job.code job.date.toNat).take i).length = i := by
    rw [List.length_take, Nat.min_eq_left i.2.le]
  have hj : ((db job.market job.code job.date.toNat).take j).length = j := by
    rw [List.length_take, Nat.min_eq_left j.2.le]
  simp only [minuteAfter, hi, hj]
  exact minuteTimeFromIndex_lt hij (by omega)

/-- A sort undoes a reversal of what is strictly in order. -/
lemma insertionSort_reverse {α : Type} (key : α → Text) {l : List α}
    (h : l.Pairwise fun a b => key a < key b) :
    l.reverse.insertionSort (fun a b => key a ≤ key b) = l := by
  have htotal : Std.Total fun a b => key a ≤ key b := ⟨fun a b => le_total _ _⟩
  have htrans : IsTrans α fun a b => key a ≤ key b := ⟨fun _ _ _ => le_trans⟩
  have hperm := (List.perm_insertionSort (fun a b => key a ≤ key b) l.reverse).trans
    (List.reverse_perm l)
  refine hperm.eq_of_pairwise (fun a b ha hb hab hba => ?_)
    (List.pairwise_insertionSort _ _) (h.imp le_of_lt)
  have hkeys : (l.map key).Nodup := List.pairwise_map.mpr (h.imp ne_of_lt)
  exact List.inj_on_of_nodup_map hkeys (hperm.mem_iff.mp ha) hb (le_antisymm hab hba)

/-- A server with a database of minutes and one of transactions, which counts its requests. -/
def dayClient (minutes : UInt8 → Text → ℕ → List MinuteRecord)
    (ticks : UInt8 → Text → ℕ → List TickRecord) : DayClient ℕ where
  nextClient w := w + 1
  getHistoryMinuteTimeData market code date w :=
    (parseHistoryMinuteTimeData (encodeHistoryMinutes [0, 0, 0, 0, 0, 0]
      (minutes market code date)) market code, w)
  getHistoryTransactionData market code start count date w :=
    (parseHistoryTransactionDataWithCoefficient
      (encodeHistoryTransactions [0, 0, 0, 0] (slice (ticks market code date) start count))
      (getSecurityCoefficient market code), w)

/-- A day of one stock with two minutes. -/
def minutesInJune (market : UInt8) (_ : Text) (date : ℕ) : List MinuteRecord :=
  if market = 1 ∧ date = 20260625 then [⟨1000, 0, 5⟩, ⟨1010, 0, 7⟩] else []

/-- A day of one stock with two transactions. -/
def ticksInJune (market : UInt8) (_ : Text) (date : ℕ) : List TickRecord :=
  if market = 1 ∧ date = 20260625 then [⟨570, 1000, 5, 1, 0, 0⟩, ⟨571, 999, 7, 2, 1, 0⟩] else []

/-- Before the first download. -/
def noDays : DayState ℕ := ⟨0, fun _ => none, none, none, 0, 0, 0, []⟩

/-- Two dates, one of them as a text and as a number. -/
def juneDates : List DateArgument :=
  [.text "2026-06-25".toList, .number 20260624, .number 20260625]

lemma normalizeDates_june :
    normalizeDates asciiDecimal juneDates = .ok [20260624, 20260625] := by
  decide +kernel

lemma dayClient_servesTicks (minutes : UInt8 → Text → ℕ → List MinuteRecord) :
    (dayClient minutes ticksInJune).ServesTicks ticksInJune where
  follow market code date := by
    unfold ticksInJune
    split
    · exact ⟨⟨by decide, by decide, by decide, by decide⟩,
        ⟨by decide, by decide, by decide, by decide⟩, trivial⟩
    · trivial
  answer market code start count date w _ _ := ⟨[0, 0, 0, 0], rfl, rfl⟩

lemma dayClient_servesMinutes (ticks : UInt8 → Text → ℕ → List TickRecord) :
    (dayClient minutesInJune ticks).ServesMinutes minutesInJune where
  follow market code date := by
    unfold minutesInJune
    split
    · exact ⟨⟨by decide, by decide, by decide⟩, ⟨by decide, by decide, by decide⟩, trivial⟩
    · trivial
  answer market code date w := ⟨[0, 0, 0, 0, 0, 0], rfl, rfl⟩

/-- The sync record of an object that has downloaded days before. -/
def juneRecord : SyncRecord := [("sh/600519".toList, [("daily".toList, "2026-06-24".toList)])]

end Tdxrs
