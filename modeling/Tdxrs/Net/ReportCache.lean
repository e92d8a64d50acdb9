import Tdxrs.Library.Pacing
import Tdxrs.Library.TransitionSystem
import Tdxrs.Net.FinanceClient

set_option relaxedAutoImplicit false
set_option autoImplicit false

/-!
# The cache of report files over whole runs

What the cache directory of `TdxFinanceClient` (`src/net/finance_client.rs`) is for: a file is asked
for as often as one likes, but downloaded once in 24 hours, and what is given is never older than
that. Files are told apart by the last part of their names alone: not by their directories, and not
by the size that is asked for.

## Main definitions

* `Tdxrs.ReportRun`, `Tdxrs.reportStep` — calls one after the other, with their downloads.
* `Tdxrs.lastDownload` — the last download of a file.

## Main results

* `Tdxrs.report_cache_fresh` — what the calls give, and how often they download.
-/

namespace Tdxrs

open Pacing

variable {σ : Type}

/-! ## Runs -/

/-- A download that went into the cache. -/
structure ReportDownload where
  filename : String
  filesize : UInt32
  data : Bytes
  time : ℕ
deriving DecidableEq

/-- A call that came to an end: when it began, its result, and how many downloads there were by
then. -/
structure ReportResult where
  filename : String
  asked : ℕ
  result : Except TdxError Bytes
  seen : ℕ

/-- A client with the downloads and the results so far. -/
structure ReportRun (σ : Type) where
  state : FinanceState σ
  downloads : List ReportDownload
  results : List ReportResult

/-- A call for a file, or time that goes by in the world. -/
inductive ReportEvent (σ : Type) where
  | call (filename : String) (filesize : UInt32) (fuel : ℕ)
  | elapse (w : σ)

/-- The downloads after a call with a result. -/
def ReportRun.downloadsAfter (env : FinanceEnv σ) (s : ReportRun σ) (filename : String)
    (filesize : UInt32) (result : Except TdxError Bytes) (state : FinanceState σ) :
    List ReportDownload :=
  match result with
  | .error _ => s.downloads
  | .ok data =>
    if (env.cacheGet filename s.state).isSome then s.downloads
    else s.downloads ++ [⟨filename, filesize, data, env.now state.world⟩]

/-- An event. -/
def reportStep (env : FinanceEnv σ) (s : ReportRun σ) : ReportEvent σ → Option (ReportRun σ)
  | .call filename filesize fuel =>
    (env.getReportFileBySize filename filesize fuel s.state).map fun (result, state) =>
      let downloads := s.downloadsAfter env filename filesize result state
      { state, downloads
        results := s.results ++ [⟨filename, env.now s.state.world, result, downloads.length⟩] }
  | .elapse w =>
    if env.now s.state.world ≤ env.now w then
      some { s with state := { s.state with world := w } }
    else none

/-- A client with an empty cache directory. -/
def ReportRun.init (w : σ) : ReportRun σ := ⟨⟨w, fun _ => none⟩, [], []⟩

/-- The downloads of a file. -/
def downloadsOf (name : Text) (downloads : List ReportDownload) : List ReportDownload :=
  downloads.filter fun d => shortName d.filename = name

/-- The last download of a file. -/
def lastDownload (name : Text) (downloads : List ReportDownload) : Option ReportDownload :=
  (downloadsOf name downloads).getLast?

/-! ## One call -/

/-- The clock does not go back during a request. -/
def FinanceEnv.Clocked (env : FinanceEnv σ) : Prop :=
  ∀ packet w, env.now w ≤ env.now (env.sendAndRecv packet w).2

/-- The disk takes every file. -/
def FinanceEnv.DiskTakes (env : FinanceEnv σ) : Prop :=
  ∀ name data w, env.write name data w = some data

section Call

variable {env : FinanceEnv σ} {filename : String} {filesize : UInt32} {fuel : ℕ}

lemma now_getReportFile (hclock : env.Clocked) (filename : String) (offset : ℕ) (w : σ) :
    env.now w ≤ env.now (env.getReportFile filename offset w).2 := by
  have h := hclock (reportFilePacket filename offset) w
  unfold FinanceEnv.getReportFile
  rcases hreply : env.sendAndRecv (reportFilePacket filename offset) w with ⟨e | body, w'⟩ <;>
    rw [hreply] at h <;> exact h

/-- The clock does not go back while pages are fetched.

**Proof sketch.** Induction on the pages: each is a request, which takes time, and the loop ends or
goes on. -/
lemma now_downloadPages (hclock : env.Clocked) (filename : String) (pages : List ℕ) (data : Bytes)
    (w : σ) :
    env.now w ≤ env.now (env.downloadPages filename pages data w).2 := by
  induction pages generalizing data w with
  | nil => exact le_rfl
  | cons page pages ih =>
    have h := now_getReportFile hclock filename (page * reportChunkSize) w
    rw [FinanceEnv.downloadPages]
    rcases hreply : env.getReportFile filename (page * reportChunkSize) w with ⟨e | chunk, w'⟩ <;>
      rw [hreply] at h
    · exact h
    · simp only
      split
      · exact h
      · split
        · exact h
        · exact h.trans (ih _ w')

/-- The clock does not go back during a download.

**Proof sketch.** Without a size there is a first request and then the pages (`now_downloadPages`).
With one there is the loop, in which the clock has not gone back is an invariant, and the last round
makes one more request or none. -/
lemma now_downloadReportFile (hclock : env.Clocked) {w w' : σ} {result : Except TdxError Bytes}
    (h : env.downloadReportFile filename filesize fuel w = some (result, w')) :
    env.now w ≤ env.now w' := by
  unfold FinanceEnv.downloadReportFile at h
  split at h
  · have hfirst := now_getReportFile hclock filename 0 w
    rcases hreply : env.getReportFile filename 0 w with ⟨e | first, w₁⟩ <;>
      rw [hreply] at h hfirst
    · obtain ⟨-, rfl⟩ := Prod.mk.inj (Option.some.inj h)
      exact hfirst
    · simp only at h
      split at h
      · obtain ⟨-, rfl⟩ := Prod.mk.inj (Option.some.inj h)
        exact hfirst
      · have hpages := now_downloadPages hclock filename [1, 2, 3] first w₁
        rw [Option.some.inj h] at hpages
        exact hfirst.trans hpages
  · obtain ⟨d, hreach, hlast⟩ := Loop.run_iff.mp ⟨fuel, h⟩
    have hd : env.now w ≤ env.now d.world := by
      refine Loop.invariant (I := fun d => env.now w ≤ env.now d.world) ?_ le_rfl hreach
      intro d d' hd hstep
      obtain ⟨-, chunk, hreply, -⟩ := FinanceEnv.downloadStep_inl hstep
      have h := now_getReportFile hclock filename d.offset d.world
      rw [hreply] at h
      exact hd.trans h
    rcases FinanceEnv.downloadStep_inr hlast with ⟨-, heq⟩ | ⟨-, w₁, hcases⟩
    · rw [(Prod.mk.inj heq).2]
      exact hd
    · have h := now_getReportFile hclock filename d.offset d.world
      rcases hcases with ⟨e, hreply, heq⟩ | ⟨chunk, hreply, heq⟩ <;> rw [hreply] at h <;>
        rw [(Prod.mk.inj heq).2] <;> exact hd.trans h

/-- What a call does: it finds the file in the cache, or fails to download it, or downloads it.

**Proof sketch.** The branches of the call: the cache has the file; or it has not, and the download
fails or succeeds, which puts the file into the cache. -/
lemma getReportFileBySize_cases {s s' : FinanceState σ} {result : Except TdxError Bytes}
    (h : env.getReportFileBySize filename filesize fuel s = some (result, s')) :
    (∃ data, env.cacheGet filename s = some data ∧ result = .ok data ∧ s' = s) ∨
      env.cacheGet filename s = none ∧ ∃ w,
        env.downloadReportFile filename filesize fuel s.world = some (result, w) ∧
          ((∃ e, result = .error e ∧ s' = { s with world := w }) ∨
            ∃ data, result = .ok data ∧
              s' = env.cachePut filename data { s with world := w }) := by
  unfold FinanceEnv.getReportFileBySize at h
  cases hget : env.cacheGet filename s with
  | some data =>
    rw [hget] at h
    obtain ⟨rfl, rfl⟩ := Prod.mk.inj (Option.some.inj h)
    exact .inl ⟨data, rfl, rfl, rfl⟩
  | none =>
    rw [hget] at h
    simp only at h
    rcases hload : env.downloadReportFile filename filesize fuel s.world with - | ⟨e | data, w⟩ <;>
      rw [hload] at h
    · exact nomatch h
    · obtain ⟨rfl, rfl⟩ := Prod.mk.inj (Option.some.inj h)
      exact .inr ⟨rfl, w, rfl, .inl ⟨e, rfl, rfl⟩⟩
    · obtain ⟨rfl, rfl⟩ := Prod.mk.inj (Option.some.inj h)
      exact .inr ⟨rfl, w, rfl, .inr ⟨data, rfl, rfl⟩⟩

/-- What is in the cache, and for how long.

**Proof sketch.** The file is returned unless it is not there, is from the future or is older than
the cache keeps files. -/
lemma cacheGet_eq_some_iff (hdir : env.cacheDir = true) {s : FinanceState σ} {data : Bytes} :
    env.cacheGet filename s = some data ↔ ∃ mtime, s.files (shortName filename) =
      some ⟨mtime, data⟩ ∧ mtime ≤ env.now s.world ∧ env.now s.world ≤ mtime + cacheTtl := by
  unfold FinanceEnv.cacheGet
  rw [if_pos hdir]
  cases s.files (shortName filename) with
  | none => simp
  | some file =>
    obtain ⟨mtime, stored⟩ := file
    simp only [Option.some.injEq, CachedFile.mk.injEq]
    split
    · refine iff_of_false (fun h => nomatch h) ?_
      rintro ⟨_, ⟨rfl, -⟩, hfrom, huntil⟩
      omega
    · refine ⟨fun h => ⟨mtime, ⟨rfl, Option.some.inj h⟩, by omega, by omega⟩, ?_⟩
      rintro ⟨_, ⟨-, rfl⟩, -, -⟩
      rfl

end Call

/-! ## Downloads of a file -/

section Downloads

variable {name : Text} {downloads : List ReportDownload} {d : ReportDownload}

lemma downloadsOf_concat (name : Text) (downloads : List ReportDownload) (d : ReportDownload) :
    downloadsOf name (downloads ++ [d]) =
      if shortName d.filename = name then downloadsOf name downloads ++ [d]
      else downloadsOf name downloads := by
  unfold downloadsOf
  rw [List.filter_append, List.filter_singleton]
  by_cases h : shortName d.filename = name <;> simp [h]

/-- A new download is the last one of its file, and of no other file. -/
lemma lastDownload_concat (name : Text) (downloads : List ReportDownload) (d : ReportDownload) :
    lastDownload name (downloads ++ [d]) =
      if shortName d.filename = name then some d else lastDownload name downloads := by
  unfold lastDownload
  rw [downloadsOf_concat]
  split
  · rw [List.getLast?_concat]
  · rfl

lemma mem_of_lastDownload (h : d ∈ lastDownload name downloads) :
    d ∈ downloads ∧ shortName d.filename = name := by
  have hmem := List.mem_of_getLast? h
  exact ⟨List.mem_of_mem_filter hmem, by simpa using List.of_mem_filter hmem⟩

end Downloads

/-! ## The invariant -/

/-- When the downloads of a file took place, and how far they have to be apart. -/
def stamps (name : Text) (downloads : List ReportDownload) : List (Stamp ℕ) :=
  (downloadsOf name downloads).map fun d => ⟨d.time, cacheTtl + 1⟩

/-- What holds of every state: the cache has the last download of each file, the downloads of a file
are more than 24 hours apart, and every result was the last download by then. -/
structure ReportRun.Inv (env : FinanceEnv σ) (s : ReportRun σ) : Prop where
  past : ∀ d ∈ s.downloads, d.time ≤ env.now s.state.world
  files : ∀ name, s.state.files name =
    (lastDownload name s.downloads).map fun d => ⟨d.time, d.data⟩
  apart : ∀ name, Paced (stamps name s.downloads)
  made : ∀ d ∈ s.downloads, ∃ fuel w w',
    env.downloadReportFile d.filename d.filesize fuel w = some (.ok d.data, w') ∧
      env.now w' = d.time
  seen : ∀ r ∈ s.results, r.seen ≤ s.downloads.length
  results : ∀ r ∈ s.results, ∀ data, r.result = .ok data →
    ∃ d ∈ lastDownload (shortName r.filename) (s.downloads.take r.seen),
      d.data = data ∧ r.asked ≤ d.time + cacheTtl

namespace ReportRun

variable {env : FinanceEnv σ} {s s' : ReportRun σ}

lemma inv_init (env : FinanceEnv σ) (w : σ) : (ReportRun.init w).Inv env where
  past _ h := absurd h List.not_mem_nil
  files _ := rfl
  apart _ := .nil
  made _ h := absurd h List.not_mem_nil
  seen _ h := absurd h List.not_mem_nil
  results _ h := absurd h List.not_mem_nil

/-- Time goes by, in a call or between calls. -/
lemma Inv.elapse (h : s.Inv env) {w : σ} (hw : env.now s.state.world ≤ env.now w) :
    ReportRun.Inv env { s with state := { s.state with world := w } } :=
  { h with past := fun d hd => (h.past d hd).trans hw }

/-- A call that downloads nothing has a result. -/
lemma Inv.result (h : s.Inv env) {r : ReportResult} (hseen : r.seen = s.downloads.length)
    (hr : ∀ data, r.result = .ok data → ∃ d ∈ lastDownload (shortName r.filename) s.downloads,
      d.data = data ∧ r.asked ≤ d.time + cacheTtl) :
    ReportRun.Inv env { s with results := s.results ++ [r] } := by
  refine { h with seen := fun x hx => ?_, results := fun x hx data hdata => ?_ }
  · rcases List.mem_append.mp hx with hx | hx
    · exact h.seen x hx
    · rw [List.mem_singleton.mp hx, hseen]
  · rcases List.mem_append.mp hx with hx | hx
    · exact h.results x hx data hdata
    · obtain rfl := List.mem_singleton.mp hx
      rw [hseen, List.take_length]
      exact hr data hdata

/-- A download goes into the cache. It is more than 24 hours behind the last one of its file, as the
cache did not have the file any more.

**Proof sketch.** The disk takes the file, so the cache holds the last download of every file. The
one before of this file, if there is one, was in the cache and was not found, and since it is not
from the future it must have expired; so the new one is more than 24 hours behind it. All other
files and their downloads are as they were. -/
lemma Inv.download (h : s.Inv env) (hdir : env.cacheDir = true) (hdisk : env.DiskTakes)
    {filename : String} {filesize : UInt32} {fuel : ℕ} {data : Bytes} {w : σ}
    (hget : env.cacheGet filename s.state = none)
    (hload : env.downloadReportFile filename filesize fuel s.state.world = some (.ok data, w))
    (hw : env.now s.state.world ≤ env.now w) :
    ReportRun.Inv env
      { s with
        state := env.cachePut filename data { s.state with world := w }
        downloads := s.downloads ++ [⟨filename, filesize, data, env.now w⟩] } := by
  have hput : env.cachePut filename data { s.state with world := w } =
      { world := w
        files := Function.update s.state.files (shortName filename) (some ⟨env.now w, data⟩) } := by
    rw [FinanceEnv.cachePut, if_pos hdir, hdisk]
  rw [hput]
  refine ⟨fun d hd => ?_, fun name => ?_, fun name => ?_, fun d hd => ?_, fun r hr => ?_,
    fun r hr => ?_⟩
  · rcases List.mem_append.mp hd with hd | hd
    · exact (h.past d hd).trans hw
    · rw [List.mem_singleton.mp hd]
  · show Function.update s.state.files (shortName filename) _ name = _
    rw [lastDownload_concat]
    by_cases hname : shortName filename = name
    · rw [if_pos hname, ← hname, Function.update_self]
      rfl
    · rw [if_neg hname, Function.update_of_ne (Ne.symm hname)]
      exact h.files name
  · rw [stamps, downloadsOf_concat]
    by_cases hname : shortName filename = name
    · rw [if_pos hname, List.map_append]
      refine (h.apart name).concat (Nat.zero_le _) fun last hlast => ?_
      rw [stamps, List.getLast?_map, Option.mem_map] at hlast
      obtain ⟨d, hd, rfl⟩ := hlast
      -- the file of the last download is there, so that it must have expired
      have hfile := h.files name
      rw [Option.mem_def.mp (show d ∈ lastDownload name s.downloads from hd), Option.map_some,
        ← hname] at hfile
      by_contra hsoon
      have hpast := h.past d (mem_of_lastDownload hd).1
      have hhit := (cacheGet_eq_some_iff hdir (s := s.state)).mpr
        ⟨d.time, hfile, hpast, by simp only [not_le] at hsoon; omega⟩
      rw [hget] at hhit
      exact absurd hhit.symm (Option.some_ne_none _)
    · rw [if_neg hname]
      exact h.apart name
  · rcases List.mem_append.mp hd with hd | hd
    · exact h.made d hd
    · obtain rfl := List.mem_singleton.mp hd
      exact ⟨fuel, _, w, hload, rfl⟩
  · rw [List.length_append]
    exact (h.seen r hr).trans (Nat.le_add_right _ _)
  · rw [List.take_append_of_le_length (h.seen r hr)]
    exact h.results r hr

/-- **Every event keeps the invariant.**

**Proof sketch.** By what the call does. A file that is found in the cache is the last download of
it and not older than 24 hours; a download that fails changes nothing but the time; and one that
succeeds is `Inv.download`, whose result is the file that has just been downloaded. -/
theorem Inv.step (hdir : env.cacheDir = true) (hclock : env.Clocked) (hdisk : env.DiskTakes)
    (s : ReportRun σ) (e : ReportEvent σ) (s' : ReportRun σ) (h : s.Inv env)
    (hstep : reportStep env s e = some s') : s'.Inv env := by
  cases e with
  | elapse w =>
    rw [reportStep] at hstep
    split at hstep
    · rename_i hw
      obtain rfl := Option.some.inj hstep
      exact h.elapse hw
    · exact nomatch hstep
  | call filename filesize fuel =>
    obtain ⟨⟨result, state⟩, hcall, rfl⟩ := Option.map_eq_some_iff.mp hstep
    rcases getReportFileBySize_cases hcall with ⟨data, hget, rfl, rfl⟩ | ⟨hget, w, hload, hcases⟩
    · have hsame : s.downloadsAfter env filename filesize (.ok data) s.state = s.downloads := by
        simp only [ReportRun.downloadsAfter, hget, Option.isSome_some, if_true]
      simp only [hsame]
      refine h.result rfl fun data' hdata => ?_
      obtain rfl := Except.ok.inj hdata
      obtain ⟨mtime, hfile, -, huntil⟩ := (cacheGet_eq_some_iff hdir).mp hget
      rw [h.files] at hfile
      obtain ⟨d, hd, hcached⟩ := Option.map_eq_some_iff.mp hfile
      obtain ⟨htime, hdata⟩ := CachedFile.mk.inj hcached
      exact ⟨d, hd, hdata, htime ▸ huntil⟩
    · have hw := now_downloadReportFile hclock hload
      rcases hcases with ⟨e, rfl, rfl⟩ | ⟨data, rfl, rfl⟩
      · have hsame : s.downloadsAfter env filename filesize (.error e)
            { s.state with world := w } = s.downloads := rfl
        simp only [hsame]
        exact (h.elapse hw).result rfl fun data hdata => nomatch hdata
      · have hworld : (env.cachePut filename data { s.state with world := w }).world = w := by
          rw [FinanceEnv.cachePut, if_pos hdir, hdisk]
        have hmore : s.downloadsAfter env filename filesize (.ok data)
            (env.cachePut filename data { s.state with world := w }) =
              s.downloads ++ [⟨filename, filesize, data, env.now w⟩] := by
          simp only [ReportRun.downloadsAfter, hget, hworld, Option.isSome_none, Bool.false_eq_true,
            if_false]
        simp only [hmore]
        refine (h.download hdir hdisk hget hload hw).result rfl fun data' hdata => ?_
        obtain rfl := Except.ok.inj hdata
        refine ⟨⟨filename, filesize, data, env.now w⟩, ?_, rfl, hw.trans (Nat.le_add_right _ _)⟩
        rw [lastDownload_concat, if_pos rfl]
        rfl

end ReportRun

/-- **The cache of report files.** In every run of calls for report files, from an empty cache
directory on, with a clock that does not go back and a disk that takes every file: a call that does
not fail gives the last download of a file with the same short name by then, its own one if it made
one, and this was not over more than 24 hours before the call; every download was one of a call for
the file and the size in the log; and in any `n` times 24 hours there are at most `n` downloads of
files with one short name.

**Proof sketch.** The invariant says that the cache holds the last download of every file, that the
downloads of a file are 24 hours apart, and that every result was fresh; `Inv.step` keeps it. The
number of downloads in a time is then bounded as for any events that are so far apart
(`Paced.length_window_le`). -/
theorem report_cache_fresh {env : FinanceEnv σ} (hdir : env.cacheDir = true)
    (hclock : env.Clocked) (hdisk : env.DiskTakes) (w : σ) (es : List (ReportEvent σ))
    (s : ReportRun σ) (hrun : Transition.run (reportStep env) (.init w) es = some s) :
    (∀ r ∈ s.results, ∀ data, r.result = .ok data →
      ∃ d ∈ lastDownload (shortName r.filename) (s.downloads.take r.seen),
        d.data = data ∧ r.asked ≤ d.time + cacheTtl) ∧
    (∀ d ∈ s.downloads, ∃ fuel w w',
      env.downloadReportFile d.filename d.filesize fuel w = some (.ok d.data, w') ∧
        env.now w' = d.time) ∧
    ∀ name start n, ((downloadsOf name s.downloads).filter fun d =>
      start ≤ d.time ∧ d.time < start + n * cacheTtl).length ≤ n := by
  have h := Transition.run_invariant (ReportRun.Inv.step hdir hclock hdisk)
    (ReportRun.inv_init env w) hrun
  refine ⟨h.results, h.made, fun name start n => ?_⟩
  have hinterval : ∀ x ∈ stamps name s.downloads, cacheTtl ≤ x.interval := by
    intro x hx
    obtain ⟨d, -, rfl⟩ := List.mem_map.mp hx
    exact Nat.le_succ cacheTtl
  have hwindow := (h.apart name).length_window_le start n fun x hx _ _ => hinterval x hx
  rw [stamps, List.filter_map, List.length_map] at hwindow
  exact hwindow

/-- A client at a clock that goes on by an hour in each request. Every response is a chunk of two
bytes. -/
def hourlyEnv : FinanceEnv ℕ where
  sendAndRecv _ w := (.ok [2, 0, 0, 0, 7, 8], w + 3600 * 10 ^ 9)
  now w := w
  cacheDir := true
  write _ data _ := some data

/-- One file is asked for by three names and with three sizes: at once again, in a directory after
20 hours, and in no directory after 30 hours. -/
def fourCalls : List (ReportEvent ℕ) :=
  [.call "tdxfin/gpcw.txt" 0 1, .call "tdxfin/gpcw.txt" 2 1, .elapse (20 * 3600 * 10 ^ 9),
    .call "other/gpcw.txt" 9 1, .elapse (30 * 3600 * 10 ^ 9), .call "gpcw.txt" 0 1]

/-- Of the four calls two download the file. -/
theorem report_cache_fresh_four : ∃ s,
    Transition.run (reportStep hourlyEnv) (.init 0) fourCalls = some s ∧
      s.results.length = 4 ∧ s.downloads.length = 2 ∧
      (∀ r ∈ s.results, ∀ data, r.result = .ok data →
        ∃ d ∈ lastDownload (shortName r.filename) (s.downloads.take r.seen),
          d.data = data ∧ r.asked ≤ d.time + cacheTtl) := by
  have hlengths : (Transition.run (reportStep hourlyEnv) (.init 0) fourCalls).map
      (fun s => (s.results.length, s.downloads.length)) = some (4, 2) := by decide +kernel
  obtain ⟨s, hrun, hs⟩ := Option.map_eq_some_iff.mp hlengths
  obtain ⟨hresults, hdownloads⟩ := Prod.mk.inj hs
  exact ⟨s, hrun, hresults, hdownloads,
    (report_cache_fresh rfl (fun _ w => Nat.le_add_right w _) (fun _ _ _ => rfl) 0 fourCalls s
      hrun).1⟩

end Tdxrs
