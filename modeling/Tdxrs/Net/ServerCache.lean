import Mathlib.Algebra.Group.Nat.Defs
import Mathlib.Logic.Function.Basic
import Mathlib.Order.Basic
import Mathlib.Data.Nat.Basic
import Mathlib.Tactic.ByContra
import Tdxrs.Net.Pool

set_option relaxedAutoImplicit false
set_option autoImplicit false

/-!
# The server cache of the smart client

`ServerCache` of `src/net/smart_client.rs`: the server of the last success, the counters of each
server, and the blacklist. An entry of the blacklist is active for a day. Servers that fail three
times in a row get an entry that their next success deletes; entries for empty K-lines and for
replies that cannot be parsed are left to expire.

Clock readings are in seconds; each operation reads the clock once. The file of the cache and its
format version are left out.

## Main definitions

* `Tdxrs.ServerCache` — the cache.
* `Tdxrs.ServerCache.addToBlacklist`, `recordSuccess`, `recordFailure` — its operations.
* `Tdxrs.ServerCache.VerdictSurvives` — a verdict that is given now blacklists the server for a
  day, whatever happens.

## Main results

* `Tdxrs.protocol_verdict_iff` — when a protocol-level verdict survives.
* `Tdxrs.protocol_verdict_lost` — a verdict about a server that is blacklisted for failures does
  not.
-/

namespace Tdxrs

/-! ## The cache -/

/-- The server of the last success. -/
structure ServerCacheEntry where
  server : Server
  name : String
  timestamp : ℕ
  latencyMs : UInt32
deriving DecidableEq, Repr

/-- A server that is to be passed over, with the reason. -/
structure BlacklistEntry where
  server : Server
  reason : String
  timestamp : ℕ
deriving DecidableEq, Repr

/-- The counters of a server. -/
structure ServerStats where
  success : UInt32
  fail : UInt32
  avgLatency : UInt32
  consecutiveFail : UInt32
deriving DecidableEq, Repr

/-- The counters of a server that is new. -/
def ServerStats.new : ServerStats := ⟨0, 0, 0, 0⟩

/-- So many failures in a row blacklist a server. -/
def blacklistFailStreak : UInt32 := 3

/-- The reason of entries for failures in a row. -/
def blacklistReasonStreak : String := "connect_fail_streak"

/-- The reason of entries for empty K-lines. -/
def blacklistReasonKlineEmpty : String := "kline_empty"

/-- The reason of entries for replies that cannot be parsed. -/
def blacklistReasonParseError : String := "parse_error"

/-- The cache of the smart client. -/
structure ServerCache where
  lastSuccess : Option ServerCacheEntry
  blacklist : List BlacklistEntry
  serverStats : Server → Option ServerStats

/-- The difference of two clock readings as the unsigned subtraction makes it: it wraps around when
the clock has been set back. -/
def elapsed (now timestamp : ℕ) : ℕ :=
  if timestamp ≤ now then now - timestamp else 2 ^ 64 + now - timestamp

/-- An entry that is less than a day old. -/
def BlacklistEntry.active (e : BlacklistEntry) (now : ℕ) : Bool :=
  decide (elapsed now e.timestamp < 86400)

namespace ServerCache

/-- A cache without a file behind it. -/
def empty : ServerCache := ⟨none, [], fun _ => none⟩

/-- Forgets the server of the last success. -/
def clearLastSuccess (c : ServerCache) : ServerCache := { c with lastSuccess := none }

/-- Whether a server has an active entry. -/
def isBlacklisted (c : ServerCache) (now : ℕ) (server : Server) : Bool :=
  c.blacklist.any fun e => e.server = server && e.active now

/-- Adds an entry for a server, unless it has an active one; entries that have expired go. -/
def addToBlacklist (c : ServerCache) (now : ℕ) (server : Server) (reason : String) : ServerCache :=
  if c.isBlacklisted now server then c
  else
    { c with
      blacklist := (c.blacklist ++ [BlacklistEntry.mk server reason now]).filter fun e =>
        e.active now }

/-- A success of a server: its counters are updated, and its entry for failures is deleted. -/
def recordSuccess (c : ServerCache) (now : ℕ) (server : Server) (name : String)
    (latencyMs : UInt32) : ServerCache :=
  let stats := (c.serverStats server).getD .new
  let success := stats.success + 1
  let stats :=
    { stats with
      success := success
      consecutiveFail := 0
      avgLatency := (stats.avgLatency * (success - 1) + latencyMs) / success }
  { lastSuccess := some ⟨server, name, now, latencyMs⟩
    serverStats := Function.update c.serverStats server (some stats)
    blacklist := c.blacklist.filter fun e =>
      !(e.server = server && e.reason = blacklistReasonStreak) }

/-- A failure of a server: too many in a row put it on the blacklist. -/
def recordFailure (c : ServerCache) (now : ℕ) (server : Server) : ServerCache :=
  let stats := (c.serverStats server).getD .new
  let stats :=
    { stats with fail := stats.fail + 1, consecutiveFail := stats.consecutiveFail + 1 }
  let c := { c with serverStats := Function.update c.serverStats server (some stats) }
  if stats.consecutiveFail ≥ blacklistFailStreak then
    c.addToBlacklist now server blacklistReasonStreak
  else c

end ServerCache

/-! ## Sequences of calls -/

/-- An operation on the cache. -/
inductive CacheCall where
  | recordSuccess (server : Server) (name : String) (latencyMs : UInt32)
  | recordFailure (server : Server)
  | addToBlacklist (server : Server) (reason : String)
deriving DecidableEq, Repr

/-- An operation at a clock reading. -/
abbrev TimedCall := ℕ × CacheCall

namespace ServerCache

/-- The cache after an operation. -/
def apply (c : ServerCache) : TimedCall → ServerCache
  | (now, .recordSuccess server name latencyMs) => c.recordSuccess now server name latencyMs
  | (now, .recordFailure server) => c.recordFailure now server
  | (now, .addToBlacklist server reason) => c.addToBlacklist now server reason

/-- The cache after operations. -/
def applyAll (c : ServerCache) (calls : List TimedCall) : ServerCache := calls.foldl apply c

end ServerCache

/-- The operations are made between two clock readings, by a clock that does not go back. -/
def Clocked : ℕ → List TimedCall → ℕ → Prop
  | start, [], stop => start ≤ stop
  | start, call :: calls, stop => start ≤ call.1 ∧ Clocked call.1 calls stop

instance : ∀ start calls stop, Decidable (Clocked start calls stop)
  | start, [], stop => inferInstanceAs (Decidable (start ≤ stop))
  | start, call :: calls, stop =>
    haveI : Decidable (Clocked call.1 calls stop) := instDecidableClocked call.1 calls stop
    inferInstanceAs (Decidable (start ≤ call.1 ∧ Clocked call.1 calls stop))

/-- The clock has not gone back at the end of the operations. -/
lemma Clocked.le : ∀ {start : ℕ} {calls : List TimedCall} {stop : ℕ},
    Clocked start calls stop → start ≤ stop
  | _, [], _, h => h
  | _, _ :: _, _, h => h.1.trans h.2.le

/-- A verdict that is given at `now` blacklists the server for a day, whatever operations follow. -/
def ServerCache.VerdictSurvives (c : ServerCache) (now : ℕ) (server : Server) (reason : String) :
    Prop :=
  ∀ (calls : List TimedCall) (later : ℕ), Clocked now calls later → later < now + 86400 →
    ((c.addToBlacklist now server reason).applyAll calls).isBlacklisted later server = true

/-! ## What the operations do to the blacklist -/

/-- As long as the clock does not go back, the age of an entry is the difference. -/
lemma elapsed_of_le {now timestamp : ℕ} (hle : timestamp ≤ now) :
    elapsed now timestamp = now - timestamp := if_pos hle

/-- An entry is active for a day. -/
lemma BlacklistEntry.active_iff {e : BlacklistEntry} {now : ℕ} (hle : e.timestamp ≤ now) :
    e.active now = true ↔ now < e.timestamp + 86400 := by
  rw [BlacklistEntry.active, decide_eq_true_iff, elapsed_of_le hle]
  omega

namespace ServerCache

variable {c : ServerCache} {e : BlacklistEntry} {now : ℕ} {server : Server} {reason : String}

/-- A server is blacklisted by an active entry of its own. -/
lemma isBlacklisted_iff :
    c.isBlacklisted now server = true ↔
      ∃ e ∈ c.blacklist, e.server = server ∧ e.active now = true := by
  simp [isBlacklisted]

/-- The blacklist after an addition. -/
lemma addToBlacklist_blacklist :
    (c.addToBlacklist now server reason).blacklist =
      if c.isBlacklisted now server = true then c.blacklist
      else (c.blacklist ++ [BlacklistEntry.mk server reason now]).filter fun e => e.active now := by
  unfold addToBlacklist
  split <;> rfl

/-- The entries after an addition: the old ones, or the active ones with the new one. -/
lemma mem_addToBlacklist :
    e ∈ (c.addToBlacklist now server reason).blacklist ↔
      if c.isBlacklisted now server = true then e ∈ c.blacklist
      else (e ∈ c.blacklist ∨ e = ⟨server, reason, now⟩) ∧ e.active now = true := by
  rw [addToBlacklist_blacklist]
  by_cases h : c.isBlacklisted now server = true
  · rw [if_pos h, if_pos h]
  · rw [if_neg h, if_neg h, List.mem_filter, List.mem_append, List.mem_singleton]

/-- An addition keeps active entries. -/
lemma mem_addToBlacklist_of_mem (hactive : e.active now = true) (he : e ∈ c.blacklist) :
    e ∈ (c.addToBlacklist now server reason).blacklist := by
  rw [mem_addToBlacklist]
  by_cases h : c.isBlacklisted now server = true
  · rwa [if_pos h]
  · rw [if_neg h]
    exact ⟨.inl he, hactive⟩

/-- The entries after a success: those of the server for failures are gone. -/
lemma mem_recordSuccess {name : String} {latencyMs : UInt32} :
    e ∈ (c.recordSuccess now server name latencyMs).blacklist ↔
      e ∈ c.blacklist ∧ ¬ (e.server = server ∧ e.reason = blacklistReasonStreak) := by
  simp [recordSuccess, ← not_and_or]

/-- A failure changes the blacklist by an addition, if at all. -/
lemma recordFailure_blacklist (c : ServerCache) (now : ℕ) (server : Server) :
    (c.recordFailure now server).blacklist = c.blacklist ∨
      (c.recordFailure now server).blacklist =
        (c.addToBlacklist now server blacklistReasonStreak).blacklist := by
  unfold recordFailure
  simp only
  split
  · right
    rw [addToBlacklist_blacklist, addToBlacklist_blacklist]
    rfl
  · exact .inl rfl

/-- **A step keeps active entries at protocol level.** Only a success deletes an active entry, and
only one for failures.

**Proof sketch.** By the kind of operation. A failure changes the blacklist at most by an addition,
and an addition drops only entries that are no longer active. -/
lemma mem_apply {call : TimedCall} (he : e ∈ c.blacklist)
    (hreason : e.reason ≠ blacklistReasonStreak) (hactive : e.active call.1 = true) :
    e ∈ (c.apply call).blacklist := by
  obtain ⟨now, call⟩ := call
  cases call with
  | recordSuccess server name latencyMs =>
    exact mem_recordSuccess.mpr ⟨he, fun h => hreason h.2⟩
  | recordFailure server =>
    show e ∈ (c.recordFailure now server).blacklist
    rcases recordFailure_blacklist c now server with h | h
    · rwa [h]
    · rw [h]
      exact mem_addToBlacklist_of_mem hactive he
  | addToBlacklist server reason =>
    show e ∈ (c.addToBlacklist now server reason).blacklist
    exact mem_addToBlacklist_of_mem hactive he

/-- **A run keeps entries at protocol level for a day.** -/
lemma mem_applyAll {calls : List TimedCall} :
    ∀ {c : ServerCache} {start later : ℕ}, e ∈ c.blacklist → e.reason ≠ blacklistReasonStreak →
      e.timestamp ≤ start → Clocked start calls later → later < e.timestamp + 86400 →
      e ∈ (c.applyAll calls).blacklist := by
  induction calls with
  | nil => exact fun he _ _ _ _ => he
  | cons call calls ih =>
    intro c start later he hreason hstart hclock hlater
    have hcall : call.1 ≤ later := hclock.2.le
    have hactive : e.active call.1 = true :=
      (BlacklistEntry.active_iff (hstart.trans hclock.1)).mpr (by omega)
    exact ih (mem_apply he hreason hactive) hreason (hstart.trans hclock.1) hclock.2 hlater

/-- No entry of a step is newer than the clock.

**Proof sketch.** By the operation: a success only removes entries, and an entry that is added is of
the present second. -/
lemma timestamp_le_of_mem_apply {call : TimedCall}
    (hold : ∀ e ∈ c.blacklist, e.timestamp ≤ call.1) :
    ∀ e ∈ (c.apply call).blacklist, e.timestamp ≤ call.1 := by
  obtain ⟨now, call⟩ := call
  have hadd : ∀ server reason, ∀ e ∈ (c.addToBlacklist now server reason).blacklist,
      e.timestamp ≤ now := by
    intro server reason e he
    rw [mem_addToBlacklist] at he
    split at he
    · exact hold e he
    · rcases he.1 with he | rfl
      · exact hold e he
      · exact le_rfl
  intro e he
  cases call with
  | recordSuccess server name latencyMs => exact hold e (mem_recordSuccess.mp he).1
  | recordFailure server =>
    replace he : e ∈ (c.recordFailure now server).blacklist := he
    rcases recordFailure_blacklist c now server with h | h
    · exact hold e (h ▸ he)
    · exact hadd _ _ e (h ▸ he)
  | addToBlacklist server reason => exact hadd _ _ e he

/-- No entry is newer than the clock. -/
lemma timestamp_le_of_mem_applyAll {calls : List TimedCall} :
    ∀ {c : ServerCache} {start stop : ℕ}, (∀ e ∈ c.blacklist, e.timestamp ≤ start) →
      Clocked start calls stop → ∀ e ∈ (c.applyAll calls).blacklist, e.timestamp ≤ stop := by
  induction calls with
  | nil => exact fun hold hclock e he => (hold e he).trans hclock
  | cons call calls ih =>
    exact fun hold hclock =>
      ih (timestamp_le_of_mem_apply fun e he => (hold e he).trans hclock.1) hclock.2

/-- An entry at protocol level of this very second blacklists the server for a day. -/
lemma isBlacklisted_of_mem_applyAll {calls : List TimedCall} {later : ℕ} (he : e ∈ c.blacklist)
    (hserver : e.server = server) (hreason : e.reason ≠ blacklistReasonStreak)
    (hnow : e.timestamp = now) (hclock : Clocked now calls later) (hlater : later < now + 86400) :
    (c.applyAll calls).isBlacklisted later server = true :=
  isBlacklisted_iff.mpr ⟨e, mem_applyAll he hreason hnow.le hclock (by omega), hserver,
    (BlacklistEntry.active_iff (hnow.le.trans hclock.le)).mpr (by omega)⟩

/-- If all active entries of a server are for failures, or older than this second, then a success
leaves it off the blacklist before the day is over. -/
lemma not_isBlacklisted_of_success (hold : ∀ e ∈ c.blacklist, e.timestamp ≤ now)
    (hnone : ∀ e ∈ c.blacklist, e.server = server → e.reason ≠ blacklistReasonStreak →
      e.timestamp ≠ now) (name : String) (latencyMs : UInt32) :
    ¬ (c.recordSuccess now server name latencyMs).isBlacklisted (now + 86399) server = true := by
  rw [isBlacklisted_iff]
  rintro ⟨e, he, hserver, hactive⟩
  obtain ⟨he, hkept⟩ := mem_recordSuccess.mp he
  have hle := hold e he
  have hne := hnone e he hserver fun hreason => hkept ⟨hserver, hreason⟩
  rw [BlacklistEntry.active_iff (by omega)] at hactive
  omega

end ServerCache

/-- **When a verdict at protocol level survives.** After any operations, a verdict blacklists the
server for a day, whatever follows, exactly when the server has no active entry, or has one at
protocol level of the same second. Any other active entry suppresses the new one: an entry for
failures is deleted by the next success, and an older entry at protocol level expires earlier.

**Proof sketch.** If the server has no active entry, the verdict is added, and no operation removes
an entry at protocol level before it expires (`isBlacklisted_of_mem_applyAll`); one of the same
second expires at the same time. If it has another active entry the verdict is not added, and then a
single success a second before the day is over finds the server free: it removes an entry for
failures, and an older one at protocol level has expired (`not_isBlacklisted_of_success`). -/
theorem protocol_verdict_iff (calls : List TimedCall) (now : ℕ) (server : Server)
    (reason : String) (hclock : Clocked 0 calls now)
    (hreason : reason = blacklistReasonKlineEmpty ∨ reason = blacklistReasonParseError) :
    (ServerCache.empty.applyAll calls).VerdictSurvives now server reason ↔
      (ServerCache.empty.applyAll calls).isBlacklisted now server = false ∨
      ∃ e ∈ (ServerCache.empty.applyAll calls).blacklist,
        e.server = server ∧ e.reason ≠ blacklistReasonStreak ∧ e.timestamp = now := by
  have hold := ServerCache.timestamp_le_of_mem_applyAll (c := .empty)
    (fun e he => absurd he List.not_mem_nil) hclock
  generalize ServerCache.empty.applyAll calls = c at hold ⊢
  have hprotocol : reason ≠ blacklistReasonStreak := by
    rcases hreason with rfl | rfl <;> decide
  constructor
  · intro hsurvives
    by_contra hneither
    obtain ⟨hlisted, hnone⟩ := not_or.mp hneither
    have hlisted : c.isBlacklisted now server = true := (Bool.not_eq_false _).mp hlisted
    refine ServerCache.not_isBlacklisted_of_success hold
      (fun e he hserver hreason hnow => hnone ⟨e, he, hserver, hreason, hnow⟩) "" 0 ?_
    have hlast := hsurvives [(now, .recordSuccess server "" 0)] (now + 86399)
      ⟨le_rfl, Nat.le_add_right _ _⟩ (by omega)
    rwa [ServerCache.addToBlacklist, if_pos hlisted] at hlast
  · intro h calls later hclock hlater
    by_cases hlisted : c.isBlacklisted now server = true
    · obtain ⟨e, he, hserver, hkind, hnow⟩ := h.resolve_left (by simp [hlisted])
      refine ServerCache.isBlacklisted_of_mem_applyAll ?_ hserver hkind hnow hclock hlater
      rwa [ServerCache.mem_addToBlacklist, if_pos hlisted]
    · refine ServerCache.isBlacklisted_of_mem_applyAll (e := ⟨server, reason, now⟩) ?_ rfl
        hprotocol rfl hclock hlater
      rw [ServerCache.mem_addToBlacklist, if_neg hlisted]
      exact ⟨.inr rfl, (BlacklistEntry.active_iff le_rfl).mpr (Nat.lt_add_of_pos_right (by omega))⟩

/-! ## Two verdicts about one server -/

/-- A server of the lists. -/
def someServer : Server := ("59.36.5.11", 7709)

/-- A verdict about a server that failed once is good for a day. -/
theorem protocol_verdict_one_failure :
    (ServerCache.empty.applyAll [(1000, .recordFailure someServer)]).VerdictSurvives 2000 someServer
      "kline_empty" :=
  (protocol_verdict_iff _ _ _ _ (by decide) (by decide)).mpr (by decide)

/-- **A verdict about a server that is blacklisted for failures is lost.** Three failures blacklist
the server; the empty K-lines that follow add nothing, and the next success takes the server off
the blacklist. -/
theorem protocol_verdict_lost :
    let calls : List TimedCall := List.replicate 3 (1000, .recordFailure someServer)
    Clocked 0 calls 2000 ∧
      ¬ (ServerCache.empty.applyAll calls).VerdictSurvives 2000 someServer "kline_empty" := by
  refine ⟨by decide, fun hsurvives => ?_⟩
  have hlisted := hsurvives [(3000, .recordSuccess someServer "" 30)] 3001 (by decide) (by decide)
  revert hlisted
  decide

end Tdxrs
