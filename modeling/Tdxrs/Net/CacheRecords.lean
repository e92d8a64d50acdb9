import Mathlib.Data.List.Induction
import Tdxrs.Net.SmartClient

set_option relaxedAutoImplicit false
set_option autoImplicit false

/-!
# The cache as one record for each server

What `ServerCache` of `src/net/smart_client.rs` is for: it remembers for each server how it has done
and whether it is to be passed over. The code keeps one list of entries for all servers, from which
every addition drops all entries that have expired. As long as the clock does not go back, this list
is the same as one record for each server, which only the operations on that server change.

## Main definitions

* `Tdxrs.ServerRecord` — the record of a server; `Tdxrs.ServerRecord.step` — an operation on it.
* `Tdxrs.ServerCache.Agrees` — the cache says the same of a server as a record.
* `Tdxrs.failuresInRow` — the failures since the last success.

## Main results

* `Tdxrs.ServerCache.Agrees.applyAll` — the operations on the cache are those on the records.
* `Tdxrs.cache_is_records` — what the cache is after any operations.
-/

namespace Tdxrs

/-! ## Records -/

/-- The operations on a server. -/
def callsOf (server : Server) (calls : List TimedCall) : List TimedCall :=
  calls.filter fun call => call.2.server = server

lemma callsOf_cons (server : Server) (call : TimedCall) (calls : List TimedCall) :
    callsOf server (call :: calls) =
      if call.2.server = server then call :: callsOf server calls else callsOf server calls := by
  simp only [callsOf, List.filter_cons, decide_eq_true_eq]

/-- The record of a server: its counters, if it has any, and the last verdict on it. -/
structure ServerRecord where
  stats : Option ServerStats
  verdict : Option BlacklistEntry
deriving DecidableEq

/-- The counters after a success. -/
def ServerStats.succeed (stats : ServerStats) (latencyMs : UInt32) : ServerStats :=
  { stats with
    success := stats.success + 1
    consecutiveFail := 0
    avgLatency :=
      (stats.avgLatency * (stats.success + 1 - 1) + latencyMs) / (stats.success + 1) }

/-- The counters after a failure. -/
def ServerStats.failed (stats : ServerStats) : ServerStats :=
  { stats with fail := stats.fail + 1, consecutiveFail := stats.consecutiveFail + 1 }

namespace ServerRecord

/-- A server of which nothing is known. -/
def new : ServerRecord := ⟨none, none⟩

/-- The verdict is less than a day old. -/
def Blocked (r : ServerRecord) (now : ℕ) : Prop := ∃ e ∈ r.verdict, now < e.timestamp + 86400

instance (r : ServerRecord) (now : ℕ) : Decidable (r.Blocked now) :=
  decidable_of_iff (r.verdict.any fun e => decide (now < e.timestamp + 86400)) <| by
    simp [Blocked, Option.any_eq_true]

/-- A new verdict, unless the last one is in force. -/
def block (r : ServerRecord) (now : ℕ) (server : Server) (reason : String) : ServerRecord :=
  if r.Blocked now then r else { r with verdict := some ⟨server, reason, now⟩ }

/-- An operation on a record. A success takes back a verdict for failures only. -/
def step (r : ServerRecord) : TimedCall → ServerRecord
  | (_, .recordSuccess _ _ latencyMs) =>
    { stats := some ((r.stats.getD .new).succeed latencyMs)
      verdict := r.verdict.filter fun e => e.reason ≠ blacklistReasonStreak }
  | (now, .recordFailure server) =>
    let stats := (r.stats.getD .new).failed
    let r := { r with stats := some stats }
    if stats.consecutiveFail ≥ blacklistFailStreak then r.block now server blacklistReasonStreak
    else r
  | (now, .addToBlacklist server reason) => r.block now server reason

end ServerRecord

/-- The record of a server after some operations on it. -/
def recordAfter (calls : List TimedCall) : ServerRecord := calls.foldl ServerRecord.step .new

/-! ## The cache and the records -/

/-- At a clock reading, and later, the cache says the same of a server as a record. -/
structure ServerCache.Agrees (c : ServerCache) (now : ℕ) (server : Server) (r : ServerRecord) :
    Prop where
  old : ∀ e ∈ c.blacklist, e.timestamp ≤ now
  stats : c.serverStats server = r.stats
  verdict : ∀ e : BlacklistEntry, now < e.timestamp + 86400 →
    (e ∈ c.blacklist ∧ e.server = server ↔ e ∈ r.verdict)

namespace ServerCache

variable {c : ServerCache} {now later : ℕ} {server : Server} {r : ServerRecord}

/-- An entry that expires is of no account. -/
lemma Agrees.mono (h : c.Agrees now server r) (hle : now ≤ later) : c.Agrees later server r :=
  ⟨fun e he => (h.old e he).trans hle, h.stats, fun e he => h.verdict e (by omega)⟩

/-- The cache passes a server over as its record says. -/
lemma Agrees.isBlacklisted_iff (h : c.Agrees now server r) :
    c.isBlacklisted now server = true ↔ r.Blocked now := by
  rw [ServerCache.isBlacklisted_iff]
  constructor
  · rintro ⟨e, he, hserver, hactive⟩
    rw [BlacklistEntry.active_iff (h.old e he)] at hactive
    exact ⟨e, (h.verdict e hactive).mp ⟨he, hserver⟩, hactive⟩
  · rintro ⟨e, he, hactive⟩
    obtain ⟨he, hserver⟩ := (h.verdict e hactive).mpr he
    exact ⟨e, he, hserver, (BlacklistEntry.active_iff (h.old e he)).mpr hactive⟩

/-- An addition for the server itself.

**Proof sketch.** If the server has an active entry, nothing happens on either side. Otherwise the
new entry is the only active one of the server, which is the new verdict of the record; that expired
entries are dropped changes no verdict. -/
lemma Agrees.block (h : c.Agrees now server r) (reason : String) :
    (c.addToBlacklist now server reason).Agrees now server (r.block now server reason) := by
  rw [addToBlacklist, ServerRecord.block]
  by_cases hlisted : c.isBlacklisted now server = true
  · rw [if_pos hlisted, if_pos (h.isBlacklisted_iff.mp hlisted)]
    exact h
  · have hfree : ¬ r.Blocked now := fun hblocked => hlisted (h.isBlacklisted_iff.mpr hblocked)
    rw [if_neg hlisted, if_neg hfree]
    refine ⟨fun e he => ?_, h.stats, fun e hactive => ?_⟩
    · rcases List.mem_append.mp (List.mem_of_mem_filter he) with he | he
      · exact h.old e he
      · exact (List.mem_singleton.mp he ▸ le_rfl)
    · rw [List.mem_filter, List.mem_append, List.mem_singleton, Option.mem_some_iff]
      constructor
      · rintro ⟨⟨he | rfl, -⟩, hserver⟩
        · exact absurd ⟨e, (h.verdict e hactive).mp ⟨he, hserver⟩, hactive⟩ hfree
        · rfl
      · rintro rfl
        exact ⟨⟨.inr rfl, (BlacklistEntry.active_iff le_rfl).mpr hactive⟩, rfl⟩

/-- An addition for another server drops expired entries only.

**Proof sketch.** The new entry is of another server, and the entries that are dropped have expired,
so that they are no verdict of this one. -/
lemma Agrees.block_other (h : c.Agrees now server r) {other : Server} (hother : other ≠ server)
    (reason : String) : (c.addToBlacklist now other reason).Agrees now server r := by
  rw [addToBlacklist]
  split
  · exact h
  · refine ⟨fun e he => ?_, h.stats, fun e hactive => ?_⟩
    · rcases List.mem_append.mp (List.mem_of_mem_filter he) with he | he
      · exact h.old e he
      · exact (List.mem_singleton.mp he ▸ le_rfl)
    · rw [← h.verdict e hactive, List.mem_filter, List.mem_append, List.mem_singleton]
      constructor
      · rintro ⟨⟨he | rfl, -⟩, hserver⟩
        · exact ⟨he, hserver⟩
        · exact absurd hserver hother
      · rintro ⟨he, hserver⟩
        exact ⟨⟨.inl he, (BlacklistEntry.active_iff (h.old e he)).mpr hactive⟩, hserver⟩

/-- New counters of the server. -/
lemma Agrees.update (h : c.Agrees now server r) (stats : ServerStats) :
    ({ c with serverStats := Function.update c.serverStats server (some stats) } :
      ServerCache).Agrees now server { r with stats := some stats } :=
  ⟨h.old, Function.update_self _ _ _, h.verdict⟩

/-- New counters of another server. -/
lemma Agrees.update_other (h : c.Agrees now server r) {other : Server} (hother : other ≠ server)
    (stats : ServerStats) :
    ({ c with serverStats := Function.update c.serverStats other (some stats) } :
      ServerCache).Agrees now server r :=
  ⟨h.old, (Function.update_of_ne hother.symm _ _).trans h.stats, h.verdict⟩

/-- A failure: the counters, and then perhaps an addition. -/
lemma recordFailure_eq (c : ServerCache) (now : ℕ) (server : Server) :
    c.recordFailure now server =
      let stats := ((c.serverStats server).getD .new).failed
      let c : ServerCache :=
        { c with serverStats := Function.update c.serverStats server (some stats) }
      if stats.consecutiveFail ≥ blacklistFailStreak then
        c.addToBlacklist now server blacklistReasonStreak
      else c := rfl

/-- **An operation on the server itself.**

**Proof sketch.** By the kind of the operation. A success updates the counts and removes the entry
of a streak, in the list and in the record; a failure updates the counts and, from the third in a
row on, is an addition (`Agrees.block`), as is one by hand. -/
lemma Agrees.apply_own {call : TimedCall} (h : c.Agrees call.1 server r)
    (hserver : call.2.server = server) : (c.apply call).Agrees call.1 server (r.step call) := by
  obtain ⟨now, call⟩ := call
  cases call with
  | recordSuccess s name latencyMs =>
    obtain rfl : s = server := hserver
    refine ⟨fun e he => h.old e (mem_recordSuccess.mp he).1, ?_, fun e hactive => ?_⟩
    · rw [ServerRecord.step, ← h.stats]
      exact Function.update_self _ _ _
    · rw [ServerRecord.step, Option.mem_filter_iff, ← h.verdict e hactive]
      refine (and_congr_left fun _ => mem_recordSuccess).trans ?_
      simp only [decide_eq_true_eq]
      tauto
  | recordFailure s =>
    obtain rfl : s = server := hserver
    have hupdated := h.update ((r.stats.getD .new).failed)
    simp only [apply, recordFailure_eq, ServerRecord.step, h.stats]
    by_cases hstreak : (r.stats.getD .new).failed.consecutiveFail ≥ blacklistFailStreak
    · rw [if_pos hstreak, if_pos hstreak]
      exact hupdated.block blacklistReasonStreak
    · rw [if_neg hstreak, if_neg hstreak]
      exact hupdated
  | addToBlacklist s reason =>
    obtain rfl : s = server := hserver
    exact h.block reason

/-- **An operation on another server.**

**Proof sketch.** By the kind of the operation: a success removes entries of its own server only,
and counts and entries of another server do not touch the record of this one (`Agrees.update_other`,
`Agrees.block_other`). -/
lemma Agrees.apply_other {call : TimedCall} (h : c.Agrees call.1 server r)
    (hother : call.2.server ≠ server) : (c.apply call).Agrees call.1 server r := by
  obtain ⟨now, call⟩ := call
  cases call with
  | recordSuccess s name latencyMs =>
    refine ⟨fun e he => h.old e (mem_recordSuccess.mp he).1,
      (Function.update_of_ne (Ne.symm hother) _ _).trans h.stats, fun e hactive => ?_⟩
    rw [← h.verdict e hactive]
    refine and_congr_left fun hserver => mem_recordSuccess.trans (and_iff_left ?_)
    exact fun hown => hother (hown.1.symm.trans hserver)
  | recordFailure s =>
    simp only [apply, recordFailure_eq]
    split
    · exact (h.update_other hother _).block_other hother _
    · exact h.update_other hother _
  | addToBlacklist s reason => exact h.block_other hother reason

/-- **The operations on the cache are those on the records**, by a clock that does not go back. By
induction on the operations: what is said of a server changes with its own operations only. -/
theorem Agrees.applyAll {calls : List TimedCall} {stop : ℕ} :
    ∀ {c : ServerCache} {start : ℕ} {r : ServerRecord}, c.Agrees start server r →
      Clocked start calls stop →
        (c.applyAll calls).Agrees stop server
          ((callsOf server calls).foldl ServerRecord.step r) := by
  induction calls with
  | nil => exact fun h hclock => h.mono hclock
  | cons call calls ih =>
    intro c start r h hclock
    have hlater := h.mono hclock.1
    by_cases hserver : call.2.server = server
    · rw [callsOf_cons, if_pos hserver, List.foldl_cons]
      exact ih (hlater.apply_own hserver) hclock.2
    · rw [callsOf_cons, if_neg hserver]
      exact ih (hlater.apply_other hserver) hclock.2

/-- A server has one entry at most: an addition is for a server without an active one, and drops the
others.

**Proof sketch.** Removing entries keeps them different. An entry is added only for a server without
an active one, and then all entries that are not active are dropped, so that no other is of this
server. -/
lemma nodup_apply {call : TimedCall} (h : (c.blacklist.map BlacklistEntry.server).Nodup) :
    ((c.apply call).blacklist.map BlacklistEntry.server).Nodup := by
  have hadd (now : ℕ) (server : Server) (reason : String) :
      ((c.addToBlacklist now server reason).blacklist.map BlacklistEntry.server).Nodup := by
    rw [addToBlacklist_blacklist]
    split
    · exact h
    · rename_i hfree
      have hkept := (List.filter_sublist (p := fun e => e.active now) (l := c.blacklist)).map
        BlacklistEntry.server
      have hnew : ∀ e ∈ [BlacklistEntry.mk server reason now].filter fun e => e.active now,
          e.server = server := fun e he =>
        congrArg BlacklistEntry.server (List.mem_singleton.mp (List.mem_of_mem_filter he))
      rw [List.filter_append, List.map_append, List.nodup_append]
      refine ⟨hkept.nodup h, ?_, fun s hs s' hs' hsame => ?_⟩
      · exact ((List.filter_sublist).map _).nodup (List.pairwise_singleton _ server)
      · obtain ⟨e, he, rfl⟩ := List.mem_map.mp hs
        obtain ⟨he, hactive⟩ := List.mem_filter.mp he
        obtain ⟨e', he', rfl⟩ := List.mem_map.mp hs'
        exact hfree (isBlacklisted_iff.mpr ⟨e, he, hsame.trans (hnew e' he'), hactive⟩)
  obtain ⟨now, call⟩ := call
  cases call with
  | recordSuccess server name latencyMs => exact ((List.filter_sublist).map _).nodup h
  | recordFailure server =>
    rcases recordFailure_blacklist c now server with hsame | hadded
    · exact hsame ▸ h
    · exact hadded ▸ hadd now server blacklistReasonStreak
  | addToBlacklist server reason => exact hadd now server reason

lemma nodup_applyAll {calls : List TimedCall} : ∀ {c : ServerCache},
    (c.blacklist.map BlacklistEntry.server).Nodup →
      ((c.applyAll calls).blacklist.map BlacklistEntry.server).Nodup := by
  induction calls with
  | nil => exact fun h => h
  | cons call calls ih => exact fun h => ih (nodup_apply h)

/-- The empty cache knows of no server. -/
lemma agrees_empty (now : ℕ) (server : Server) : empty.Agrees now server .new :=
  ⟨fun _ he => absurd he List.not_mem_nil, rfl,
    fun _ _ => ⟨fun he => absurd he.1 List.not_mem_nil, fun he => nomatch he⟩⟩

end ServerCache

/-! ## Counters -/

/-- The operation is a success. -/
def TimedCall.succeeds : TimedCall → Bool
  | (_, .recordSuccess _ _ _) => true
  | _ => false

/-- The operation is a failure. -/
def TimedCall.fails : TimedCall → Bool
  | (_, .recordFailure _) => true
  | _ => false

/-- The failures since the last success, of operations of which the newest comes first. -/
def failuresInRow : List TimedCall → ℕ
  | [] => 0
  | (_, .recordSuccess _ _ _) :: _ => 0
  | (_, .recordFailure _) :: calls => failuresInRow calls + 1
  | (_, .addToBlacklist _ _) :: calls => failuresInRow calls

@[simp] lemma ServerRecord.block_stats (r : ServerRecord) (now : ℕ) (server : Server)
    (reason : String) : (r.block now server reason).stats = r.stats := by
  unfold block
  split <;> rfl

/-- The counters after an operation.

**Proof sketch.** By the kind of operation. A failure that ends a streak puts the server on the
blacklist too, which leaves the counters as they are. -/
lemma ServerRecord.step_stats (r : ServerRecord) (call : TimedCall) :
    (r.step call).stats.getD .new =
      match call.2 with
      | .recordSuccess _ _ latencyMs => (r.stats.getD .new).succeed latencyMs
      | .recordFailure _ => (r.stats.getD .new).failed
      | .addToBlacklist _ _ => r.stats.getD .new := by
  obtain ⟨now, call⟩ := call
  cases call with
  | recordSuccess server name latencyMs => rfl
  | recordFailure server =>
    simp only [step]
    split
    · rw [block_stats, Option.getD_some]
    · rfl
  | addToBlacklist server reason => exact congrArg (·.getD .new) (r.block_stats now server reason)

lemma recordOf_concat (calls : List TimedCall) (call : TimedCall) :
    recordAfter (calls ++ [call]) = (recordAfter calls).step call := by
  rw [recordAfter, List.foldl_append]
  rfl

/-- One more does not wrap around. -/
lemma toNat_succ_of_lt {x : UInt32} (h : x.toNat + 1 < 2 ^ 32) : (x + 1).toNat = x.toNat + 1 := by
  rw [UInt32.toNat_add]
  exact Nat.mod_eq_of_lt h

/-- There are no more failures in a row than operations. -/
lemma failuresInRow_le : ∀ calls : List TimedCall, failuresInRow calls ≤ calls.length
  | [] => le_rfl
  | (_, .recordSuccess _ _ _) :: _ => Nat.zero_le _
  | (_, .recordFailure _) :: calls => Nat.succ_le_succ (failuresInRow_le calls)
  | (_, .addToBlacklist _ _) :: calls => (failuresInRow_le calls).trans (Nat.le_succ _)

/-- **The counters count.** Fewer than `2 ^ 32` operations are counted without wrapping around. By
induction on the operations, from the last one.

**Proof sketch.** Each counter is at most the number of operations so far, so adding one to it does
not wrap around. A success sets the failures in a row to zero, as reading the operations from the
last one does. -/
lemma counters_eq {calls : List TimedCall} (hlen : calls.length < 2 ^ 32) :
    let stats := (recordAfter calls).stats.getD .new
    stats.success.toNat = calls.countP TimedCall.succeeds ∧
      stats.fail.toNat = calls.countP TimedCall.fails ∧
      stats.consecutiveFail.toNat = failuresInRow calls.reverse := by
  induction calls using List.reverseRecOn with
  | nil => exact ⟨rfl, rfl, rfl⟩
  | append_singleton calls call ih =>
    rw [List.length_append, List.length_singleton] at hlen
    obtain ⟨hsuccess, hfail, hrow⟩ := ih (by omega)
    have hsuccesses := List.countP_le_length (p := TimedCall.succeeds) (l := calls)
    have hfails := List.countP_le_length (p := TimedCall.fails) (l := calls)
    have hrows := failuresInRow_le calls.reverse
    rw [List.length_reverse] at hrows
    simp only [recordOf_concat, ServerRecord.step_stats, List.countP_append, List.countP_singleton,
      List.reverse_append, List.reverse_singleton, List.singleton_append]
    obtain ⟨now, call⟩ := call
    cases call with
    | recordSuccess server name latencyMs =>
      exact ⟨(toNat_succ_of_lt (by omega)).trans (congrArg (· + 1) hsuccess), hfail, rfl⟩
    | recordFailure server =>
      exact ⟨hsuccess, (toNat_succ_of_lt (by omega)).trans (congrArg (· + 1) hfail),
        (toNat_succ_of_lt (by omega)).trans (congrArg (· + 1) hrow)⟩
    | addToBlacklist server reason => exact ⟨hsuccess, hfail, hrow⟩

/-- A server is passed over when it has just been blocked. -/
lemma ServerRecord.blocked_block (r : ServerRecord) (now : ℕ) (server : Server) (reason : String) :
    (r.block now server reason).Blocked now := by
  unfold block
  split
  · assumption
  · exact ⟨_, rfl, Nat.lt_add_of_pos_right (by decide)⟩

/-- The third failure in a row, or a later one, blocks the server. -/
lemma blocked_of_failuresInRow {calls : List TimedCall} {now : ℕ} {server : Server}
    (hlen : calls.length < 2 ^ 32) (hlast : calls.getLast? = some (now, .recordFailure server))
    (hrow : 3 ≤ failuresInRow calls.reverse) : (recordAfter calls).Blocked now := by
  obtain ⟨init, rfl⟩ := List.getLast?_eq_some_iff.mp hlast
  have hcount := (counters_eq hlen).2.2
  rw [recordOf_concat, ServerRecord.step_stats] at hcount
  rw [← hcount] at hrow
  have hstreak :
      ((recordAfter init).stats.getD .new).failed.consecutiveFail ≥ blacklistFailStreak :=
    UInt32.le_iff_toNat_le.mpr hrow
  rw [recordOf_concat, ServerRecord.step, if_pos hstreak]
  exact ServerRecord.blocked_block _ now server blacklistReasonStreak

/-! ## The whole cache -/

/-- What the cache keeps of a success. -/
def successEntry : TimedCall → Option ServerCacheEntry
  | (now, .recordSuccess server name latencyMs) => some ⟨server, name, now, latencyMs⟩
  | _ => none

/-- The last success is the newest one.

**Proof sketch.** Induction on the operations from the end: a success is the newest one, and neither
a failure nor an addition touches what is kept of it. -/
lemma lastSuccess_applyAll (calls : List TimedCall) :
    (ServerCache.empty.applyAll calls).lastSuccess = calls.reverse.findSome? successEntry := by
  induction calls using List.reverseRecOn with
  | nil => rfl
  | append_singleton calls call ih =>
    have hstep : ServerCache.empty.applyAll (calls ++ [call]) =
        (ServerCache.empty.applyAll calls).apply call := by
      rw [ServerCache.applyAll, List.foldl_append]
      rfl
    have hadd (c : ServerCache) (now : ℕ) (server : Server) (reason : String) :
        (c.addToBlacklist now server reason).lastSuccess = c.lastSuccess := by
      unfold ServerCache.addToBlacklist
      split <;> rfl
    rw [hstep, List.reverse_append, List.reverse_singleton, List.singleton_append]
    obtain ⟨now, call⟩ := call
    cases call with
    | recordSuccess server name latencyMs => rfl
    | recordFailure server =>
      change _ = calls.reverse.findSome? successEntry
      rw [← ih]
      simp only [ServerCache.apply, ServerCache.recordFailure_eq]
      split
      · exact hadd _ _ _ _
      · rfl
    | addToBlacklist server reason =>
      change _ = calls.reverse.findSome? successEntry
      rw [← ih]
      exact hadd _ _ _ _

/-- **What the cache is after any operations**, by a clock that does not go back. It keeps the
newest success, at most one entry for a server, and of every server what its own operations make of
its record: operations on other servers do not matter. The counters are the numbers of successes, of
failures and of the failures since the last success. A third failure in a row, or a later one,
blacklists the server.

**Proof sketch.** For each server the cache agrees with the record of the server: operations on the
server itself step both (`Agrees.apply_own`), and operations on another server touch neither
(`Agrees.apply_other`). So after any operations the counts and verdicts are those of the record,
whose counts are counts of operations (`counters_eq`); and a third failure in a row leaves the
record blocked (`blocked_of_failuresInRow`). -/
theorem cache_is_records (calls : List TimedCall) (now : ℕ) (hclock : Clocked 0 calls now) :
    let c := ServerCache.empty.applyAll calls
    c.lastSuccess = calls.reverse.findSome? successEntry ∧
      (c.blacklist.map BlacklistEntry.server).Nodup ∧
      ∀ server, let own := callsOf server calls
        c.serverStats server = (recordAfter own).stats ∧
          (c.isBlacklisted now server = true ↔ (recordAfter own).Blocked now) ∧
          (own.length < 2 ^ 32 →
            let stats := (c.serverStats server).getD .new
            (stats.success.toNat = own.countP TimedCall.succeeds ∧
              stats.fail.toNat = own.countP TimedCall.fails ∧
              stats.consecutiveFail.toNat = failuresInRow own.reverse) ∧
            (own.getLast? = some (now, .recordFailure server) → 3 ≤ failuresInRow own.reverse →
              c.isBlacklisted now server = true)) := by
  refine ⟨lastSuccess_applyAll calls, ServerCache.nodup_applyAll List.nodup_nil, fun server => ?_⟩
  have hagrees := (ServerCache.agrees_empty 0 server).applyAll hclock
  refine ⟨hagrees.stats, hagrees.isBlacklisted_iff, fun hlen => ⟨?_, fun hlast hrow => ?_⟩⟩
  · rw [hagrees.stats]
    exact counters_eq hlen
  · exact hagrees.isBlacklisted_iff.mpr (blocked_of_failuresInRow hlen hlast hrow)

/-- Two servers in turn: one fails three times, and what happens to the other one in between drops
an expired entry. -/
def twoServerCalls : List TimedCall :=
  [(0, .addToBlacklist ("b", 7709) blacklistReasonKlineEmpty), (90000, .recordFailure ("a", 7709)),
    (90001, .recordFailure ("a", 7709)), (90002, .recordSuccess ("b", 7709) "B" 12),
    (90003, .recordFailure ("a", 7709))]

theorem cache_is_records_two :
    let c := ServerCache.empty.applyAll twoServerCalls
    c.lastSuccess = some ⟨("b", 7709), "B", 90002, 12⟩ ∧
      c.isBlacklisted 90003 ("a", 7709) = true ∧ ¬ c.isBlacklisted 90003 ("b", 7709) = true := by
  obtain ⟨hlast, -, hservers⟩ := cache_is_records twoServerCalls 90003 (by decide)
  refine ⟨hlast.trans (by decide), ?_, ?_⟩
  · exact ((hservers ("a", 7709)).2.2 (by decide)).2 (by decide) (by decide)
  · rw [(hservers ("b", 7709)).2.1]
    decide

end Tdxrs
