import Tdxrs.Library.Checked
import Tdxrs.Library.RunningMean
import Tdxrs.Library.TransitionSystem
import Tdxrs.Net.ServerCache
import Tdxrs.Protocol.Fields

set_option relaxedAutoImplicit false
set_option autoImplicit false

/-!
# The mean latency of a server

`ServerCache::record_success` of `src/net/smart_client.rs` keeps the mean latency of a server as a
`u32`. A success multiplies the mean with the number of successes before, adds the latency, and
divides by the number of successes now. The product may not fit, and the mean that it starts from is
rounded down.

The call is modelled over the `u32` operations that it makes. What is kept between calls, a cache
or a panic, is followed along with the latencies that have been recorded.

## Main definitions

* `Tdxrs.U32Ops` — the operations, with or without overflow checks.
* `Tdxrs.ServerCache.recordSuccessM` — the call.
* `Tdxrs.LatencyRun` — the cache with the latencies recorded so far.
* `Tdxrs.LatencyRun.MeanExact` — there has been no overflow, and the mean is the one of them.
* `Tdxrs.LatencyRun.KeepsMean` — the condition on a success.

## Main results

* `Tdxrs.runs_recordSuccessM` — when a success does not overflow.
* `Tdxrs.latency_stats_iff` — when the mean is right along a run.
-/

namespace Tdxrs

/-! ## The call over its operations -/

/-- The operations on `u32`. -/
structure U32Ops (m : Type → Type) where
  add : UInt32 → UInt32 → m UInt32
  sub : UInt32 → UInt32 → m UInt32
  mul : UInt32 → UInt32 → m UInt32
  div : UInt32 → UInt32 → m UInt32

/-- Arithmetic wraps around. -/
def U32Ops.wrapping : U32Ops Id where
  add a b := a + b
  sub a b := a - b
  mul a b := a * b
  div a b := a / b

/-- Every operation is checked. -/
def U32Ops.checked : U32Ops (Except Fault) where
  add a b := if a.toNat + b.toNat < 2 ^ 32 then .ok (a + b) else .error .overflow
  sub a b := if b.toNat ≤ a.toNat then .ok (a - b) else .error .overflow
  mul a b := if a.toNat * b.toNat < 2 ^ 32 then .ok (a * b) else .error .overflow
  div a b := if b ≠ 0 then .ok (a / b) else .error .overflow

namespace U32Ops

lemma runs_add (a b : UInt32) :
    Checked.Runs (checked.add a b) (a + b) (a.toNat + b.toNat < 2 ^ 32) := Checked.Runs.check _ _

lemma runs_sub (a b : UInt32) :
    Checked.Runs (checked.sub a b) (a - b) (b.toNat ≤ a.toNat) := Checked.Runs.check _ _

lemma runs_mul (a b : UInt32) :
    Checked.Runs (checked.mul a b) (a * b) (a.toNat * b.toNat < 2 ^ 32) := Checked.Runs.check _ _

lemma runs_div (a b : UInt32) : Checked.Runs (checked.div a b) (a / b) (b ≠ 0) :=
  Checked.Runs.check _ _

end U32Ops

namespace ServerCache

/-- The counters of a server; those of a new one if there are none. -/
def stats (c : ServerCache) (server : Server) : ServerStats := (c.serverStats server).getD .new

/-- A success of a server, over the operations on its counters. -/
def recordSuccessM {m : Type → Type} [Monad m] (ops : U32Ops m) (c : ServerCache) (now : ℕ)
    (server : Server) (name : String) (latencyMs : UInt32) : m ServerCache := do
  let stats := c.stats server
  let success ← ops.add stats.success 1
  let before ← ops.sub success 1
  let total ← ops.mul stats.avgLatency before
  let total ← ops.add total latencyMs
  let avgLatency ← ops.div total success
  pure
    { lastSuccess := some ⟨server, name, now, latencyMs⟩
      serverStats := Function.update c.serverStats server
        (some { stats with success, consecutiveFail := 0, avgLatency })
      blacklist := c.blacklist.filter fun e =>
        !(e.server = server && e.reason = blacklistReasonStreak) }

/-- The number of successes and the sum of the latencies fit. -/
def SuccessFits (stats : ServerStats) (latencyMs : UInt32) : Prop :=
  stats.success.toNat + 1 < 2 ^ 32 ∧
    stats.avgLatency.toNat * stats.success.toNat + latencyMs.toNat < 2 ^ 32

end ServerCache

/-! ## When a success does not overflow -/

/-- The counter of successes, if it fits. -/
lemma toNat_succ {n : UInt32} (h : n.toNat + 1 < 2 ^ 32) : (n + 1).toNat = n.toNat + 1 := by
  rw [UInt32.toNat_add]
  exact Nat.mod_eq_of_lt h

/-- **A success does not overflow** exactly if the counters fit, and then it is the call without
checks.

**Proof sketch.** The operations are a chain, each of which runs under its own condition: the count
and one, the product of the mean and the old count, the sum with the latency, and a division by the
count, which is not zero. The product fits if the sum does, so that two conditions remain. -/
theorem runs_recordSuccessM (c : ServerCache) (now : ℕ) (server : Server) (name : String)
    (latencyMs : UInt32) :
    Checked.Runs (c.recordSuccessM U32Ops.checked now server name latencyMs)
      (c.recordSuccess now server name latencyMs)
      (ServerCache.SuccessFits (c.stats server) latencyMs) := by
  refine ((U32Ops.runs_add _ 1).bind ((U32Ops.runs_sub _ 1).bind ((U32Ops.runs_mul _ _).bind
    ((U32Ops.runs_add _ _).bind ((U32Ops.runs_div _ _).bind
      (Checked.Runs.pure (c.recordSuccess now server name latencyMs))))))).of_iff ?_
  have hone : (1 : UInt32).toNat = 1 := rfl
  have hbefore : (c.stats server).success + 1 - 1 = (c.stats server).success :=
    UInt32.add_sub_cancel _ _
  rw [hone, hbefore, and_true, ServerCache.SuccessFits]
  refine and_congr_right fun hcount => ?_
  have hsucc := toNat_succ hcount
  have hne : (c.stats server).success + 1 ≠ 0 := by
    intro h
    rw [h] at hsucc
    exact absurd hsucc (Nat.succ_ne_zero _).symm
  rw [hsucc, and_iff_right (Nat.le_add_left 1 _), and_iff_left hne]
  constructor
  · rintro ⟨hproduct, hsum⟩
    rwa [UInt32.toNat_mul, Nat.mod_eq_of_lt hproduct] at hsum
  · intro hsum
    have hproduct := (Nat.le_add_right _ _).trans_lt hsum
    exact ⟨hproduct, by rwa [UInt32.toNat_mul, Nat.mod_eq_of_lt hproduct]⟩

/-! ## Runs -/

/-- A call for a server. -/
inductive LatencyCall where
  | recordSuccess (name : String) (latencyMs : UInt32)
  | recordFailure
deriving DecidableEq, Repr

/-- The cache, unless a success has overflowed, with the latencies that have been recorded. -/
structure LatencyRun where
  cache : Except Fault ServerCache
  latencies : List ℕ

namespace LatencyRun

/-- A call for a server at a clock reading. Behind an overflow there are no more calls. -/
def step (server : Server) (s : LatencyRun) : ℕ × LatencyCall → Option LatencyRun
  | (now, .recordSuccess name latencyMs) =>
    some
      { cache := s.cache.bind fun c =>
          c.recordSuccessM U32Ops.checked now server name latencyMs
        latencies := s.latencies ++ [latencyMs.toNat] }
  | (now, .recordFailure) => some { s with cache := s.cache.map (·.recordFailure now server) }

/-- There has been no overflow, and the counters of the server are how many latencies have been
recorded and their mean, rounded down. -/
def MeanExact (server : Server) (s : LatencyRun) : Prop :=
  ∃ c, s.cache = .ok c ∧ (c.stats server).success.toNat = s.latencies.length ∧
    (c.stats server).avgLatency.toNat = RunningMean.mean s.latencies

/-- The condition on a success, by the latencies recorded so far: their number and the multiple of
it in their sum fit with the new latency, and what is rounded off of their mean is no more than what
is rounded off of the new mean. -/
def KeepsMean (s : LatencyRun) : ℕ × LatencyCall → Prop
  | (_, .recordSuccess _ latencyMs) =>
    s.latencies.length + 1 < 2 ^ 32 ∧
      s.latencies.sum - s.latencies.sum % s.latencies.length + latencyMs.toNat < 2 ^ 32 ∧
      s.latencies.sum % s.latencies.length ≤
        (s.latencies.sum + latencyMs.toNat) % (s.latencies.length + 1)
  | (_, .recordFailure) => True

instance (s : LatencyRun) : ∀ e, Decidable (s.KeepsMean e)
  | (_, .recordSuccess _ _) => inferInstanceAs (Decidable (_ ∧ _))
  | (_, .recordFailure) => inferInstanceAs (Decidable True)

end LatencyRun

namespace ServerCache

/-- The counters that have been put in for a server. -/
lemma stats_of_update {c : ServerCache} {server : Server} {stats : ServerStats}
    {f : Server → Option ServerStats}
    (h : c.serverStats = Function.update f server (some stats)) : c.stats server = stats := by
  rw [ServerCache.stats, h, Function.update_self]
  rfl

/-- The counters of a server after a success. -/
lemma stats_recordSuccess (c : ServerCache) (now : ℕ) (server : Server) (name : String)
    (latencyMs : UInt32) :
    (c.recordSuccess now server name latencyMs).stats server =
      { c.stats server with
        success := (c.stats server).success + 1
        consecutiveFail := 0
        avgLatency := ((c.stats server).avgLatency * ((c.stats server).success + 1 - 1) +
          latencyMs) / ((c.stats server).success + 1) } :=
  stats_of_update rfl

/-- An entry in the blacklist leaves the counters as they are. -/
lemma stats_addToBlacklist (c : ServerCache) (now : ℕ) (server server' : Server)
    (reason : String) : (c.addToBlacklist now server reason).stats server' = c.stats server' := by
  unfold addToBlacklist
  split <;> rfl

/-- The counters of a server after a failure: successes and mean are as they were. -/
lemma stats_recordFailure (c : ServerCache) (now : ℕ) (server : Server) :
    (c.recordFailure now server).stats server =
      { c.stats server with
        fail := (c.stats server).fail + 1
        consecutiveFail := (c.stats server).consecutiveFail + 1 } := by
  unfold recordFailure
  dsimp only
  split
  · rw [stats_addToBlacklist]
    exact stats_of_update rfl
  · exact stats_of_update rfl

end ServerCache

/-- The mean after a success that fits. -/
lemma toNat_avgLatency {stats : ServerStats} {latencyMs : UInt32}
    (h : ServerCache.SuccessFits stats latencyMs) :
    ((stats.avgLatency * (stats.success + 1 - 1) + latencyMs) / (stats.success + 1)).toNat =
      RunningMean.update stats.avgLatency.toNat stats.success.toNat latencyMs.toNat := by
  obtain ⟨hcount, hsum⟩ := h
  have hproduct := (Nat.le_add_right _ _).trans_lt hsum
  have hbefore : stats.success + 1 - 1 = stats.success := UInt32.add_sub_cancel _ _
  rw [hbefore, UInt32.toNat_div, toNat_succ hcount, UInt32.toNat_add, UInt32.toNat_mul,
    Nat.mod_eq_of_lt hproduct, Nat.mod_eq_of_lt hsum, RunningMean.update]

namespace LatencyRun

lemma exists_step (server : Server) (s : LatencyRun) (e : ℕ × LatencyCall) :
    ∃ s', step server s e = some s' := by
  obtain ⟨now, call⟩ := e
  cases call <;> exact ⟨_, rfl⟩

/-- **One call keeps the mean** exactly if it meets the condition.

**Proof sketch.** A failure touches neither count nor mean. A success that does not fit panics and
leaves no cache. One that fits makes the new mean from the old one, which is that of the latencies
so far, and `RunningMean.update_mean_eq_iff` says when it is that of one more. -/
lemma meanExact_step {server : Server} {s s' : LatencyRun} {e : ℕ × LatencyCall}
    (hs : s.MeanExact server) (hstep : step server s e = some s') :
    s'.MeanExact server ↔ s.KeepsMean e := by
  obtain ⟨c, hc, hcount, hmean⟩ := hs
  obtain ⟨now, call⟩ := e
  cases call with
  | recordFailure =>
    cases hstep
    refine iff_of_true ⟨c.recordFailure now server, by rw [hc]; rfl, ?_⟩ trivial
    rw [ServerCache.stats_recordFailure]
    exact ⟨hcount, hmean⟩
  | recordSuccess name latencyMs =>
    cases hstep
    have hruns := runs_recordSuccessM c now server name latencyMs
    have hfits : ServerCache.SuccessFits (c.stats server) latencyMs ↔
        s.latencies.length + 1 < 2 ^ 32 ∧
          s.latencies.sum - s.latencies.sum % s.latencies.length + latencyMs.toNat < 2 ^ 32 := by
      rw [ServerCache.SuccessFits, hcount, hmean, RunningMean.mean_mul_length]
    rw [KeepsMean, ← and_assoc, ← hfits]
    by_cases hfit : ServerCache.SuccessFits (c.stats server) latencyMs
    · rw [and_iff_right hfit, ← RunningMean.update_mean_eq_iff, ← hmean, ← hcount,
        ← toNat_avgLatency hfit]
      have hok := hruns.ok hfit
      constructor
      · rintro ⟨c', hc', -, hmean'⟩
        dsimp only at hc'
        rw [hc, Except.bind, hok] at hc'
        cases hc'
        rwa [ServerCache.stats_recordSuccess] at hmean'
      · intro hnext
        refine ⟨c.recordSuccess now server name latencyMs, by rw [hc]; exact hok, ?_⟩
        rw [ServerCache.stats_recordSuccess]
        refine ⟨?_, hnext⟩
        rw [toNat_succ hfit.1, hcount, List.length_append, List.length_singleton]
    · refine iff_of_false ?_ fun h => hfit h.1
      rintro ⟨c', hc', -⟩
      obtain ⟨fault, hfault⟩ := hruns.fault hfit
      dsimp only at hc'
      rw [hc, Except.bind, hfault] at hc'
      exact nomatch hc'

end LatencyRun

/-- **The mean latency of a server**: from a cache that has no counters for it, there is no overflow
and the mean is the one of the latencies recorded so far, after every call of a run, exactly if
every success meets the condition.

**Proof sketch.** As long as the mean is the one of the latencies, the product is the part of their
sum that has not been rounded off. The new mean is right if what is missing is no more than what is
rounded off again. -/
theorem latency_stats_iff (server : Server) {c : ServerCache} (hnew : c.serverStats server = none)
    (calls : List (ℕ × LatencyCall)) :
    Transition.Always (LatencyRun.step server) (LatencyRun.MeanExact server) ⟨.ok c, []⟩ calls ↔
      Transition.Guarded (LatencyRun.step server) LatencyRun.KeepsMean ⟨.ok c, []⟩ calls := by
  have hstart : LatencyRun.MeanExact server ⟨.ok c, []⟩ := by
    refine ⟨c, rfl, ?_⟩
    rw [ServerCache.stats, hnew]
    exact ⟨rfl, RunningMean.mean_nil.symm⟩
  obtain ⟨s, hrun⟩ := Transition.exists_run (LatencyRun.exists_step server) ⟨.ok c, []⟩ calls
  exact Transition.always_iff_guarded (fun _ _ _ => LatencyRun.meanExact_step) hstart hrun

/-- Two successes and a failure. -/
theorem latency_stats_two :
    Transition.Always (LatencyRun.step ("1.2.3.4", 7709)) (LatencyRun.MeanExact ("1.2.3.4", 7709))
      ⟨.ok .empty, []⟩
      [(0, .recordSuccess "test" 100), (1, .recordSuccess "test" 200), (2, .recordFailure)] :=
  (latency_stats_iff _ rfl _).mpr (by decide)

/-- The mean of 1, 2 and 3 is stored as 1, because the one of 1 and 2 has been rounded down. -/
theorem latency_stats_drift :
    ¬ Transition.Always (LatencyRun.step ("1.2.3.4", 7709))
      (LatencyRun.MeanExact ("1.2.3.4", 7709)) ⟨.ok .empty, []⟩
      [(0, .recordSuccess "test" 1), (1, .recordSuccess "test" 2),
        (2, .recordSuccess "test" 3)] := by
  intro h
  obtain ⟨c, hc, -, hmean⟩ := ((h.2 _ rfl).2 _ rfl).2 _ rfl
  cases hc
  exact absurd hmean (by decide)

/-- Two latencies whose sum does not fit. -/
example : ¬ Transition.Always (LatencyRun.step ("1.2.3.4", 7709))
    (LatencyRun.MeanExact ("1.2.3.4", 7709)) ⟨.ok .empty, []⟩
    [(0, .recordSuccess "test" 3000000000), (1, .recordSuccess "test" 3000000000)] := by
  intro h
  obtain ⟨c, hc, -⟩ := (h.2 _ rfl).2 _ rfl
  exact nomatch hc

end Tdxrs
