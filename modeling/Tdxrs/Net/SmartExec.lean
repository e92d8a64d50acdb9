import Tdxrs.Net.BlacklistClock
import Tdxrs.Net.SmartClient

set_option relaxedAutoImplicit false
set_option autoImplicit false

/-!
# Calls of the smart client from start to end

The handler of the operations of the smart client, for calls that nothing interrupts. Around the
client there are the clock, of which every lookup and every record takes readings of its own, and
the servers, each connect to which succeeds or fails.

A panic is left out: the arithmetic of the cache is that of a build without overflow checks, and no
server has a success counter of `2 ^ 32 - 1`, with which the next average divides by zero.

## Main definitions

* `Tdxrs.Surroundings`, `Tdxrs.SmartState` — what is around the client, and its state.
* `Tdxrs.Surroundings.handle` — the handler.

## Main results

* `Tdxrs.ServerCache.recordAt_failure` — what a failure does to the cache.
* `Tdxrs.exec_connectAndRecord` — connecting to a server.
-/

namespace Tdxrs

/-- What is around the smart client during its calls. -/
structure Surroundings where
  /-- The readings of the clock, in the order in which they are taken. -/
  clock : ℕ → ℕ
  /-- What the `n`-th connect comes to: the milliseconds that it takes, if it is successful. -/
  dial : ℕ → Server → Option UInt32
  /-- What the client inside answers. -/
  answer : (op : HqOp) → op.Ans

/-- What the calls read and change, with the number of clock readings so far and, as a ghost, the
servers of all connects so far. -/
structure SmartState where
  cache : ServerCache
  currentServer : Option NamedServer
  healthChecked : Bool
  readings : ℕ
  dialled : List Server

/-! ## The handler -/

namespace ServerCache

/-- The cache after a verdict, with two clock readings that recording it may take. -/
def recordAt (c : ServerCache) (checkedAt now : ℕ) : CacheCall → ServerCache
  | .recordSuccess server name latencyMs => c.recordSuccess checkedAt server name latencyMs
  | .recordFailure server => c.recordFailureM (m := Id) elapsed checkedAt now server
  | .addToBlacklist server reason =>
    c.addToBlacklistM (m := Id) elapsed checkedAt now server reason

/-- Whether all servers are blacklisted, and the number of clock readings after the lookups. The
lookups stop at the first server that is not. -/
def allBlacklistedFrom (c : ServerCache) (clock : ℕ → ℕ) : ℕ → List Server → Bool × ℕ
  | k, [] => (true, k)
  | k, server :: servers =>
    if c.isBlacklisted (clock k) server then c.allBlacklistedFrom clock (k + 1) servers
    else (false, k + 1)

end ServerCache

/-- What the operations do. -/
def Surroundings.handle (env : Surroundings) : (op : SmartOp) → SmartState → op.Ans × SmartState
  | .hq op, s => (env.answer op, s)
  | .connect server, s =>
    (env.dial s.dialled.length server, { s with dialled := s.dialled ++ [server] })
  | .disconnect, s => ((), s)
  | .beginCall, s => ((), s)
  | .currentServer, s => (s.currentServer, s)
  | .setCurrentServer server, s => ((), { s with currentServer := some server })
  | .healthChecked, s => (s.healthChecked, s)
  | .setHealthChecked checked, s => ((), { s with healthChecked := checked })
  | .lastSuccess, s => (s.cache.lastSuccess, s)
  | .clearLastSuccess, s => ((), { s with cache := s.cache.clearLastSuccess })
  | .isBlacklisted server, s =>
    (s.cache.isBlacklisted (env.clock s.readings) server, { s with readings := s.readings + 1 })
  | .allBlacklisted servers, s =>
    let r := s.cache.allBlacklistedFrom env.clock s.readings servers
    (r.1, { s with readings := r.2 })
  | .record call, s =>
    ((), { s with
      cache := s.cache.recordAt (env.clock s.readings) (env.clock (s.readings + 1)) call
      readings := s.readings + 2 })

/-! ## What a failure does to the cache -/

namespace ServerCache

variable {c : ServerCache} {e : BlacklistEntry} {checkedAt now : ℕ} {server : Server}

/-- **What a failure does**: it is counted, and may add an entry, which purges the blacklist. -/
lemma recordAt_failure (c : ServerCache) (checkedAt now : ℕ) (server : Server) :
    c.recordAt checkedAt now (.recordFailure server) =
        c.setStats server (c.countFailure server) ∨
      c.recordAt checkedAt now (.recordFailure server) =
        { c.setStats server (c.countFailure server) with
          blacklist :=
            (c.blacklist ++ [BlacklistEntry.mk server blacklistReasonStreak now]).filter fun e =>
              e.active now } := by
  unfold recordAt recordFailureM
  simp only
  split
  · rw [addToBlacklistM_id]
    split
    · exact .inl rfl
    · exact .inr rfl
  · exact .inl rfl

/-- A failure adds no entry of another server. -/
lemma mem_of_mem_failed (he : e ∈ (c.recordAt checkedAt now (.recordFailure server)).blacklist)
    (hne : e.server ≠ server) : e ∈ c.blacklist := by
  rcases recordAt_failure c checkedAt now server with h | h
  · rwa [h] at he
  · rw [h] at he
    rcases List.mem_append.mp (List.mem_filter.mp he).1 with hold | hnew
    · exact hold
    · exact absurd (congrArg BlacklistEntry.server (List.mem_singleton.mp hnew)) hne

/-- A failure keeps the entries that are active. -/
lemma mem_failed_of_mem (he : e ∈ c.blacklist) (hactive : e.active now = true) :
    e ∈ (c.recordAt checkedAt now (.recordFailure server)).blacklist := by
  rcases recordAt_failure c checkedAt now server with h | h
  · rwa [h]
  · rw [h]
    exact List.mem_filter.mpr ⟨List.mem_append_left _ he, hactive⟩

/-- A failure leaves the server of the last success. -/
lemma recordAt_failure_lastSuccess (c : ServerCache) (checkedAt now : ℕ) (server : Server) :
    (c.recordAt checkedAt now (.recordFailure server)).lastSuccess = c.lastSuccess := by
  rcases recordAt_failure c checkedAt now server with h | h
  · rw [h]
    rfl
  · rw [h]
    rfl

end ServerCache

/-! ## Connecting to a server -/

namespace SmartState

variable (env : Surroundings) (s : SmartState) (server : NamedServer)

/-- After the `connect` of a server and the record of a verdict about it. -/
def recorded (call : CacheCall) : SmartState :=
  { s with
    cache := s.cache.recordAt (env.clock s.readings) (env.clock (s.readings + 1)) call
    readings := s.readings + 2
    dialled := s.dialled ++ [call.server] }

/-- After a successful `connect_and_record`. -/
def landed (elapsedMs : UInt32) : SmartState :=
  { s.recorded env (.recordSuccess server.server server.name elapsedMs) with
    currentServer := some server
    healthChecked := false }

/-- After a `connect_and_record` that fails. -/
def failed : SmartState := s.recorded env (.recordFailure server.server)

/-- The server is connected to between two states. -/
def Dials (s s' : SmartState) (server : Server) : Prop :=
  ∃ new, s'.dialled = s.dialled ++ new ∧ server ∈ new

/-- Only more servers are connected to. -/
def Grows (s s' : SmartState) : Prop := ∃ new, s'.dialled = s.dialled ++ new

variable {env s} {s' s'' : SmartState} {server : Server}

lemma Grows.refl (s : SmartState) : s.Grows s := ⟨[], (List.append_nil _).symm⟩

lemma Dials.trans (h : s.Dials s' server) (h' : s'.Grows s'') : s.Dials s'' server := by
  obtain ⟨new, hnew, hmem⟩ := h
  obtain ⟨more, hmore⟩ := h'
  exact ⟨new ++ more, by rw [hmore, hnew, List.append_assoc], List.mem_append_left _ hmem⟩

lemma Grows.trans_dials (h : s.Grows s') (h' : s'.Dials s'' server) : s.Dials s'' server := by
  obtain ⟨new, hnew⟩ := h
  obtain ⟨more, hmore, hmem⟩ := h'
  exact ⟨new ++ more, by rw [hmore, hnew, List.append_assoc], List.mem_append_right _ hmem⟩

end SmartState

/-- **Connecting to a server** is recorded as a success or as a failure. -/
lemma exec_connectAndRecord (env : Surroundings) (s : SmartState) (server : NamedServer) :
    (SmartProgram.connectAndRecord server).exec env.handle s =
      match env.dial s.dialled.length server.server with
      | some elapsedMs => (true, s.landed env server elapsedMs)
      | none => (false, s.failed env server) := by
  show (Program.exec env.handle (match env.dial s.dialled.length server.server with
    | some elapsedMs => _
    | none => _) _) = _
  cases env.dial s.dialled.length server.server <;> rfl

end Tdxrs
