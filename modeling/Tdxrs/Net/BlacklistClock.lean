import Tdxrs.Library.Checked
import Tdxrs.Library.TransitionSystem
import Tdxrs.Net.ServerCache
import Tdxrs.Protocol.Fields

set_option relaxedAutoImplicit false
set_option autoImplicit false

/-!
# The clock of the blacklist

The blacklist is read from a file, with timestamps of another process or another clock, and the
clock can be set back. The age of an entry is an unsigned difference, `now - entry.timestamp`: for
an entry that is newer than the clock it panics with overflow checks, and wraps around without.

The calls are modelled over the subtraction, with each reading of the clock: an addition reads it
for the lookup and again for the entry and the purge.

## Main definitions

* `Tdxrs.ServerCache.isBlacklistedM`, `addToBlacklistM`, `recordFailureM` — the calls.
* `Tdxrs.BlacklistEntry.InForce` — the age of an entry is in `[0, 86400)`.
* `Tdxrs.ServerCache.exactCall` — the calls by exact ages.
* `Tdxrs.ServerCache.CallOk` — no age that a call computes is negative.

## Main results

* `Tdxrs.runs_call` — a call does not panic exactly if no age that it computes is negative.
* `Tdxrs.blacklist_clock_iff` — the same for a sequence of calls.
-/

namespace Tdxrs

/-! ## The calls over a subtraction -/

/-- A call, with the clock readings that it takes; an addition takes one in its lookup and one
after it. -/
inductive ClockCall where
  | isBlacklisted (now : ℕ) (server : Server)
  | addToBlacklist (checkedAt now : ℕ) (server : Server) (reason : String)
  | recordFailure (checkedAt now : ℕ) (server : Server)
deriving DecidableEq, Repr

/-- The unsigned subtraction with overflow checks. -/
def checkedSub (a b : ℕ) : Except Fault ℕ := if b ≤ a then .ok (a - b) else .error .overflow

section

variable {m : Type → Type} [Monad m] (sub : ℕ → ℕ → m ℕ)

/-- Whether an entry is less than a day old. -/
def BlacklistEntry.activeM (e : BlacklistEntry) (now : ℕ) : m Bool := do
  let age ← sub now e.timestamp
  pure (decide (age < 86400))

namespace ServerCache

/-- Whether a server has an active entry. The search stops at the first. -/
def isBlacklistedM (c : ServerCache) (now : ℕ) (server : Server) : m Bool :=
  c.blacklist.anyM fun e => if e.server ≠ server then pure false else e.activeM sub now

/-- Adds an entry for a server, unless it has an active one; entries that have expired go. -/
def addToBlacklistM (c : ServerCache) (checkedAt now : ℕ) (server : Server) (reason : String) :
    m ServerCache := do
  let listed ← c.isBlacklistedM sub checkedAt server
  if listed then pure c
  else do
    let blacklist ← Checked.retainM (fun e => e.activeM sub now)
      (c.blacklist ++ [BlacklistEntry.mk server reason now])
    pure { c with blacklist := blacklist }

/-- The counters of a server after another failure. -/
def countFailure (c : ServerCache) (server : Server) : ServerStats :=
  let stats := (c.serverStats server).getD .new
  { stats with fail := stats.fail + 1, consecutiveFail := stats.consecutiveFail + 1 }

/-- The cache with the counters of a server. -/
def setStats (c : ServerCache) (server : Server) (stats : ServerStats) : ServerCache :=
  { c with serverStats := Function.update c.serverStats server (some stats) }

/-- A failure of a server: too many in a row put it on the blacklist. -/
def recordFailureM (c : ServerCache) (checkedAt now : ℕ) (server : Server) : m ServerCache :=
  let stats := c.countFailure server
  let c := c.setStats server stats
  if stats.consecutiveFail ≥ blacklistFailStreak then
    c.addToBlacklistM sub checkedAt now server blacklistReasonStreak
  else pure c

/-- The cache after a call, with the answer of a lookup. -/
def callM (c : ServerCache) : ClockCall → m (ServerCache × Option Bool)
  | .isBlacklisted now server => do
    let answer ← c.isBlacklistedM sub now server
    pure (c, some answer)
  | .addToBlacklist checkedAt now server reason => do
    let c ← c.addToBlacklistM sub checkedAt now server reason
    pure (c, none)
  | .recordFailure checkedAt now server => do
    let c ← c.recordFailureM sub checkedAt now server
    pure (c, none)

/-- The cache after calls, with the answers of the lookups among them. -/
def callsM (c : ServerCache) : List ClockCall → m (ServerCache × List Bool)
  | [] => pure (c, [])
  | call :: calls => do
    let (c, answer) ← c.callM sub call
    let (c, answers) ← c.callsM calls
    pure (c, answer.toList ++ answers)

end ServerCache

end

/-! ## The calls by exact ages -/

/-- The age of an entry is in `[0, 86400)`. -/
def BlacklistEntry.InForce (e : BlacklistEntry) (now : ℕ) : Prop :=
  e.timestamp ≤ now ∧ now < e.timestamp + 86400

instance (e : BlacklistEntry) (now : ℕ) : Decidable (e.InForce now) :=
  inferInstanceAs (Decidable (_ ∧ _))

namespace ServerCache

/-- Whether a server has an entry in force. -/
def listed (c : ServerCache) (now : ℕ) (server : Server) : Bool :=
  decide (∃ e ∈ c.blacklist, e.server = server ∧ e.InForce now)

/-- An addition keeps the entries in force. -/
def exactAdd (c : ServerCache) (checkedAt now : ℕ) (server : Server) (reason : String) :
    ServerCache :=
  if c.listed checkedAt server then c
  else
    { c with
      blacklist := (c.blacklist ++ [BlacklistEntry.mk server reason now]).filter fun e =>
        decide (e.InForce now) }

/-- A failure is counted, and the third in a row adds an entry. -/
def exactFailure (c : ServerCache) (checkedAt now : ℕ) (server : Server) : ServerCache :=
  if (c.countFailure server).consecutiveFail ≥ blacklistFailStreak then
    (c.setStats server (c.countFailure server)).exactAdd checkedAt now server blacklistReasonStreak
  else c.setStats server (c.countFailure server)

/-- The cache after a call by exact ages, with the answer of a lookup. -/
def exactCall (c : ServerCache) : ClockCall → ServerCache × Option Bool
  | .isBlacklisted now server => (c, some (c.listed now server))
  | .addToBlacklist checkedAt now server reason => (c.exactAdd checkedAt now server reason, none)
  | .recordFailure checkedAt now server => (c.exactFailure checkedAt now server, none)

/-- The cache after calls by exact ages, with the answers of the lookups among them. -/
def exactCalls (c : ServerCache) : List ClockCall → ServerCache × List Bool
  | [] => (c, [])
  | call :: calls =>
    let rest := (c.exactCall call).1.exactCalls calls
    (rest.1, (c.exactCall call).2.toList ++ rest.2)

/-! ## When no age is negative -/

/-- A lookup finds no entry of the server that is newer than the clock, up to the first in force. -/
def LookupOk (c : ServerCache) (now : ℕ) (server : Server) : Prop :=
  Checked.SearchOk (fun e : BlacklistEntry => decide (e.server = server ∧ e.InForce now))
    (fun e => e.server = server → e.timestamp ≤ now) c.blacklist

/-- An addition finds no entry at all that is newer than the clock, unless its lookup finds the
server listed. -/
def AddOk (c : ServerCache) (checkedAt now : ℕ) (server : Server) : Prop :=
  c.LookupOk checkedAt server ∧
    (c.listed checkedAt server = false → ∀ e ∈ c.blacklist, e.timestamp ≤ now)

/-- No age that a call computes is negative. -/
def CallOk (c : ServerCache) : ClockCall → Prop
  | .isBlacklisted now server => c.LookupOk now server
  | .addToBlacklist checkedAt now server _ => c.AddOk checkedAt now server
  | .recordFailure checkedAt now server =>
    (c.countFailure server).consecutiveFail ≥ blacklistFailStreak → c.AddOk checkedAt now server

/-! ## The calls with overflow checks -/

/-- The age of an entry with overflow checks. -/
lemma runs_activeM (e : BlacklistEntry) (now : ℕ) :
    Checked.Runs (e.activeM checkedSub now) (decide (e.InForce now)) (e.timestamp ≤ now) := by
  constructor
  · intro hle
    have hforce : now - e.timestamp < 86400 ↔ e.InForce now := by
      unfold BlacklistEntry.InForce
      omega
    rw [BlacklistEntry.activeM, checkedSub, if_pos hle]
    exact congrArg Except.ok (decide_eq_decide.mpr hforce)
  · intro hgt
    rw [BlacklistEntry.activeM, checkedSub, if_neg hgt]
    exact ⟨_, rfl⟩

/-- The lookup finds the entries of the server that are in force. -/
lemma listed_eq_any (c : ServerCache) (now : ℕ) (server : Server) :
    c.listed now server =
      c.blacklist.any fun e => decide (e.server = server ∧ e.InForce now) := by
  rw [Bool.eq_iff_iff]
  simp [listed]

/-- A lookup with overflow checks. -/
lemma runs_isBlacklistedM (c : ServerCache) (now : ℕ) (server : Server) :
    Checked.Runs (c.isBlacklistedM checkedSub now server) (c.listed now server)
      (c.LookupOk now server) := by
  rw [listed_eq_any]
  refine Checked.Runs.anyM fun e _ => ?_
  by_cases hserver : e.server = server
  · rw [if_neg (not_not.mpr hserver), decide_eq_decide.mpr (and_iff_right hserver)]
    exact (runs_activeM e now).of_iff ⟨fun h _ => h, fun h => h hserver⟩
  · rw [if_pos hserver, decide_eq_false fun h => hserver h.1]
    exact (Checked.Runs.pure false).of_iff (iff_of_true trivial fun h => absurd h hserver)

/-- An addition with overflow checks. -/
lemma runs_addToBlacklistM (c : ServerCache) (checkedAt now : ℕ) (server : Server)
    (reason : String) :
    Checked.Runs (c.addToBlacklistM checkedSub checkedAt now server reason)
      (c.exactAdd checkedAt now server reason) (c.AddOk checkedAt now server) := by
  refine (runs_isBlacklistedM c checkedAt server).bind ?_
  unfold exactAdd
  cases c.listed checkedAt server with
  | true => exact (Checked.Runs.pure c).of_iff (iff_of_true trivial fun h => nomatch h)
  | false =>
    refine ((Checked.Runs.retainM fun e _ => runs_activeM e now).map _).of_iff ?_
    -- the entry that is added is as old as the clock reading
    rw [List.forall_mem_append, List.forall_mem_singleton, and_iff_left le_rfl,
      forall_prop_of_true rfl]

/-- A failure with overflow checks. -/
lemma runs_recordFailureM (c : ServerCache) (checkedAt now : ℕ) (server : Server) :
    Checked.Runs (c.recordFailureM checkedSub checkedAt now server)
      (c.exactFailure checkedAt now server)
      ((c.countFailure server).consecutiveFail ≥ blacklistFailStreak →
        c.AddOk checkedAt now server) := by
  unfold recordFailureM exactFailure
  by_cases hstreak : (c.countFailure server).consecutiveFail ≥ blacklistFailStreak
  · rw [if_pos hstreak, if_pos hstreak]
    exact (runs_addToBlacklistM _ checkedAt now server _).of_iff
      ⟨fun h _ => h, fun h => h hstreak⟩
  · rw [if_neg hstreak, if_neg hstreak]
    exact (Checked.Runs.pure _).of_iff (iff_of_true trivial fun h => absurd h hstreak)

/-- **A call does not panic** exactly if no age that it computes is negative, and then it is the
call by exact ages. -/
lemma runs_call (c : ServerCache) (call : ClockCall) :
    Checked.Runs (c.callM checkedSub call) (c.exactCall call) (c.CallOk call) := by
  cases call with
  | isBlacklisted now server => exact (runs_isBlacklistedM c now server).map _
  | addToBlacklist checkedAt now server reason =>
    exact (runs_addToBlacklistM c checkedAt now server reason).map _
  | recordFailure checkedAt now server =>
    exact (runs_recordFailureM c checkedAt now server).map _

/-! ## The calls without overflow checks -/

/-- Without overflow checks, a lookup takes the wrapped differences.

**Proof sketch.** Without checks the test of an entry cannot fail, so it is the pure test of the
server and of the age, entry by entry. -/
lemma isBlacklistedM_elapsed (c : ServerCache) (now : ℕ) (server : Server) :
    c.isBlacklistedM (m := Id) elapsed now server = c.isBlacklisted now server := by
  have htest : (fun e : BlacklistEntry =>
      (if e.server ≠ server then pure false else e.activeM elapsed now : Id Bool)) =
        fun e => pure (decide (e.server = server) && e.active now) := by
    funext e
    by_cases hserver : e.server = server
    · rw [if_neg (not_not.mpr hserver), decide_eq_true hserver, Bool.true_and]
      rfl
    · rw [if_pos hserver, decide_eq_false hserver, Bool.false_and]
  unfold isBlacklistedM
  rw [htest, List.anyM_pure]
  rfl

/-- Without overflow checks, an addition takes the wrapped differences. -/
lemma addToBlacklistM_id (c : ServerCache) (checkedAt now : ℕ) (server : Server)
    (reason : String) :
    c.addToBlacklistM (m := Id) elapsed checkedAt now server reason =
      if c.isBlacklisted checkedAt server = true then c
      else
        { c with
          blacklist := (c.blacklist ++ [BlacklistEntry.mk server reason now]).filter fun e =>
            e.active now } := by
  unfold addToBlacklistM
  rw [isBlacklistedM_elapsed]
  refine congrArg (ite _ c) ?_
  exact congrArg (fun l => { c with blacklist := l }) (Checked.retainM_id _ _)

/-- Without overflow checks, an addition at one clock reading. -/
lemma addToBlacklistM_elapsed (c : ServerCache) (now : ℕ) (server : Server) (reason : String) :
    c.addToBlacklistM (m := Id) elapsed now now server reason =
      c.addToBlacklist now server reason := addToBlacklistM_id c now now server reason

/-- Without overflow checks, a failure at one clock reading. -/
lemma recordFailureM_elapsed (c : ServerCache) (now : ℕ) (server : Server) :
    c.recordFailureM (m := Id) elapsed now now server = c.recordFailure now server := by
  show (if (c.countFailure server).consecutiveFail ≥ blacklistFailStreak then
    (c.setStats server (c.countFailure server)).addToBlacklistM (m := Id) elapsed now now server
      blacklistReasonStreak else _) = _
  rw [addToBlacklistM_elapsed]
  rfl

/-- An age that is not negative is the difference. -/
lemma active_eq_inForce {e : BlacklistEntry} {now : ℕ} (hle : e.timestamp ≤ now) :
    e.active now = decide (e.InForce now) := by
  rw [Bool.eq_iff_iff, BlacklistEntry.active_iff hle, decide_eq_true_iff]
  exact (and_iff_right hle).symm

/-- A lookup that computes no negative age is exact. -/
lemma LookupOk.isBlacklistedM_eq {c : ServerCache} {now : ℕ} {server : Server}
    (h : c.LookupOk now server) :
    c.isBlacklistedM (m := Id) elapsed now server = c.listed now server := by
  rw [isBlacklistedM_elapsed, listed_eq_any]
  refine Checked.SearchOk.any_eq (fun e hle => ?_) h
  by_cases hserver : e.server = server
  · rw [decide_eq_true hserver, Bool.true_and, active_eq_inForce (hle hserver)]
    exact decide_eq_decide.mpr (and_iff_right hserver).symm
  · rw [decide_eq_false hserver, decide_eq_false fun h => hserver h.1, Bool.false_and]

/-- An addition that computes no negative age is exact.

**Proof sketch.** The lookup inside is exact. If the server is not listed, the entries to be kept
are all from before the call, so the wrapped test of each is the exact one, and the same entries
stay. -/
lemma AddOk.addToBlacklistM_eq {c : ServerCache} {checkedAt now : ℕ} {server : Server}
    (h : c.AddOk checkedAt now server) (reason : String) :
    c.addToBlacklistM (m := Id) elapsed checkedAt now server reason =
      c.exactAdd checkedAt now server reason := by
  unfold addToBlacklistM exactAdd
  rw [h.1.isBlacklistedM_eq]
  cases hlisted : c.listed checkedAt server with
  | true => rfl
  | false =>
    have hall : ∀ e ∈ c.blacklist ++ [BlacklistEntry.mk server reason now], e.timestamp ≤ now :=
      List.forall_mem_append.mpr ⟨h.2 hlisted, List.forall_mem_singleton.mpr le_rfl⟩
    refine congrArg (fun l => { c with blacklist := l }) ?_
    rw [← List.filter_congr fun e he => active_eq_inForce (hall e he)]
    exact Checked.retainM_id _ _

/-- **A call that computes no negative age** is the call by exact ages.

**Proof sketch.** By the kind of call. A failure computes ages only when the streak has reached its
length, and is then an addition. -/
lemma CallOk.callM_eq {c : ServerCache} {call : ClockCall} (h : c.CallOk call) :
    c.callM (m := Id) elapsed call = c.exactCall call := by
  cases call with
  | isBlacklisted now server => exact congrArg (c, some ·) h.isBlacklistedM_eq
  | addToBlacklist checkedAt now server reason =>
    exact congrArg (·, none) (h.addToBlacklistM_eq reason)
  | recordFailure checkedAt now server =>
    refine congrArg (·, none) ?_
    unfold recordFailureM exactFailure
    by_cases hstreak : (c.countFailure server).consecutiveFail ≥ blacklistFailStreak
    · rw [if_pos hstreak, if_pos hstreak]
      exact AddOk.addToBlacklistM_eq (c := c.setStats server (c.countFailure server)) (h hstreak) _
    · rw [if_neg hstreak, if_neg hstreak]
      rfl

/-! ## Sequences of calls -/

/-- A call by exact ages as a step. -/
def exactStep (c : ServerCache) (call : ClockCall) : Option ServerCache :=
  some (c.exactCall call).1

/-- The first of a sequence of calls does not panic. -/
lemma callsM_cons_of_callOk {c : ServerCache} {call : ClockCall} (h : c.CallOk call)
    (calls : List ClockCall) :
    c.callsM checkedSub (call :: calls) = (do
      let r ← (c.exactCall call).1.callsM checkedSub calls
      .ok (r.1, (c.exactCall call).2.toList ++ r.2)) := by
  rw [callsM, (runs_call c call).ok h]
  rfl

/-- Calls that compute no negative age are the calls by exact ages, in both builds. -/
lemma callsM_of_guarded {calls : List ClockCall} : ∀ {c : ServerCache},
    Transition.Guarded exactStep CallOk c calls →
      c.callsM checkedSub calls = .ok (c.exactCalls calls) ∧
        c.callsM (m := Id) elapsed calls = c.exactCalls calls := by
  induction calls with
  | nil => exact fun _ => ⟨rfl, rfl⟩
  | cons call calls ih =>
    intro c h
    obtain ⟨hchecked, hwrapping⟩ := ih (h.2 _ rfl)
    constructor
    · rw [callsM_cons_of_callOk h.1, hchecked]
      rfl
    · rw [callsM, h.1.callM_eq]
      exact congrArg (fun r : ServerCache × List Bool => (r.1, _ ++ r.2)) hwrapping

/-- Calls that do not panic compute no negative age.

**Proof sketch.** Induction on the calls. The first call did not panic, so it computes no negative
age (`runs_call`), and the rest runs from the state that it leaves. -/
lemma guarded_of_callsM {calls : List ClockCall} : ∀ {c : ServerCache}
    {r : ServerCache × List Bool}, c.callsM checkedSub calls = .ok r →
      Transition.Guarded exactStep CallOk c calls := by
  induction calls with
  | nil => exact fun _ => trivial
  | cons call calls ih =>
    intro c r h
    by_cases hcall : c.CallOk call
    · rw [callsM_cons_of_callOk hcall] at h
      refine ⟨hcall, fun c' hc' => ?_⟩
      obtain rfl := Option.some.inj hc'
      cases hrest : (c.exactCall call).1.callsM checkedSub calls with
      | ok rest => exact ih hrest
      | error e =>
        rw [hrest] at h
        exact nomatch h
    · obtain ⟨e, he⟩ := (runs_call c call).fault hcall
      rw [callsM, he] at h
      exact nomatch h

end ServerCache

/-- **The clock of the blacklist.** For every cache that is read from a file, every sequence of
calls and all clock readings, no subtraction underflows and every lookup is true exactly if some
entry of the server has an age in `[0, 86400)`, exactly under this condition on each call: a lookup
meets no entry of its server that is newer than the clock before the first entry in force; and
where an addition finds the server not listed, no entry of the cache is newer than the clock.

**Proof sketch.** A call that computes no negative age does the same with checks, without them and
with exact ages, so a run of such calls does (`callsM_of_guarded`). The first call that computes a
negative age panics with checks (`guarded_of_callsM`). -/
theorem blacklist_clock_iff (c : ServerCache) (calls : List ClockCall) :
    (c.callsM checkedSub calls = .ok (c.exactCalls calls) ∧
        c.callsM (m := Id) elapsed calls = c.exactCalls calls) ↔
      Transition.Guarded ServerCache.exactStep ServerCache.CallOk c calls :=
  ⟨fun h => ServerCache.guarded_of_callsM h.1, ServerCache.callsM_of_guarded⟩

/-- A cache with one entry. -/
def oneEntryCache (timestamp : ℕ) : ServerCache :=
  { ServerCache.empty with blacklist := [⟨someServer, blacklistReasonKlineEmpty, timestamp⟩] }

/-- **The clock is set back.** A lookup of a server whose entry is newer than the clock panics with
overflow checks. Without them an entry of the far future blacklists its server now. -/
theorem blacklist_clock_set_back :
    (oneEntryCache 2000).callsM checkedSub [.isBlacklisted 1000 someServer] = .error .overflow ∧
      ((oneEntryCache (2 ^ 64 - 1)).callsM (m := Id) elapsed
        [.isBlacklisted 1000 someServer]).2 = [true] ∧
      ((oneEntryCache (2 ^ 64 - 1)).exactCalls [.isBlacklisted 1000 someServer]).2 = [false] :=
  ⟨rfl, by decide, by decide⟩

end Tdxrs
