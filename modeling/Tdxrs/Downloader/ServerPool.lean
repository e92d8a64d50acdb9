import Mathlib.Algebra.Order.Field.Basic
import Mathlib.Algebra.Order.Field.Rat
import Mathlib.Data.Rat.Cast.Order
import Mathlib.Tactic.Linarith
import Mathlib.Tactic.Positivity
import Tdxrs.Library.Pacing
import Tdxrs.Library.TransitionSystem
import Tdxrs.Net.RateLimiter

set_option relaxedAutoImplicit false
set_option autoImplicit false

/-!
# The servers of a downloader

`ServerPool` of `python/tdxrs/downloader.py`. Each call of `next_client` takes the next server in
turn and waits until the interval since its last request is over. A pool has one rate for daily data
and one for minutes, from the trading phase at its construction. Times are exact numbers of seconds,
from the clock `time.monotonic`, which is read before and after the sleep. A rate that is not
positive makes for no wait at all.

## Main definitions

* `Tdxrs.ServerPool`, `Tdxrs.ServerPool.new` — the rates, and when each server was asked last.
* `Tdxrs.ServerPool.nextClient` — the next server.
* `Tdxrs.ServerPool.requestsIn` — the calls that went to a server within a window of time.

## Main results

* `Tdxrs.server_pool_fair` — servers take turns, and with a positive rate none has more requests
  than its rate allows.
-/

namespace Tdxrs

open Pacing

/-! ## The pool -/

/-- A call of `next_client`, with what the clock reads before and after the sleep. -/
structure ClientCall where
  isMinute : Bool
  asked : ℚ
  noted : ℚ
deriving DecidableEq, Repr

/-- A call that has gone to a server: when, and the interval that it has waited for, if it has. -/
structure Visit where
  server : ℕ
  time : ℚ
  interval : Option ℚ
deriving DecidableEq, Repr

/-- A pool of servers. -/
structure ServerPool where
  rateLimit : ℤ
  minuteRateLimit : ℤ
  lastRequest : List ℚ
  idx : ℕ
  /-- Ghost: the last reading of the clock. -/
  clock : ℚ
  /-- Ghost: the calls so far. -/
  calls : List Visit
deriving DecidableEq

namespace ServerPool

/-- The rate for minutes: ten times the second column of `_RATE_MULTIPLIER`. -/
def minuteRate : TradingPhase → ℤ
  | .trading => 10
  | .prePost => 15
  | .closed => 30

/-- A pool of `n` servers. -/
def new (n : ℕ) (rateLimit : ℤ) (phase : TradingPhase) : ServerPool where
  rateLimit := min (min rateLimit 200 * phase.multiplier) 200
  minuteRateLimit := min (minuteRate phase) 200
  lastRequest := List.replicate n 0
  idx := 0
  clock := 0
  calls := []

/-- How long `_wait` sleeps. -/
def pause (minInterval elapsed : ℚ) : ℚ :=
  if elapsed < minInterval then minInterval - elapsed else 0

/-- The rate of a call. -/
def rps (p : ServerPool) (isMinute : Bool) : ℤ :=
  if isMinute then p.minuteRateLimit else p.rateLimit

/-- The next server in turn, after a wait for it. A rate that is not positive makes for no wait. The
clock does not go back, and a sleep is not shorter than asked for. -/
def nextClient (p : ServerPool) (c : ClientCall) : Option ServerPool :=
  if p.lastRequest.length = 0 then none
  else
    let idx := p.idx % p.lastRequest.length
    let rps : ℤ := p.rps c.isMinute
    if c.asked < p.clock then none
    else if rps ≤ 0 then
      some { p with
        idx := p.idx + 1
        clock := c.asked
        calls := p.calls ++ [⟨idx, c.asked, none⟩] }
    else
      let minInterval : ℚ := 1 / rps
      let elapsed := c.asked - p.lastRequest.getD idx 0
      if c.noted < c.asked + pause minInterval elapsed then none
      else
        some { p with
          idx := p.idx + 1
          lastRequest := p.lastRequest.set idx c.noted
          clock := c.noted
          calls := p.calls ++ [⟨idx, c.noted, some minInterval⟩] }

/-- How many calls have gone to a server within a window of time. -/
def requestsIn (p : ServerPool) (server : ℕ) (start length : ℚ) : ℕ :=
  (p.calls.filter fun v =>
    v.server = server ∧ start ≤ v.time ∧ v.time < start + length).length

/-- The wait of a call for a server, if it has waited. -/
def stamp (server : ℕ) (v : Visit) : Option (Stamp ℚ) :=
  if v.server = server then v.interval.map fun interval => ⟨v.time, interval⟩ else none

/-- The waits for a server. -/
def stamps (p : ServerPool) (server : ℕ) : List (Stamp ℚ) := p.calls.filterMap (stamp server)

/-! ## Turns and distances -/

/-- Servers take turns, requests to one server keep their distances, and the last one is noted. -/
structure Inv (n : ℕ) (rateLimit minuteRateLimit : ℤ) (p : ServerPool) : Prop where
  rates : p.rateLimit = rateLimit ∧ p.minuteRateLimit = minuteRateLimit
  servers : p.lastRequest.length = n
  turn : p.idx = p.calls.length
  turns : p.calls.map Visit.server = (List.range p.calls.length).map (· % n)
  paced : ∀ server, Paced (p.stamps server)
  noted : ∀ server < n, ∀ last ∈ (p.stamps server).getLast?,
    last.time = p.lastRequest.getD server 0
  intervals : ∀ server, ∀ r ∈ p.stamps server,
    (0 < rateLimit ∧ r.interval = 1 / rateLimit) ∨
      0 < minuteRateLimit ∧ r.interval = 1 / minuteRateLimit
  waited : 0 < rateLimit → 0 < minuteRateLimit → ∀ v ∈ p.calls, v.interval.isSome

lemma inv_new (n : ℕ) (rateLimit : ℤ) (phase : TradingPhase) :
    (new n rateLimit phase).Inv n (new n rateLimit phase).rateLimit
      (new n rateLimit phase).minuteRateLimit :=
  ⟨⟨rfl, rfl⟩, List.length_replicate, rfl, rfl, fun _ => .nil, fun _ _ _ h => (nomatch h),
    fun _ _ h => absurd h List.not_mem_nil, fun _ _ _ h => absurd h List.not_mem_nil⟩

/-- The sleep ends when the interval is over. -/
lemma add_interval_le {minInterval last asked noted : ℚ}
    (h : asked + pause minInterval (asked - last) ≤ noted) : last + minInterval ≤ noted := by
  unfold pause at h
  split at h <;> linarith

/-- One more call in turn. -/
lemma turns_concat {n : ℕ} {calls : List Visit} {v : Visit} (hv : v.server = calls.length % n)
    (h : calls.map Visit.server = (List.range calls.length).map (· % n)) :
    (calls ++ [v]).map Visit.server = (List.range (calls ++ [v]).length).map (· % n) := by
  rw [List.map_append, h, List.length_append, List.length_singleton, List.range_succ,
    List.map_append, List.map_singleton, List.map_singleton, hv]

/-- The waits for a server after one more call. -/
lemma stamps_concat {p p' : ServerPool} {v : Visit} (h : p'.calls = p.calls ++ [v])
    (server : ℕ) : p'.stamps server = p.stamps server ++ (stamp server v).toList := by
  rw [stamps, stamps, h, List.filterMap_append]
  cases hstamp : stamp server v <;> simp [hstamp]

variable {n : ℕ} {rateLimit minuteRateLimit : ℤ} {p : ServerPool}

/-- A call that does not wait.

**Proof sketch.** A call that does not wait notes no time, so the stamps of every server stay as
they are; it takes the next turn, and it is made only with a rate that is not positive, so that what
is said of positive rates holds of nothing. -/
lemma Inv.skip (h : p.Inv n rateLimit minuteRateLimit)
    (hrate : rateLimit ≤ 0 ∨ minuteRateLimit ≤ 0) (time : ℚ) :
    ({ p with
        idx := p.idx + 1
        clock := time
        calls := p.calls ++ [⟨p.idx % n, time, none⟩] } : ServerPool).Inv n rateLimit
      minuteRateLimit := by
  have hstamps (server : ℕ) :
      ({ p with
          idx := p.idx + 1
          clock := time
          calls := p.calls ++ [⟨p.idx % n, time, none⟩] } : ServerPool).stamps server =
        p.stamps server := by
    refine (stamps_concat (v := ⟨p.idx % n, time, none⟩) rfl server).trans ?_
    rw [stamp]
    split <;> exact List.append_nil _
  refine ⟨h.rates, h.servers, ?_, turns_concat (h.turn ▸ rfl) h.turns, fun server => ?_,
    fun server hserver => ?_, fun server => ?_, fun hdaily hminute => by omega⟩
  · rw [List.length_append, List.length_singleton, ← h.turn]
  · rw [hstamps]
    exact h.paced server
  · rw [hstamps]
    exact h.noted server hserver
  · rw [hstamps]
    exact h.intervals server

/-- A call that has waited.

**Proof sketch.** The server whose turn it is gets one more stamp, and all others keep theirs. By
the invariant the time that the pool has noted for this server is that of its last stamp, so that
the new one keeps its interval from it, and the list stays paced (`Paced.concat`). -/
lemma Inv.wait (h : p.Inv n rateLimit minuteRateLimit) (hn : 0 < n) {noted interval : ℚ}
    (hinterval : (0 < rateLimit ∧ interval = 1 / rateLimit) ∨
      0 < minuteRateLimit ∧ interval = 1 / minuteRateLimit)
    (hnoted : p.lastRequest.getD (p.idx % n) 0 + interval ≤ noted) :
    ({ p with
        idx := p.idx + 1
        lastRequest := p.lastRequest.set (p.idx % n) noted
        clock := noted
        calls := p.calls ++ [⟨p.idx % n, noted, some interval⟩] } : ServerPool).Inv n rateLimit
      minuteRateLimit := by
  have hidx : p.idx % n < n := Nat.mod_lt _ hn
  have hstamps (server : ℕ) :
      ({ p with
          idx := p.idx + 1
          lastRequest := p.lastRequest.set (p.idx % n) noted
          clock := noted
          calls := p.calls ++ [⟨p.idx % n, noted, some interval⟩] } : ServerPool).stamps server =
        p.stamps server ++ if p.idx % n = server then [⟨noted, interval⟩] else [] := by
    refine (stamps_concat (v := ⟨p.idx % n, noted, some interval⟩) rfl server).trans ?_
    rw [stamp]
    split <;> rfl
  have hnonneg : 0 ≤ interval := by
    rcases hinterval with ⟨hpos, rfl⟩ | ⟨hpos, rfl⟩ <;> positivity
  refine ⟨h.rates, (List.length_set).trans h.servers, ?_, turns_concat (h.turn ▸ rfl) h.turns,
    fun server => ?_, fun server hserver last hlast => ?_, fun server r hr => ?_,
    fun hdaily hminute v hv => ?_⟩
  · rw [List.length_append, List.length_singleton, ← h.turn]
  · rw [hstamps]
    split
    · rename_i hsame
      refine (h.paced server).concat hnonneg fun last hlast => ?_
      rw [h.noted server (hsame ▸ hidx) last hlast, ← hsame]
      exact hnoted
    · rw [List.append_nil]
      exact h.paced server
  · rw [hstamps] at hlast
    split at hlast
    · rename_i hsame
      rw [List.getLast?_concat] at hlast
      obtain rfl := Option.some.inj hlast
      have hlt : server < (p.lastRequest.set (p.idx % n) noted).length := by
        rwa [List.length_set, h.servers]
      rw [List.getD_eq_getElem?_getD, List.getElem?_eq_getElem hlt, List.getElem_set, if_pos hsame]
      rfl
    · rename_i hother
      rw [List.append_nil] at hlast
      rw [h.noted server hserver last hlast, List.getD_eq_getElem?_getD, List.getD_eq_getElem?_getD,
        List.getElem?_set_ne hother]
  · rw [hstamps] at hr
    rcases List.mem_append.mp hr with hr | hr
    · exact h.intervals server r hr
    · split at hr
      · obtain rfl := List.mem_singleton.mp hr
        exact hinterval
      · exact absurd hr List.not_mem_nil
  · rcases List.mem_append.mp hv with hv | hv
    · exact h.waited hdaily hminute v hv
    · obtain rfl := List.mem_singleton.mp hv
      rfl

/-- What a call does.

**Proof sketch.** The branches of the step. A pool without servers has none; with a rate that is not
positive the call goes through at once; otherwise the step exists only if the caller has slept for
what was left of the interval (`add_interval_le`). -/
lemma nextClient_cases {c : ClientCall} {p' : ServerPool} (hs : p.nextClient c = some p') :
    0 < p.lastRequest.length ∧
      ((p.rps c.isMinute ≤ 0 ∧
        p' = { p with
          idx := p.idx + 1
          clock := c.asked
          calls := p.calls ++ [⟨p.idx % p.lastRequest.length, c.asked, none⟩] }) ∨
      (0 < p.rps c.isMinute ∧
        p.lastRequest.getD (p.idx % p.lastRequest.length) 0 + 1 / p.rps c.isMinute ≤ c.noted ∧
        p' = { p with
          idx := p.idx + 1
          lastRequest := p.lastRequest.set (p.idx % p.lastRequest.length) c.noted
          clock := c.noted
          calls := p.calls ++
            [⟨p.idx % p.lastRequest.length, c.noted, some (1 / p.rps c.isMinute)⟩] })) := by
  rw [nextClient] at hs
  split at hs
  · cases hs
  rename_i hn
  refine ⟨Nat.pos_of_ne_zero hn, ?_⟩
  dsimp only at hs
  split at hs
  · cases hs
  split at hs
  · rename_i hrps
    exact .inl ⟨hrps, (Option.some.inj hs).symm⟩
  · rename_i hrps
    split at hs
    · cases hs
    · rename_i hslept
      exact .inr ⟨not_le.mp hrps, add_interval_le (not_lt.mp hslept), (Option.some.inj hs).symm⟩

/-- The rate of a call is one of the two. -/
lemma Inv.rps_eq (h : p.Inv n rateLimit minuteRateLimit) (isMinute : Bool) :
    p.rps isMinute = minuteRateLimit ∨ p.rps isMinute = rateLimit := by
  obtain ⟨rfl, rfl⟩ := h.rates
  cases isMinute with
  | false => exact .inr rfl
  | true => exact .inl rfl

/-- **Step lemma.** A call takes the next server and keeps the distance from the last request to
it.

**Proof sketch.** By whether the rate is positive. Without one the server is only passed on; with
one the wait keeps to the interval of the call's own rate, whichever of the two it is. -/
lemma Inv.step (p : ServerPool) (c : ClientCall) (p' : ServerPool)
    (h : p.Inv n rateLimit minuteRateLimit) (hs : p.nextClient c = some p') :
    p'.Inv n rateLimit minuteRateLimit := by
  obtain ⟨hn, ⟨hrps, rfl⟩ | ⟨hrps, hkept, rfl⟩⟩ := nextClient_cases hs
  · rw [h.servers]
    refine h.skip ?_ _
    rcases h.rps_eq c.isMinute with heq | heq
    · exact .inr (heq ▸ hrps)
    · exact .inl (heq ▸ hrps)
  · rw [h.servers] at hn hkept ⊢
    refine h.wait hn ?_ hkept
    rcases h.rps_eq c.isMinute with heq | heq
    · exact .inr ⟨heq ▸ hrps, by rw [heq]⟩
    · exact .inl ⟨heq ▸ hrps, by rw [heq]⟩

/-- Where all calls have waited, the requests of a server are its waits.

**Proof sketch.** Induction on the calls: one of another server is on neither side, and one of this
server has a stamp of its time, because it has waited. -/
lemma requestsIn_eq (h : ∀ v ∈ p.calls, v.interval.isSome) (server : ℕ) (start length : ℚ) :
    p.requestsIn server start length =
      ((p.stamps server).filter fun r => start ≤ r.time ∧ r.time < start + length).length := by
  unfold requestsIn stamps
  generalize p.calls = calls at h
  induction calls with
  | nil => rfl
  | cons v calls ih =>
    obtain ⟨hv, hcalls⟩ := List.forall_mem_cons.mp h
    obtain ⟨interval, hinterval⟩ := Option.isSome_iff_exists.mp hv
    have ih := ih hcalls
    by_cases hserver : v.server = server
    · have hstamp : stamp server v = some ⟨v.time, interval⟩ := by
        rw [stamp, if_pos hserver, hinterval]
        rfl
      rw [List.filterMap_cons_some hstamp]
      by_cases htime : start ≤ v.time ∧ v.time < start + length
      · rw [List.filter_cons_of_pos (by simpa using ⟨hserver, htime⟩),
          List.filter_cons_of_pos (by simpa using htime), List.length_cons, List.length_cons, ih]
      · rw [List.filter_cons_of_neg (by simpa [hserver] using htime),
          List.filter_cons_of_neg (by simpa using htime), ih]
    · have hstamp : stamp server v = none := if_neg hserver
      rw [List.filterMap_cons_none hstamp, List.filter_cons_of_neg (by simp [hserver]), ih]

/-- One entry for each call. -/
lemma length_nextClient {p' : ServerPool} {c : ClientCall} (hs : p.nextClient c = some p') :
    p'.calls.length = p.calls.length + 1 := by
  obtain ⟨-, ⟨-, rfl⟩ | ⟨-, -, rfl⟩⟩ := nextClient_cases hs
  · exact List.length_append
  · exact List.length_append

lemma length_run {calls : List ClientCall} : ∀ {p p' : ServerPool},
    Transition.run nextClient p calls = some p' →
      p'.calls.length = p.calls.length + calls.length := by
  induction calls with
  | nil =>
    intro p p' hrun
    obtain rfl := Option.some.inj hrun
    rfl
  | cons c calls ih =>
    intro p p' hrun
    obtain ⟨q, hq, hrun⟩ := Option.bind_eq_some_iff.mp hrun
    rw [ih hrun, length_nextClient hq, List.length_cons]
    omega

end ServerPool

/-- The rate for minutes is positive in every phase. -/
lemma ServerPool.minuteRateLimit_pos (n : ℕ) (rateLimit : ℤ) (phase : TradingPhase) :
    0 < (new n rateLimit phase).minuteRateLimit := by
  show 0 < min (minuteRate phase) 200
  cases phase <;> decide

/-- The rate for daily data is positive if the one that it is made from is. -/
lemma ServerPool.rateLimit_pos (n : ℕ) {rateLimit : ℤ} (h : 0 < rateLimit) (phase : TradingPhase) :
    0 < (new n rateLimit phase).rateLimit := by
  have hmult : (0 : ℤ) < phase.multiplier := Int.natCast_pos.mpr phase.multiplier_pos
  exact lt_min (mul_pos (lt_min h (by decide)) hmult) (by decide)

/-- **Servers take turns, and none is asked too often**, for any number of servers, any rate and
phase, and any sequence of calls for daily data and for minutes. The calls go to the servers in
turn, and no rate is above 200. If the rate that the pool was made with is positive, and neither of
its two rates is above `rate`, then at most `m` calls go to a server within `m / rate` seconds. With
a rate that is not positive the calls for daily data do not wait at all, and there is no bound.

**Proof sketch.** The time that is noted for a server is that of the last wait for it, and a wait
ends when the interval since then is over, so that the waits for a server keep their distances.
With positive rates every call waits. -/
theorem server_pool_fair (n : ℕ) (rateLimit : ℤ) (phase : TradingPhase) (calls : List ClientCall)
    (p : ServerPool)
    (hrun : Transition.run ServerPool.nextClient (.new n rateLimit phase) calls = some p) :
    p.calls.map Visit.server = (List.range calls.length).map (· % n) ∧
      (p.rateLimit ≤ 200 ∧ p.minuteRateLimit ≤ 200) ∧
      (0 < rateLimit → ∀ rate : ℤ, p.rateLimit ≤ rate → p.minuteRateLimit ≤ rate →
        ∀ (server : ℕ) (start : ℚ) (m : ℕ), p.requestsIn server start (m * (1 / rate)) ≤ m) := by
  have h := Transition.run_invariant ServerPool.Inv.step (ServerPool.inv_new n rateLimit phase) hrun
  have hlength : p.calls.length = calls.length :=
    (ServerPool.length_run hrun).trans (Nat.zero_add _)
  refine ⟨hlength ▸ h.turns, ?_, fun hpos rate hdaily hminute server start m => ?_⟩
  · rw [h.rates.1, h.rates.2]
    exact ⟨min_le_right _ _, min_le_right _ _⟩
  · have hwaited := h.waited (ServerPool.rateLimit_pos n hpos phase)
      (ServerPool.minuteRateLimit_pos n rateLimit phase)
    rw [h.rates.1] at hdaily
    rw [h.rates.2] at hminute
    have hwindow := (h.paced server).length_window_le (δ := (1 : ℚ) / rate) start m
      fun r hr _ _ => by
        rcases h.intervals server r hr with ⟨hpos, hinterval⟩ | ⟨hpos, hinterval⟩
        · rw [hinterval]
          exact one_div_le_one_div_of_le (by exact_mod_cast hpos) (by exact_mod_cast hdaily)
        · rw [hinterval]
          exact one_div_le_one_div_of_le (by exact_mod_cast hpos) (by exact_mod_cast hminute)
    rw [nsmul_eq_mul] at hwindow
    rw [ServerPool.requestsIn_eq hwaited]
    exact hwindow

/-- Two servers at one request per second: the third call waits for the first server. -/
def threeCalls : List ClientCall := [⟨false, 10, 10⟩, ⟨false, 10, 10⟩, ⟨false, 21 / 2, 11⟩]

/-- The pool after the three calls. -/
def afterThreeCalls : ServerPool where
  rateLimit := 1
  minuteRateLimit := 10
  lastRequest := [11, 10]
  idx := 3
  clock := 11
  calls := [⟨0, 10, some 1⟩, ⟨1, 10, some 1⟩, ⟨0, 11, some 1⟩]

theorem server_pool_fair_three : afterThreeCalls.calls.map Visit.server = [0, 1, 0] ∧
    afterThreeCalls.requestsIn 0 10 (1 * (1 / (10 : ℤ))) ≤ 1 := by
  have hfair := server_pool_fair 2 1 .trading threeCalls afterThreeCalls (by decide +kernel)
  refine ⟨hfair.1.trans (by decide), ?_⟩
  exact_mod_cast hfair.2.2 (by decide) 10 (by decide) (by decide) 0 10 1

end Tdxrs
