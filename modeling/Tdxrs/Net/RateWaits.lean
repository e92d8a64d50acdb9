import Tdxrs.Library.Pacing
import Tdxrs.Library.TransitionSystem
import Tdxrs.Net.RateLimiter

set_option relaxedAutoImplicit false
set_option autoImplicit false

/-!
# Waiting for the rate limit

`wait` of the limiters in `src/net/utils.rs` and `src/net/async_client.rs`. A thread looks whether
the limiter is enabled, takes its lock, reads the clock, sleeps until the interval since the last
request is over, notes the time and gives the lock back. Any number of threads wait while others
change the rate and the phase, which takes the lock as well; the limiter is enabled and disabled
without the lock, and a thread that finds it disabled goes on at once. The task of an asynchronous
wait may be dropped while it sleeps.

Both limiters do the same, and the system is over what they have in common, `Limiter`. Times are in
nanoseconds.

## Main definitions

* `Tdxrs.Limiter`, `Tdxrs.syncLimiter`, `Tdxrs.asyncLimiter` — what a wait uses of the settings.
* `Tdxrs.WaitState`, `Tdxrs.WaitEvent`, `Tdxrs.waitStep` — a limiter and its threads.
* `Tdxrs.WaitState.releasedIn`, `Tdxrs.WaitState.requestsIn` — the waits that end within a window of
  time: those that had the lock, and all of them.

## Main results

* `Tdxrs.releases_paced` — how many waits that had the lock end within a window of time, and when
  one can end.
* `Tdxrs.rate_cap_kept` — the windows that have no more than 200 requests in a second.
-/

namespace Tdxrs

open Pacing

/-! ## The limiter and its threads -/

/-- What `wait` uses of the settings of a limiter, and the calls that change them. -/
structure Limiter (S : Type) where
  enabled : S → Bool
  /-- In nanoseconds. -/
  minInterval : S → ℕ
  call : S → RateCall → S
  setEnabled : S → Bool → S

/-- Milliseconds in nanoseconds. -/
def millis (ms : ℕ) : ℕ := ms * 10 ^ 6

/-- The limiter of `src/net/utils.rs`. -/
def syncLimiter : Limiter RateLimiter where
  enabled l := l.enabled
  minInterval l := millis l.minInterval
  call := RateLimiter.call
  setEnabled l enabled := { l with enabled }

/-- The limiter of `src/net/async_client.rs`, which always waits, but for an interval of zero. -/
def asyncLimiter : Limiter AsyncRates where
  enabled _ := true
  minInterval c := millis c.rateLimiter.minInterval
  call := AsyncRates.call
  setEnabled c _ := c

/-- How long `wait` sleeps. -/
def pause (lastRequest : Option ℕ) (minInterval now : ℕ) : ℕ :=
  match lastRequest with
  | some last =>
    let elapsed := now - last
    if elapsed < minInterval then minInterval - elapsed else 0
  | none => 0

/-- A thread that has the lock: the interval, when it read the clock, and when it wakes up. -/
structure Sleeper where
  interval : ℕ
  since : ℕ
  wakeAt : ℕ
deriving DecidableEq, Repr

/-- A limiter and its threads. -/
structure WaitState (S : Type) where
  settings : S
  lastRequest : Option ℕ
  /-- How many threads have found the limiter enabled and do not have the lock yet. -/
  asking : ℕ
  sleeper : Option Sleeper
  clock : ℕ
  /-- Ghost: when waits that had the lock have ended, and the intervals that they went by. -/
  releases : List (Stamp ℕ)
  /-- Ghost: when threads have found the limiter disabled. -/
  passes : List ℕ
deriving DecidableEq

/-- A limiter that nobody has waited for. -/
def WaitState.init {S : Type} (settings : S) : WaitState S := ⟨settings, none, 0, none, 0, [], []⟩

/-- What can happen: time passes; a thread begins to wait, which is all there is to it if the
limiter is disabled, gets the lock, or goes on; a task is dropped while it has the lock; and the
settings are changed. -/
inductive WaitEvent where
  | elapse (nanos : ℕ)
  | ask
  | lock
  | release
  | abandon
  | call (c : RateCall)
  | setEnabled (enabled : Bool)
deriving DecidableEq, Repr

/-- One event. -/
def waitStep {S : Type} (L : Limiter S) (s : WaitState S) : WaitEvent → Option (WaitState S)
  | .elapse nanos => some { s with clock := s.clock + nanos }
  | .ask =>
    if !L.enabled s.settings then some { s with passes := s.passes ++ [s.clock] }
    else some { s with asking := s.asking + 1 }
  | .lock =>
    if s.asking = 0 ∨ s.sleeper.isSome then none
    else
      let interval := L.minInterval s.settings
      let sleeper := ⟨interval, s.clock, s.clock + pause s.lastRequest interval s.clock⟩
      some { s with asking := s.asking - 1, sleeper := some sleeper }
  | .release =>
    match s.sleeper with
    | none => none
    | some sleeper =>
      if s.clock < sleeper.wakeAt then none
      else
        some { s with
          sleeper := none
          lastRequest := some s.clock
          releases := s.releases ++ [⟨s.clock, sleeper.interval⟩] }
  | .abandon => if s.sleeper.isSome then some { s with sleeper := none } else none
  | .call c =>
    if s.sleeper.isSome then none else some { s with settings := L.call s.settings c }
  | .setEnabled enabled => some { s with settings := L.setEnabled s.settings enabled }

/-! ## Releases are apart -/

variable {S : Type} {L : Limiter S}

/-- The pause ends when the interval since the last request is over. -/
lemma add_pause {lastRequest : Option ℕ} {now : ℕ} (h : ∀ last ∈ lastRequest, last ≤ now)
    (minInterval : ℕ) :
    now + pause lastRequest minInterval now = wake lastRequest minInterval now := by
  cases lastRequest with
  | none => rfl
  | some last =>
    have hle := h last rfl
    simp only [pause, wake, Option.elim_some]
    split <;> omega

/-- Releases keep their distances, the last one is noted, and a thread that sleeps does so until the
distance from it is kept. -/
structure WaitState.Inv (s : WaitState S) : Prop where
  paced : Paced s.releases
  noted : s.lastRequest = s.releases.getLast?.map Stamp.time
  past : ∀ last ∈ s.lastRequest, last ≤ s.clock
  sleeper : ∀ p ∈ s.sleeper, p.wakeAt = wake s.lastRequest p.interval p.since

namespace WaitState

lemma inv_init (settings : S) : (init settings).Inv :=
  ⟨.nil, rfl, fun _ h => (nomatch h), fun _ h => (nomatch h)⟩

/-- A thread goes on when it wakes up, and not before the distance is kept. -/
lemma Inv.release {s : WaitState S} (h : s.Inv) {p : Sleeper} (hp : p ∈ s.sleeper)
    (hwake : p.wakeAt ≤ s.clock) :
    ({ s with
        sleeper := none
        lastRequest := some s.clock
        releases := s.releases ++ [⟨s.clock, p.interval⟩] } : WaitState S).Inv := by
  refine ⟨h.paced.concat (Nat.zero_le _) fun last hlast => ?_, by simp, fun last hlast => ?_,
    fun _ hnone => (nomatch hnone)⟩
  · have hnoted : last.time ∈ s.lastRequest := by
      rw [h.noted]
      exact Option.mem_map_of_mem _ hlast
    rw [h.sleeper p hp] at hwake
    exact (add_le_wake hnoted p.interval p.since).trans hwake
  · exact (Option.some.inj hlast).ge

/-- **Step lemma.** Releases stay apart.

**Proof sketch.** By the event. Only a release adds to the releases, and it comes after the pause
that was fixed when the lock was taken (`add_pause`), from the last release on. Time that passes
only grows, and calls that change the settings leave the pause of a sleeper as it is. -/
lemma Inv.step (s : WaitState S) (e : WaitEvent) (s' : WaitState S) (h : s.Inv)
    (hs : waitStep L s e = some s') : s'.Inv := by
  cases e with
  | elapse nanos =>
    obtain rfl := Option.some.inj hs
    exact ⟨h.paced, h.noted, fun last hlast => (h.past last hlast).trans (Nat.le_add_right _ _),
      h.sleeper⟩
  | ask =>
    rw [waitStep] at hs
    split at hs
    · obtain rfl := Option.some.inj hs
      exact ⟨h.paced, h.noted, h.past, h.sleeper⟩
    · obtain rfl := Option.some.inj hs
      exact ⟨h.paced, h.noted, h.past, h.sleeper⟩
  | lock =>
    rw [waitStep] at hs
    split at hs
    · cases hs
    · obtain rfl := Option.some.inj hs
      refine ⟨h.paced, h.noted, h.past, fun p hp => ?_⟩
      obtain rfl := Option.some.inj hp
      exact add_pause h.past _
  | release =>
    rw [waitStep] at hs
    cases hsleeper : s.sleeper with
    | none => rw [hsleeper] at hs; cases hs
    | some p =>
      simp only [hsleeper] at hs
      split at hs
      · cases hs
      · rename_i hwake
        obtain rfl := Option.some.inj hs
        exact h.release hsleeper (not_lt.mp hwake)
  | abandon =>
    rw [waitStep] at hs
    split at hs
    · obtain rfl := Option.some.inj hs
      exact ⟨h.paced, h.noted, h.past, fun _ hnone => (nomatch hnone)⟩
    · cases hs
  | call c =>
    rw [waitStep] at hs
    split at hs
    · cases hs
    · obtain rfl := Option.some.inj hs
      exact ⟨h.paced, h.noted, h.past, h.sleeper⟩
  | setEnabled enabled =>
    obtain rfl := Option.some.inj hs
    exact ⟨h.paced, h.noted, h.past, h.sleeper⟩

end WaitState

/-- How many waits that had the lock have ended within a window of time. A thread that finds the
limiter disabled does not take the lock, and is not among them. -/
def WaitState.releasedIn (s : WaitState S) (start length : ℕ) : ℕ :=
  (s.releases.filter fun r => start ≤ r.time ∧ r.time < start + length).length

/-- How many threads have found the limiter disabled within a window of time. -/
def WaitState.passedIn (s : WaitState S) (start length : ℕ) : ℕ :=
  (s.passes.filter fun time => start ≤ time ∧ time < start + length).length

/-- How many waits have ended within a window of time: as many requests may be sent. -/
def WaitState.requestsIn (s : WaitState S) (start length : ℕ) : ℕ :=
  s.releasedIn start length + s.passedIn start length

/-- **Waits that have the lock end apart**, for both limiters, any interleaving of threads that wait
and of changes of the settings, and any time that they take. If the intervals that the waits of a
window went by are at least `δ`, a window of length `n * δ` has at most `n` of them. A thread that
has the lock can go on when the interval since the last request is over, and no later. Waits that
found the limiter disabled do not count here.

**Proof sketch.** The lock is kept from the reading of the clock to the noting of the time, so that
the request that is noted is the last one all the while. -/
theorem releases_paced (settings : S) (L : Limiter S) (es : List WaitEvent) (s : WaitState S)
    (hrun : Transition.run (waitStep L) (.init settings) es = some s) :
    (∀ δ start n : ℕ, (∀ r ∈ s.releases, start ≤ r.time → r.time < start + n * δ → δ ≤ r.interval) →
        s.releasedIn start (n * δ) ≤ n) ∧
      ∀ p ∈ s.sleeper, p.wakeAt = wake s.lastRequest p.interval p.since := by
  have h := Transition.run_invariant WaitState.Inv.step (WaitState.inv_init settings) hrun
  exact ⟨fun δ start n hδ => h.paced.length_window_le start n hδ, h.sleeper⟩

/-- Two threads and a new limiter with an interval of 20 milliseconds. The second one gets the lock
5 milliseconds after the first one has gone on, and sleeps for what is left of the interval. -/
def twoWaits : List WaitEvent :=
  [.elapse 7, .ask, .lock, .ask, .release, .elapse (millis 5), .lock, .elapse (millis 15), .release]

/-- The limiter after the two waits. -/
def afterTwoWaits : WaitState RateLimiter where
  settings := .new 20
  lastRequest := some (7 + millis 20)
  asking := 0
  sleeper := none
  clock := 7 + millis 20
  releases := [⟨7, millis 20⟩, ⟨7 + millis 20, millis 20⟩]
  passes := []

lemma run_twoWaits :
    Transition.run (waitStep syncLimiter) (.init (.new 20)) twoWaits = some afterTwoWaits := by
  decide +kernel

theorem releases_paced_two : afterTwoWaits.releasedIn 0 (1 * millis 20) ≤ 1 := by
  have hpaced := (releases_paced (RateLimiter.new 20) syncLimiter twoWaits _ run_twoWaits).1
  refine hpaced (millis 20) 0 1 fun r hr _ _ => ?_
  obtain rfl | rfl := List.mem_pair.mp hr
  · exact le_rfl
  · exact le_rfl

/-! ## The cap on requests -/

/-- The event is no call, or one that `G` allows. -/
def WaitEvent.Calls (G : RateCall → Prop) : WaitEvent → Prop
  | .call c => G c
  | _ => True

/-- Intervals are at least `δ` as long as the settings are `P`. -/
structure WaitState.Slow (L : Limiter S) (P : S → Prop) (δ : ℕ) (s : WaitState S) : Prop where
  settings : P s.settings
  sleeper : ∀ p ∈ s.sleeper, δ ≤ p.interval
  releases : ∀ r ∈ s.releases, δ ≤ r.interval

/-- **Step lemma for intervals**: what holds of the settings after every call that is made gives a
bound for the intervals.

**Proof sketch.** By the event. The settings change by calls only, which keep what is assumed of
them; the interval of a sleeper is that of the settings when it took the lock, and the interval of a
release is that of its sleeper. -/
lemma WaitState.Slow.step {P : S → Prop} {G : RateCall → Prop} {δ : ℕ}
    (hmin : ∀ l, P l → δ ≤ L.minInterval l) (hcall : ∀ l c, P l → G c → P (L.call l c))
    (henabled : ∀ l b, P l → P (L.setEnabled l b)) (s : WaitState S) (e : WaitEvent)
    (s' : WaitState S) (h : s.Slow L P δ) (he : e.Calls G) (hs : waitStep L s e = some s') :
    s'.Slow L P δ := by
  cases e with
  | elapse nanos =>
    obtain rfl := Option.some.inj hs
    exact ⟨h.settings, h.sleeper, h.releases⟩
  | ask =>
    rw [waitStep] at hs
    split at hs
    · obtain rfl := Option.some.inj hs
      exact ⟨h.settings, h.sleeper, h.releases⟩
    · obtain rfl := Option.some.inj hs
      exact ⟨h.settings, h.sleeper, h.releases⟩
  | lock =>
    rw [waitStep] at hs
    split at hs
    · cases hs
    · obtain rfl := Option.some.inj hs
      refine ⟨h.settings, fun p hp => ?_, h.releases⟩
      obtain rfl := Option.some.inj hp
      exact hmin _ h.settings
  | release =>
    rw [waitStep] at hs
    cases hsleeper : s.sleeper with
    | none => rw [hsleeper] at hs; cases hs
    | some p =>
      simp only [hsleeper] at hs
      split at hs
      · cases hs
      · obtain rfl := Option.some.inj hs
        refine ⟨h.settings, fun _ hnone => (nomatch hnone), fun r hr => ?_⟩
        rcases List.mem_append.mp hr with hr | hr
        · exact h.releases r hr
        · obtain rfl := List.mem_singleton.mp hr
          exact h.sleeper p hsleeper
  | abandon =>
    rw [waitStep] at hs
    split at hs
    · obtain rfl := Option.some.inj hs
      exact ⟨h.settings, fun _ hnone => (nomatch hnone), h.releases⟩
    · cases hs
  | call c =>
    rw [waitStep] at hs
    split at hs
    · cases hs
    · obtain rfl := Option.some.inj hs
      exact ⟨hcall _ c h.settings he, h.sleeper, h.releases⟩
  | setEnabled enabled =>
    obtain rfl := Option.some.inj hs
    exact ⟨henabled _ enabled h.settings, h.sleeper, h.releases⟩

/-- The intervals of a run whose calls are allowed. -/
lemma WaitState.slow_run {P : S → Prop} {G : RateCall → Prop} {δ : ℕ}
    (hmin : ∀ l, P l → δ ≤ L.minInterval l) (hcall : ∀ l c, P l → G c → P (L.call l c))
    (henabled : ∀ l b, P l → P (L.setEnabled l b)) {settings : S} (hinit : P settings)
    {es : List WaitEvent} (hes : ∀ e ∈ es, e.Calls G) {s : WaitState S}
    (hrun : Transition.run (waitStep L) (.init settings) es = some s) : s.Slow L P δ := by
  have hstart : (WaitState.init settings).Slow L P δ :=
    ⟨hinit, fun _ h => (nomatch h), fun _ h => (nomatch h)⟩
  exact Transition.run_invariant_of_guarded (WaitState.Slow.step hmin hcall henabled) hstart
    (Transition.guarded_of_forall hes _) hrun

/-- The capped rate has an interval of at least five milliseconds. -/
lemma five_le_div {rps : ℕ} (h : 0 < rps) : 5 ≤ 1000 / min rps maxRateLimit := by
  rw [Nat.le_div_iff_mul_le (lt_min h (by decide))]
  have := min_le_right rps maxRateLimit
  unfold maxRateLimit at *
  omega

/-- A synchronous limiter in the trading phase that keeps to the cap. -/
structure RateLimiter.Capped (l : RateLimiter) : Prop where
  phase : l.phase = .trading
  base : 5 ≤ l.baseInterval
  interval : 5 ≤ l.minInterval

/-- The trading phase leaves an interval as long as it is, up to what is lost in a double.

**Proof sketch.** Below `2 ^ 53` a double holds the interval exactly. Above, it holds the leading 53
bits, rounded up or down, which are far more than five, and the multiplier of this phase is one. -/
lemma five_le_adjusted {base : ℕ} (h : 5 ≤ base) : 5 ≤ adjustedInterval base .trading := by
  have hdouble : 5 ≤ toF64 base := by
    rcases Nat.lt_or_ge base (2 ^ 53) with hsmall | hlarge
    · rwa [toF64_of_lt hsmall]
    · have hquotient : 2 ^ 52 ≤ base / 2 ^ (base.log2 - 52) := by
        rw [Nat.le_div_iff_mul_le (Nat.two_pow_pos _), ← pow_add]
        have hlog : 53 ≤ base.log2 := (Nat.le_log2 (by omega)).mpr hlarge
        rw [show 52 + (base.log2 - 52) = base.log2 by omega]
        exact Nat.log2_self_le (by omega)
      have hone := Nat.one_le_two_pow (n := base.log2 - 52)
      unfold toF64
      dsimp only
      split
      · exact le_mul_of_le_of_one_le (by omega) hone
      · exact le_mul_of_le_of_one_le (by omega) hone
  rw [adjustedInterval, TradingPhase.multiplier, Nat.div_one]
  omega

/-- Calls that set the trading phase only keep the limiter to the cap.

**Proof sketch.** A rate is capped at 200, so that the interval is at least five milliseconds
(`five_le_div`); the only phase that is set leaves it so (`five_le_adjusted`). -/
lemma RateLimiter.Capped.call {l : RateLimiter} (h : l.Capped) {c : RateCall}
    (hc : ∀ phase, c = .setPhase phase → phase = .trading) : (l.call c).Capped := by
  cases c with
  | setRps rps =>
    rw [RateLimiter.call, RateLimiter.setRps]
    split
    · exact ⟨h.phase, h.base, h.interval⟩
    · rename_i hrps
      have hpos : 0 < rps.toNat := Nat.pos_of_ne_zero fun h0 => hrps (UInt32.toNat_inj.mp h0)
      have hbase := five_le_div hpos
      refine ⟨h.phase, hbase, ?_⟩
      simp only [h.phase]
      exact five_le_adjusted hbase
  | setPhase phase =>
    obtain rfl := hc phase rfl
    exact ⟨rfl, h.base, five_le_adjusted h.base⟩

/-- An asynchronous client that keeps to the cap. -/
structure AsyncRates.Capped (c : AsyncRates) : Prop where
  rate : c.baseRps ≠ 0
  interval : 5 ≤ c.rateLimiter.minInterval

lemma AsyncRateLimiter.five_le_setRps (l : AsyncRateLimiter) {rps : UInt32} (h : rps ≠ 0) :
    5 ≤ (l.setRps rps).minInterval := by
  rw [setRps, if_neg h]
  exact five_le_div (Nat.pos_of_ne_zero fun h0 => h (UInt32.toNat_inj.mp h0))

/-- Calls that do not set a rate of zero keep the client to the cap, in every phase.

**Proof sketch.** A rate other than zero has an interval of at least five milliseconds. Setting the
phase multiplies a rate that is not zero, and the product is capped, not wrapped around, so it is
not zero either. -/
lemma AsyncRates.Capped.call {c : AsyncRates} (h : c.Capped) {k : RateCall}
    (hk : k ≠ .setRps 0) : (c.call k).Capped := by
  cases k with
  | setRps rps =>
    have hrps : rps ≠ 0 := fun h0 => hk (h0 ▸ rfl)
    exact ⟨hrps, c.rateLimiter.five_le_setRps hrps⟩
  | setPhase phase =>
    refine ⟨h.rate, c.rateLimiter.five_le_setRps fun h0 => ?_⟩
    have hcap := min_saturated c.baseRps phase
    rw [h0, UInt32.toNat_zero] at hcap
    have hpos := Nat.mul_pos (Nat.pos_of_ne_zero fun h0 => h.rate (UInt32.toNat_inj.mp h0))
      phase.multiplier_pos
    omega

/-- Nobody has found the limiter disabled, and it is enabled. -/
structure WaitState.Unpassed (L : Limiter S) (s : WaitState S) : Prop where
  enabled : L.enabled s.settings = true
  passes : s.passes = []

/-- **Step lemma for an enabled limiter**: what is allowed leaves it enabled, so that nobody gets
past it.

**Proof sketch.** By the event. Somebody gets past the limiter only by asking while it is not
enabled, and what changes the settings is allowed only if it leaves it enabled. -/
lemma WaitState.Unpassed.step {G : WaitEvent → Prop}
    (hcall : ∀ l c, L.enabled l = true → G (.call c) → L.enabled (L.call l c) = true)
    (henabled : ∀ l b, L.enabled l = true → G (.setEnabled b) →
      L.enabled (L.setEnabled l b) = true)
    (s : WaitState S) (e : WaitEvent) (s' : WaitState S) (h : s.Unpassed L) (he : G e)
    (hs : waitStep L s e = some s') : s'.Unpassed L := by
  cases e with
  | elapse nanos =>
    obtain rfl := Option.some.inj hs
    exact ⟨h.enabled, h.passes⟩
  | ask =>
    rw [waitStep, h.enabled] at hs
    obtain rfl := Option.some.inj hs
    exact ⟨h.enabled, h.passes⟩
  | lock =>
    rw [waitStep] at hs
    split at hs
    · cases hs
    · obtain rfl := Option.some.inj hs
      exact ⟨h.enabled, h.passes⟩
  | release =>
    rw [waitStep] at hs
    cases hsleeper : s.sleeper with
    | none => rw [hsleeper] at hs; cases hs
    | some p =>
      simp only [hsleeper] at hs
      split at hs
      · cases hs
      · obtain rfl := Option.some.inj hs
        exact ⟨h.enabled, h.passes⟩
  | abandon =>
    rw [waitStep] at hs
    split at hs
    · obtain rfl := Option.some.inj hs
      exact ⟨h.enabled, h.passes⟩
    · cases hs
  | call c =>
    rw [waitStep] at hs
    split at hs
    · cases hs
    · obtain rfl := Option.some.inj hs
      exact ⟨hcall _ c h.enabled he, h.passes⟩
  | setEnabled enabled =>
    obtain rfl := Option.some.inj hs
    exact ⟨henabled _ enabled h.enabled he, h.passes⟩

/-- Nobody gets past a limiter that is enabled throughout a run. -/
lemma WaitState.passes_run {G : WaitEvent → Prop}
    (hcall : ∀ l c, L.enabled l = true → G (.call c) → L.enabled (L.call l c) = true)
    (henabled : ∀ l b, L.enabled l = true → G (.setEnabled b) →
      L.enabled (L.setEnabled l b) = true)
    {settings : S} (hinit : L.enabled settings = true) {es : List WaitEvent}
    (hes : ∀ e ∈ es, G e) {s : WaitState S}
    (hrun : Transition.run (waitStep L) (.init settings) es = some s) : s.passes = [] :=
  (Transition.run_invariant_of_guarded (WaitState.Unpassed.step hcall henabled)
    (⟨hinit, rfl⟩ : (WaitState.init settings).Unpassed L)
    (Transition.guarded_of_forall hes _) hrun).passes

/-- A synchronous limiter is disabled by a rate of zero only, other than directly. -/
lemma RateLimiter.enabled_call {l : RateLimiter} (h : l.enabled = true) {c : RateCall}
    (hc : c ≠ .setRps 0) : (l.call c).enabled = true := by
  cases c with
  | setRps rps =>
    have hrps : rps ≠ 0 := fun h0 => hc (h0 ▸ rfl)
    rw [RateLimiter.call, RateLimiter.setRps, if_neg hrps]
  | setPhase phase => exact h

/-- Requests in a window in which nobody has found the limiter disabled. -/
lemma WaitState.requestsIn_of_passedIn {s : WaitState S} {start length : ℕ}
    (h : s.passedIn start length = 0) :
    s.requestsIn start length = s.releasedIn start length := by
  rw [requestsIn, h, Nat.add_zero]

lemma WaitState.passedIn_of_nil {s : WaitState S} (h : s.passes = []) (start length : ℕ) :
    s.passedIn start length = 0 := by
  rw [passedIn, h]
  rfl

/-- **The cap of 200 requests per second**: a window of `5 * n` milliseconds has at most `n`
requests. For a synchronous limiter that begins with at least five milliseconds and is in the
trading phase all the time, this holds of every window in which nobody has found it disabled,
whatever rates are set and however it is enabled and disabled otherwise; and of every window, if it
is never disabled, be it directly or by the rate zero. For an asynchronous client, which cannot be
disabled, it holds of every window in every phase, as long as its rate is not set to zero.

**Proof sketch.** The settings that these calls lead to have an interval of at least five
milliseconds, so that every wait that had the lock went by such an interval, and these keep their
distances. The other requests are those of threads that found the limiter disabled. -/
theorem rate_cap_kept :
    (∀ (ms : ℕ) (es : List WaitEvent) (s : WaitState RateLimiter), 5 ≤ ms →
      (∀ phase, .call (.setPhase phase) ∈ es → phase = .trading) →
      Transition.run (waitStep syncLimiter) (.init (.new ms)) es = some s →
      (∀ start n, s.passedIn start (n * millis 5) = 0 → s.requestsIn start (n * millis 5) ≤ n) ∧
        (.setEnabled false ∉ es → .call (.setRps 0) ∉ es →
          ∀ start n, s.requestsIn start (n * millis 5) ≤ n)) ∧
    ∀ (es : List WaitEvent) (s : WaitState AsyncRates), .call (.setRps 0) ∉ es →
      Transition.run (waitStep asyncLimiter) (.init .new) es = some s →
      ∀ start n, s.requestsIn start (n * millis 5) ≤ n := by
  have hmillis {ms : ℕ} (h : 5 ≤ ms) : millis 5 ≤ millis ms := Nat.mul_le_mul_right _ h
  constructor
  · intro ms es s hms hes hrun
    have hcalls : ∀ e ∈ es, e.Calls fun c => ∀ phase, c = .setPhase phase → phase = .trading := by
      intro e he
      cases e with
      | call c => exact fun phase hphase => hes phase (hphase ▸ he)
      | _ => trivial
    have hslow : s.Slow syncLimiter RateLimiter.Capped (millis 5) :=
      WaitState.slow_run (fun _ h => hmillis h.interval) (fun _ _ h hc => h.call hc)
        (fun _ _ h => ⟨h.phase, h.base, h.interval⟩) ⟨rfl, hms, hms⟩ hcalls hrun
    have hpaced := Transition.run_invariant WaitState.Inv.step (WaitState.inv_init _) hrun
    have hwindow : ∀ start n, s.passedIn start (n * millis 5) = 0 →
        s.requestsIn start (n * millis 5) ≤ n := fun start n hpassed => by
      rw [WaitState.requestsIn_of_passedIn hpassed]
      exact hpaced.paced.length_window_le start n fun r hr _ _ => hslow.releases r hr
    refine ⟨hwindow, fun hdisable hzero start n => hwindow start n ?_⟩
    refine WaitState.passedIn_of_nil (WaitState.passes_run
      (G := fun e => e ≠ .setEnabled false ∧ e ≠ .call (.setRps 0))
      (fun _ _ h hc => RateLimiter.enabled_call h fun h0 => hc.2 (congrArg WaitEvent.call h0))
      (fun _ b _ hb => ?_) (by simp [syncLimiter, RateLimiter.new]; omega)
      (fun e he => ⟨fun h0 => hdisable (h0 ▸ he), fun h0 => hzero (h0 ▸ he)⟩) hrun) _ _
    cases b with
    | true => rfl
    | false => exact absurd rfl hb.1
  · intro es s hes hrun start n
    have hcalls : ∀ e ∈ es, e.Calls fun c => c ≠ .setRps 0 := by
      intro e he
      cases e with
      | call c => exact fun hc => hes (hc ▸ he)
      | _ => trivial
    have hslow : s.Slow asyncLimiter AsyncRates.Capped (millis 5) :=
      WaitState.slow_run (fun _ h => hmillis h.interval) (fun _ _ h hc => h.call hc)
        (fun _ _ h => h) ⟨by decide, by decide⟩ hcalls hrun
    have hpaced := Transition.run_invariant WaitState.Inv.step (WaitState.inv_init _) hrun
    have hpasses : s.passes = [] := WaitState.passes_run (G := fun _ => True) (fun _ _ _ _ => rfl)
      (fun _ _ _ _ => rfl) rfl (fun _ _ => trivial) hrun
    rw [WaitState.requestsIn_of_passedIn (WaitState.passedIn_of_nil hpasses _ _)]
    exact hpaced.paced.length_window_le start n fun r hr _ _ => hslow.releases r hr

/-- A limiter of 20 milliseconds that is disabled for one request and enabled again. -/
def disabledOnce : List WaitEvent :=
  [.setEnabled false, .ask, .elapse 7, .setEnabled true, .ask, .lock, .ask, .release,
    .elapse (millis 20), .lock, .release]

/-- The limiter after the three requests. -/
def afterDisabledOnce : WaitState RateLimiter where
  settings := .new 20
  lastRequest := some (7 + millis 20)
  asking := 0
  sleeper := none
  clock := 7 + millis 20
  releases := [⟨7, millis 20⟩, ⟨7 + millis 20, millis 20⟩]
  passes := [0]

/-- The two waits of a limiter with 20 milliseconds, and a window after a request that found it
disabled. -/
theorem rate_cap_kept_two : afterTwoWaits.requestsIn 7 (1 * millis 5) ≤ 1 ∧
    afterDisabledOnce.requestsIn 7 (2 * millis 5) ≤ 2 :=
  ⟨(rate_cap_kept.1 20 twoWaits afterTwoWaits (by decide)
      (fun phase h => absurd h (by cases phase <;> decide)) run_twoWaits).2 (by decide) (by decide)
      7 1,
    (rate_cap_kept.1 20 disabledOnce afterDisabledOnce (by decide)
      (fun phase h => absurd h (by cases phase <;> decide)) (by decide +kernel)).1 7 2
      (by decide +kernel)⟩

end Tdxrs
