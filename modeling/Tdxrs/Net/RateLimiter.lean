import Mathlib.Algebra.Order.Group.Nat
import Mathlib.Order.MinMax
import Mathlib.Tactic.NormNum

set_option relaxedAutoImplicit false
set_option autoImplicit false

/-!
# Rate limits

The limiter of `src/net/utils.rs`, which the synchronous client has three of, and the one that the
asynchronous client of `src/net/async_client.rs` has. Both keep a least interval between requests,
which follows from the rate that was set last and the trading phase that was set last. The
synchronous limiter caps the rate and then divides the interval for the phase, the asynchronous one
multiplies the rate for the phase and then caps it. What they should have in common is that the cap
of 200 requests per second and the rate that was asked for are never exceeded.

## Main definitions

* `Tdxrs.RateLimiter` — the synchronous limiter, with `setRps` and `setPhase`.
* `Tdxrs.AsyncRates` — the rate and the limiter of the asynchronous client.
* `Tdxrs.Asked` — what a sequence of calls has asked for.
* `Tdxrs.RateCap` — the interval keeps to the cap and to the rate.

## Main results

* `Tdxrs.RateLimiter.follows_run`, `Tdxrs.AsyncRates.follows_run` — the interval after any sequence
  of calls.
* `Tdxrs.RateLimiter.rateCap_iff` — when the synchronous limiter keeps to the cap.
* `Tdxrs.rate_cap_iff` — when both do and agree.
-/

namespace Tdxrs

/-! ## Trading phases and the arithmetic of intervals -/

/-- The phases of a trading day. -/
inductive TradingPhase where
  | trading
  | prePost
  | closed
deriving DecidableEq, Repr

/-- How much the rate is raised in a phase: the first column of `PHASE_MULTIPLIER`, which is the one
that both limiters use. -/
def TradingPhase.multiplier : TradingPhase → ℕ
  | .trading => 1
  | .prePost => 2
  | .closed => 4

/-- The highest rate, in requests per second. -/
def maxRateLimit : ℕ := 200

/-- A natural number as a double: the 53 highest bits, rounded half to even. -/
def toF64 (n : ℕ) : ℕ :=
  let e := n.log2 - 52
  let q := n / 2 ^ e
  let r := n % 2 ^ e
  if 2 ^ e < 2 * r ∨ (2 ^ e = 2 * r ∧ q % 2 = 1) then (q + 1) * 2 ^ e else q * 2 ^ e

/-- The interval in milliseconds for a phase, at least one: `(base as f64 / mult) as u64`. A
division by a power of two is exact, and the conversion to `u64` drops the fraction and
saturates. -/
def adjustedInterval (base : ℕ) (phase : TradingPhase) : ℕ :=
  max (min (toF64 base / phase.multiplier) (2 ^ 64 - 1)) 1

/-- Small numbers are doubles. -/
lemma toF64_of_lt {n : ℕ} (h : n < 2 ^ 53) : toF64 n = n := by
  have hexp : n.log2 - 52 = 0 := by
    rcases Nat.eq_zero_or_pos n with rfl | hpos
    · rfl
    · have := (Nat.log2_lt hpos.ne').mpr h
      omega
  simp [toF64, hexp, Nat.mod_one]

lemma TradingPhase.multiplier_pos (phase : TradingPhase) : 0 < phase.multiplier := by
  cases phase <;> decide

lemma TradingPhase.multiplier_eq_one (phase : TradingPhase) :
    phase.multiplier = 1 ↔ phase = .trading := by
  cases phase <;> decide

/-- Short intervals are divided without loss. -/
lemma adjustedInterval_of_le {base : ℕ} (h : base ≤ 1000) (phase : TradingPhase) :
    adjustedInterval base phase = max (base / phase.multiplier) 1 := by
  have hle : base / phase.multiplier ≤ base := Nat.div_le_self _ _
  rw [adjustedInterval, toF64_of_lt (by omega), min_eq_left (by omega)]

/-! ## The synchronous limiter -/

/-- The settings of a `RateLimiter`. Intervals are in milliseconds. -/
structure RateLimiter where
  enabled : Bool
  baseInterval : ℕ
  minInterval : ℕ
  phase : TradingPhase
deriving DecidableEq, Repr

namespace RateLimiter

/-- A limiter with an interval, disabled if the interval is zero. -/
def new (minIntervalMs : ℕ) : RateLimiter where
  enabled := 0 < minIntervalMs
  baseInterval := minIntervalMs
  minInterval := minIntervalMs
  phase := .trading

/-- Sets the requests per second. Zero disables the limiter and leaves its intervals as they are. -/
def setRps (l : RateLimiter) (rps : UInt32) : RateLimiter :=
  if rps = 0 then { l with enabled := false }
  else
    let capped := min rps.toNat maxRateLimit
    let baseInterval := 1000 / capped
    { l with
      baseInterval
      minInterval := adjustedInterval baseInterval l.phase
      enabled := true }

/-- Sets the trading phase. -/
def setPhase (l : RateLimiter) (phase : TradingPhase) : RateLimiter :=
  { l with minInterval := adjustedInterval l.baseInterval phase, phase }

end RateLimiter

/-! ## The asynchronous limiter -/

/-- The settings of an `AsyncRateLimiter`. -/
structure AsyncRateLimiter where
  minInterval : ℕ
deriving DecidableEq, Repr

/-- Sets the requests per second. Zero stands for no interval. -/
def AsyncRateLimiter.setRps (l : AsyncRateLimiter) (rps : UInt32) : AsyncRateLimiter :=
  if rps = 0 then { l with minInterval := 0 }
  else
    let capped := min rps.toNat 200
    { l with minInterval := 1000 / capped }

/-- The fields of `AsyncTdxHqClient` that its rate depends on. -/
structure AsyncRates where
  baseRps : UInt32
  rateLimiter : AsyncRateLimiter
deriving DecidableEq, Repr

namespace AsyncRates

/-- A new client. -/
def new : AsyncRates := ⟨20, ⟨20⟩⟩

/-- Sets the base rate, without regard to the phase. -/
def setRateLimit (c : AsyncRates) (rps : UInt32) : AsyncRates where
  baseRps := rps
  rateLimiter := c.rateLimiter.setRps rps

/-- Sets the trading phase: the base rate is multiplied as a double and converted back, which
saturates. -/
def setPhase (c : AsyncRates) (phase : TradingPhase) : AsyncRates :=
  let rps := UInt32.ofNat (min (toF64 c.baseRps.toNat * phase.multiplier) (2 ^ 32 - 1))
  { c with rateLimiter := c.rateLimiter.setRps rps }

end AsyncRates

/-! ## Sequences of calls -/

/-- A call that changes the settings of a limiter. -/
inductive RateCall where
  | setRps (rps : UInt32)
  | setPhase (phase : TradingPhase)
deriving DecidableEq, Repr

/-- A call on the synchronous limiter. -/
def RateLimiter.call (l : RateLimiter) : RateCall → RateLimiter
  | .setRps rps => l.setRps rps
  | .setPhase phase => l.setPhase phase

/-- The synchronous limiter after calls, from a new one. -/
def RateLimiter.run (minIntervalMs : ℕ) (calls : List RateCall) : RateLimiter :=
  calls.foldl call (new minIntervalMs)

/-- A call on the asynchronous client. -/
def AsyncRates.call (c : AsyncRates) : RateCall → AsyncRates
  | .setRps rps => c.setRateLimit rps
  | .setPhase phase => c.setPhase phase

/-- The asynchronous client after calls, from a new one. -/
def AsyncRates.run (calls : List RateCall) : AsyncRates := calls.foldl call new

/-- What calls have asked for: the rate and the phase set last, and whether the phase was set after
the rate. -/
structure Asked where
  rps : Option UInt32
  phase : TradingPhase
  phaseLast : Bool
deriving DecidableEq, Repr

/-- One more call. -/
def Asked.call (a : Asked) : RateCall → Asked
  | .setRps rps => { a with rps := some rps, phaseLast := false }
  | .setPhase phase => { a with phase, phaseLast := true }

/-- What a sequence of calls has asked for. -/
def asked (calls : List RateCall) : Asked := calls.foldl Asked.call ⟨none, .trading, false⟩

/-- The interval keeps to the cap of 200 requests per second, which makes five milliseconds, and to
the rate that was asked for in the phase. -/
def RateCap (rps : UInt32) (phase : TradingPhase) (interval : ℕ) : Prop :=
  5 ≤ interval ∧ 1000 ≤ interval * (min rps.toNat maxRateLimit * phase.multiplier)

instance (rps : UInt32) (phase : TradingPhase) (interval : ℕ) :
    Decidable (RateCap rps phase interval) := inferInstanceAs (Decidable (_ ∧ _))

/-! ## The interval after calls -/

/-- The synchronous limiter has the settings that were asked for. -/
structure RateLimiter.Follows (l : RateLimiter) (a : Asked) : Prop where
  phase : l.phase = a.phase
  enabled : ∀ rps ∈ a.rps, (l.enabled = true ↔ rps ≠ 0)
  base : ∀ rps ∈ a.rps, rps ≠ 0 → l.baseInterval = 1000 / min rps.toNat maxRateLimit
  interval : ∀ rps ∈ a.rps, rps ≠ 0 → l.minInterval = adjustedInterval l.baseInterval a.phase

/-- The asynchronous limiter has the settings that were asked for, without the phase unless that was
set after the rate. -/
structure AsyncRates.Follows (c : AsyncRates) (a : Asked) : Prop where
  base : ∀ rps ∈ a.rps, c.baseRps = rps
  interval : ∀ rps ∈ a.rps, rps ≠ 0 → c.rateLimiter.minInterval =
    1000 / min (if a.phaseLast then rps.toNat * a.phase.multiplier else rps.toNat) maxRateLimit

/-- One call on the synchronous limiter. -/
lemma RateLimiter.Follows.call {l : RateLimiter} {a : Asked} (h : l.Follows a) (c : RateCall) :
    (l.call c).Follows (a.call c) := by
  cases c with
  | setRps rps =>
    by_cases hrps : rps = 0
    · simp only [RateLimiter.call, setRps, if_pos hrps, Asked.call]
      constructor <;> simp [h.phase, hrps]
    · simp only [RateLimiter.call, setRps, if_neg hrps, Asked.call]
      constructor <;> simp [h.phase, hrps]
  | setPhase phase =>
    exact ⟨rfl, h.enabled, h.base, fun _ _ _ => rfl⟩

/-- The rate for a phase, as far as the cap is concerned. -/
lemma min_saturated (rps : UInt32) (phase : TradingPhase) :
    min (UInt32.ofNat (min (toF64 rps.toNat * phase.multiplier) (2 ^ 32 - 1))).toNat 200 =
      min (rps.toNat * phase.multiplier) 200 := by
  have hlt := rps.toNat_lt
  have hofNat : ∀ n < 2 ^ 32, (UInt32.ofNat n).toNat = n := fun n hn => by
    rw [UInt32.toNat_ofNat']
    exact Nat.mod_eq_of_lt hn
  rw [toF64_of_lt (by omega), hofNat _ (by omega)]
  omega

/-- One call on the asynchronous client.

**Proof sketch.** Setting the rate sets the rate that was asked for and the interval of it, up to
the cap. Setting the phase takes the rate that was kept, times the multiplier, which is above zero
and whose saturation at `2 ^ 32` is far above the cap (`min_saturated`). -/
lemma AsyncRates.Follows.call {c : AsyncRates} {a : Asked} (h : c.Follows a) (k : RateCall) :
    (c.call k).Follows (a.call k) := by
  cases k with
  | setRps rps =>
    refine ⟨fun _ hr => Option.mem_some_iff.mp hr, fun r hr hne => ?_⟩
    obtain rfl := Option.mem_some_iff.mp hr
    simp [AsyncRates.call, setRateLimit, AsyncRateLimiter.setRps, if_neg hne, Asked.call,
      maxRateLimit]
  | setPhase phase =>
    refine ⟨h.base, fun rps hr hne => ?_⟩
    have hbase := h.base rps hr
    have hcap := min_saturated rps phase
    have hpos : 0 < rps.toNat * phase.multiplier :=
      Nat.mul_pos (Nat.pos_of_ne_zero fun h0 => hne (UInt32.toNat_inj.mp h0)) phase.multiplier_pos
    have hzero : UInt32.ofNat (min (toF64 rps.toNat * phase.multiplier) (2 ^ 32 - 1)) ≠ 0 := by
      intro h0
      rw [h0, UInt32.toNat_zero] at hcap
      omega
    simp only [AsyncRates.call, setPhase, AsyncRateLimiter.setRps, hbase, if_neg hzero, hcap,
      Asked.call, if_true, maxRateLimit]

/-- **The synchronous limiter after any sequence of calls.** -/
lemma RateLimiter.follows_run (ms : ℕ) (calls : List RateCall) :
    (RateLimiter.run ms calls).Follows (asked calls) := by
  have hnew : (RateLimiter.new ms).Follows ⟨none, .trading, false⟩ := by
    constructor <;> simp [new]
  exact List.foldl_rel hnew fun c _ _ _ h => h.call c

/-- **The asynchronous client after any sequence of calls.** -/
lemma AsyncRates.follows_run (calls : List RateCall) :
    (AsyncRates.run calls).Follows (asked calls) := by
  have hnew : AsyncRates.new.Follows ⟨none, .trading, false⟩ := by
    constructor <;> simp
  exact List.foldl_rel hnew fun k _ _ _ h => h.call k

/-! ## When the limiters keep to the cap -/

/-- A whole number of milliseconds keeps to a rate of `n` and to the cap only if it is the exact
interval of that rate.

**Proof sketch.** The quotient rounds down, so a rate that it keeps to is divided without a
remainder; and five milliseconds are the interval of 200 requests. -/
lemma interval_iff {n : ℕ} (hn : 0 < n) :
    5 ≤ max (1000 / n) 1 ∧ 1000 ≤ max (1000 / n) 1 * n ↔ n ≤ 200 ∧ n ∣ 1000 := by
  have hle : 5 ≤ 1000 / n ↔ n ≤ 200 := by
    rw [Nat.le_div_iff_mul_le hn]
    omega
  constructor
  · rintro ⟨hcap, hrate⟩
    have hfive : 5 ≤ 1000 / n := by omega
    rw [max_eq_left (by omega)] at hrate
    exact ⟨hle.mp hfive, Dvd.intro_left _ (le_antisymm (Nat.div_mul_le_self _ _) hrate)⟩
  · rintro ⟨hsmall, hdvd⟩
    have hfive := hle.mpr hsmall
    rw [max_eq_left (by omega), Nat.div_mul_cancel hdvd]
    exact ⟨hfive, le_rfl⟩

/-- **When the synchronous limiter keeps to the cap**: in every state in which `setRps` has enabled
it, exactly if the capped rate times the multiplier of the phase is at most 200 and divides the
milliseconds of a second. -/
theorem RateLimiter.rateCap_iff (ms : ℕ) (calls : List RateCall) {rps : UInt32}
    (hrps : (asked calls).rps = some rps) (henabled : (RateLimiter.run ms calls).enabled = true) :
    RateCap rps (asked calls).phase (RateLimiter.run ms calls).minInterval ↔
      min rps.toNat maxRateLimit * (asked calls).phase.multiplier ≤ maxRateLimit ∧
        min rps.toNat maxRateLimit * (asked calls).phase.multiplier ∣ 1000 := by
  have hfollows := RateLimiter.follows_run ms calls
  have hne := (hfollows.enabled rps hrps).mp henabled
  have hpos : 0 < min rps.toNat maxRateLimit :=
    lt_min (Nat.pos_of_ne_zero fun h0 => hne (UInt32.toNat_inj.mp h0)) (by decide)
  rw [RateCap, hfollows.interval rps hrps hne, hfollows.base rps hrps hne,
    adjustedInterval_of_le (Nat.div_le_self _ _), Nat.div_div_eq_div_mul]
  exact interval_iff (Nat.mul_pos hpos (asked calls).phase.multiplier_pos)

/-- In a phase that multiplies the rate the interval is shorter than the one of the base rate, as
that is at least five milliseconds long.

**Proof sketch.** Multiplying the rate by at least two halves the interval at least, and the half of
five or more milliseconds, rounded down, is less; one millisecond is less as well. -/
lemma interval_lt {r : ℕ} (hr : 0 < r) {phase : TradingPhase} (hphase : phase ≠ .trading) :
    max (1000 / (min r maxRateLimit * phase.multiplier)) 1 < 1000 / min r maxRateLimit := by
  have htwo : 2 ≤ phase.multiplier := by
    have := phase.multiplier_pos
    have := mt phase.multiplier_eq_one.mp hphase
    omega
  have hfive : 5 ≤ 1000 / min r maxRateLimit := by
    rw [Nat.le_div_iff_mul_le (lt_min hr (by decide))]
    have := min_le_right r maxRateLimit
    unfold maxRateLimit at *
    omega
  have hhalf : 1000 / min r maxRateLimit / phase.multiplier ≤ 1000 / min r maxRateLimit / 2 :=
    Nat.div_le_div_left htwo (by decide)
  rw [← Nat.div_div_eq_div_mul]
  omega

/-- A rate that is below the cap when it is capped before it is multiplied is multiplied in full.

**Proof sketch.** By whether the rate is above the cap. If it is, then the cap multiplied by two or
more would be at most the cap. -/
lemma min_mul_multiplier {r : ℕ} {phase : TradingPhase}
    (h : min r maxRateLimit * phase.multiplier ≤ maxRateLimit) :
    min (r * phase.multiplier) maxRateLimit = min r maxRateLimit * phase.multiplier := by
  by_cases hone : phase.multiplier = 1
  · simp only [hone, mul_one]
  · have htwo : 2 ≤ phase.multiplier := by
      have := phase.multiplier_pos
      omega
    rcases le_total r maxRateLimit with hle | hge
    · rw [min_eq_left hle] at h ⊢
      exact min_eq_left h
    · -- the cap itself is not multiplied
      rw [min_eq_right hge] at h
      have := Nat.mul_le_mul_left maxRateLimit htwo
      unfold maxRateLimit at *
      omega

/-- **The rate cap**, for any calls on a synchronous limiter and any calls on an asynchronous client
that leave both with one rate and one phase: both keep to the cap and the rate and have one interval
exactly if the capped rate times the multiplier is at most 200 and divides 1000, and the phase is
the one that multiplies by one or was set on the asynchronous client after the rate.

**Proof sketch.** Both limiters follow what was asked of them, so their intervals are known
(`RateLimiter.follows_run`, `AsyncRates.follows_run`). The synchronous one keeps to the rate exactly
if the division leaves no remainder and the cap is kept (`RateLimiter.rateCap_iff`). The
asynchronous one divides by the multiplied rate only if the phase was set after the rate; otherwise
its interval is longer, unless the multiplier is one (`interval_lt`). -/
theorem rate_cap_iff (ms : ℕ) (calls asyncCalls : List RateCall) (rps : UInt32)
    (phase : TradingPhase) (hrps : (asked calls).rps = some rps)
    (henabled : (RateLimiter.run ms calls).enabled = true) (hphase : (asked calls).phase = phase)
    (hasyncRps : (asked asyncCalls).rps = some rps)
    (hasyncPhase : (asked asyncCalls).phase = phase) :
    (RateCap rps phase (RateLimiter.run ms calls).minInterval ∧
        RateCap rps phase (AsyncRates.run asyncCalls).rateLimiter.minInterval ∧
        (RateLimiter.run ms calls).minInterval =
          (AsyncRates.run asyncCalls).rateLimiter.minInterval) ↔
      (min rps.toNat maxRateLimit * phase.multiplier ≤ maxRateLimit ∧
        min rps.toNat maxRateLimit * phase.multiplier ∣ 1000) ∧
        (phase = .trading ∨ (asked asyncCalls).phaseLast = true) := by
  have hsync := RateLimiter.rateCap_iff ms calls hrps henabled
  have hfollows := RateLimiter.follows_run ms calls
  have hne := (hfollows.enabled rps hrps).mp henabled
  have hinterval := hfollows.interval rps hrps hne
  rw [hfollows.base rps hrps hne, adjustedInterval_of_le (Nat.div_le_self _ _),
    Nat.div_div_eq_div_mul] at hinterval
  have hasync := (AsyncRates.follows_run asyncCalls).interval rps hasyncRps hne
  rw [hphase] at hsync hinterval
  rw [hasyncPhase] at hasync
  rw [hsync]
  refine and_congr_right fun hcap => ?_
  have hpos : 0 < rps.toNat := Nat.pos_of_ne_zero fun h0 => hne (UInt32.toNat_inj.mp h0)
  constructor
  · rintro ⟨-, hequal⟩
    by_contra hneither
    rw [not_or, Bool.not_eq_true] at hneither
    obtain ⟨hphaseNe, hlast⟩ := hneither
    rw [hinterval, hasync, hlast, if_neg Bool.false_ne_true] at hequal
    exact (interval_lt hpos hphaseNe).ne hequal
  · intro hlast
    have hrate : (if (asked asyncCalls).phaseLast then rps.toNat * phase.multiplier
        else rps.toNat) = rps.toNat * phase.multiplier := by
      rcases hlast with rfl | hlast
      · simp [TradingPhase.multiplier]
      · rw [if_pos hlast]
    rw [hrate, min_mul_multiplier hcap.1] at hasync
    have hfive := (interval_iff (Nat.mul_pos (lt_min hpos (by decide))
      phase.multiplier_pos)).mpr hcap
    rw [max_eq_left (by omega)] at hinterval
    have hequal := hinterval.trans hasync.symm
    exact ⟨hequal ▸ hsync.mpr hcap, hequal⟩

/-- The rate of ten requests per second in a phase that doubles it, set in the order that the
asynchronous client needs. -/
theorem rate_cap_prePost :
    (RateCap 10 .prePost (RateLimiter.run 20 [.setPhase .prePost, .setRps 10]).minInterval ∧
        RateCap 10 .prePost
          (AsyncRates.run [.setRps 10, .setPhase .prePost]).rateLimiter.minInterval ∧
        (RateLimiter.run 20 [.setPhase .prePost, .setRps 10]).minInterval =
          (AsyncRates.run [.setRps 10, .setPhase .prePost]).rateLimiter.minInterval) ↔
      (min (10 : UInt32).toNat maxRateLimit * TradingPhase.prePost.multiplier ≤ maxRateLimit ∧
        min (10 : UInt32).toNat maxRateLimit * TradingPhase.prePost.multiplier ∣ 1000) ∧
        (TradingPhase.prePost = .trading ∨
          (asked [.setRps 10, .setPhase .prePost]).phaseLast = true) :=
  rate_cap_iff 20 [.setPhase .prePost, .setRps 10] [.setRps 10, .setPhase .prePost] 10 .prePost
    rfl (by decide) rfl rfl rfl

/-- The highest rate in the phase that multiplies it by four: the limiter of the synchronous client
lets a request pass every millisecond. -/
theorem rate_cap_exceeded :
    ¬ ∀ (ms : ℕ) (calls asyncCalls : List RateCall) (rps : UInt32) (phase : TradingPhase),
      (asked calls).rps = some rps → (RateLimiter.run ms calls).enabled = true →
      (asked calls).phase = phase → (asked asyncCalls).rps = some rps →
      (asked asyncCalls).phase = phase →
      RateCap rps phase (RateLimiter.run ms calls).minInterval ∧
        RateCap rps phase (AsyncRates.run asyncCalls).rateLimiter.minInterval ∧
        (RateLimiter.run ms calls).minInterval =
          (AsyncRates.run asyncCalls).rateLimiter.minInterval := by
  intro hall
  have hcap := (hall 20 [.setRps 200, .setPhase .closed] [.setRps 200, .setPhase .closed]
    200 .closed rfl (by decide) rfl rfl rfl).1
  have hinterval : (RateLimiter.run 20 [.setRps 200, .setPhase .closed]).minInterval = 1 := by
    decide
  rw [hinterval] at hcap
  exact absurd hcap.1 (by decide)

end Tdxrs
