import Tdxrs.Net.Context
import Tdxrs.Net.Paging

set_option relaxedAutoImplicit false
set_option autoImplicit false

/-!
# Failures of the auxiliary requests

An adjusted K-line call makes requests beside the one for its bars: one for the corporate actions
and one for each page of context. When such a request fails, the call goes on with what it has:
without corporate actions the bars stay unadjusted, and a failed page ends the context. This
module compares such a call with the same call without failures.

## Main definitions

* `Tdxrs.FailurePattern` — which auxiliary requests fail.
* `Tdxrs.HqEnv.Answers` — a client whose auxiliary requests fail by a pattern.
* `Tdxrs.FailuresHarmless` — when the failures do not show.

## Main results

* `Tdxrs.adjust_failed_iff` — two contexts that make the same bars.
* `Tdxrs.failures_unnoticed_iff` — the call returns an error or the bars of the call without
  failures exactly when the failures are harmless.
-/

namespace Tdxrs

variable {σ τ : Type}

/-! ## Parsed prices are rounded -/

/-- A price in thousandths has no more decimal places than an adjusted price.

**Proof sketch.** Scaled by a thousand it is a whole number, which rounding away from zero leaves as
it is, on either side of zero. -/
lemma roundPrice_thousandths (n : Int64) :
    roundPrice (thousandths n) fqPricePrecision = thousandths n := by
  have hscaled : thousandths n * 10 ^ fqPricePrecision = (n.toInt : ℚ) := by
    rw [thousandths, fqPricePrecision]
    ring
  have hround : roundHalfAway (n.toInt : ℚ) = n.toInt := by
    unfold roundHalfAway
    split
    · rw [Int.floor_intCast_add]
      norm_num
    · rw [sub_eq_add_neg, Int.ceil_intCast_add]
      norm_num
  rw [roundPrice, hscaled, hround, ← hscaled]
  field_simp

/-- The multiplier one leaves a bar with rounded prices alone. -/
lemma adjustBar_one {b : SecurityBar} (h : b.mapPrices sourceArithmetic.round = b) :
    sourceArithmetic.adjustBar 1 b = b := by
  rw [Arithmetic.adjustBar, Arithmetic.applyFactor, if_pos (by decide +kernel), h]

/-- The prices of a parsed record are rounded. -/
lemma parseKLine_rounded {maxValidYear : ℕ} {category : UInt8} {body : Bytes} {pos next : ℕ}
    {base base' : Int64} {b : SecurityBar}
    (h : parseKLine maxValidYear category body pos base = some (b, next, base')) :
    b.mapPrices sourceArithmetic.round = b := by
  unfold parseKLine at h
  simp only at h
  split at h
  · cases h
  · rw [← (Prod.mk.inj (Option.some.inj h)).1]
    simp only [SecurityBar.mapPrices, sourceArithmetic, roundPrice_thousandths]

/-- The prices of all parsed bars are rounded.

**Proof sketch.** Induction on the count of the loop: each bar is one that `parseKLine` has made,
with rounded prices (`parseKLine_rounded`). -/
lemma parseSecurityBars_rounded {maxValidYear : ℕ} {category : UInt8} {body : Bytes}
    {bars : List SecurityBar} (h : parseSecurityBars maxValidYear category body = .ok bars) :
    ∀ b ∈ bars, b.mapPrices sourceArithmetic.round = b := by
  have hloop : ∀ count pos base, ∀ b ∈ parseSecurityBarsLoop maxValidYear category body count pos
      base, b.mapPrices sourceArithmetic.round = b := by
    intro count
    induction count with
    | zero =>
      intro pos base b hb
      cases hb
    | succ count ih =>
      intro pos base b hb
      rw [parseSecurityBarsLoop] at hb
      split at hb
      · cases hb
      · split at hb
        · cases hb
        · rename_i first next base' hrecord
          rcases List.mem_cons.mp hb with rfl | hb
          · exact parseKLine_rounded hrecord
          · exact ih _ _ b hb
  unfold parseSecurityBars at h
  split at h
  · cases h
  · rw [← Except.ok.inj h]
    exact hloop _ _ _

namespace HqEnv

/-- The bars that the attempts at a call return are those of some request, or none.

**Proof sketch.** Induction on the attempts: an attempt that is returned is the answer of a request,
and without any attempt nothing is returned. -/
lemma attemptBars_sound {β : Type} {env : HqEnv σ} {Q : List β → Prop} (hnil : Q [])
    {request : HqState σ → Except TdxError (List β) × HqState σ}
    (hrequest : ∀ s bars s', request s = (.ok bars, s') → Q bars) {retry : Bool} {attempts : ℕ}
    {s s' : HqState σ} {bars : List β}
    (h : env.attemptBars request retry attempts s = (.ok bars, s')) : Q bars := by
  induction attempts generalizing s with
  | zero =>
    obtain ⟨hbars, -⟩ := Prod.mk.inj h
    rw [← Except.ok.inj hbars]
    exact hnil
  | succ attempts ih =>
    rw [attemptBars] at h
    split at h
    · cases (Prod.mk.inj h).1
    · rename_i parsed s₁ hparsed
      split at h
      · rw [← Except.ok.inj (Prod.mk.inj h).1]
        exact hrequest _ _ _ hparsed
      · exact ih h

/-- The prices of the bars of an unadjusted call are rounded.

**Proof sketch.** Without adjustment the call returns what the attempts do (`attemptBars_sound`),
and these are parsed bars (`parseSecurityBars_rounded`). -/
lemma getSecurityBars_rounded {env : HqEnv σ} {category market : UInt8} {code : String}
    {start count : ℕ} {s : HqState σ} {bars : List SecurityBar}
    (h : (env.getSecurityBars category market code start count 0 s).1 = .ok bars) :
    ∀ b ∈ bars, b.mapPrices sourceArithmetic.round = b := by
  unfold getSecurityBars getSecurityBarsWith at h
  split at h
  · cases h
  · cases h
  · split at h
    · cases h
    · rename_i raw s' hraw
      have hsame : raw = bars := by
        simpa only [adjustFetched, ne_eq, not_true_eq_false, false_and, if_false,
          Except.ok.injEq] using h
      rw [← hsame]
      refine attemptBars_sound (Q := fun bars => ∀ b ∈ bars,
        b.mapPrices sourceArithmetic.round = b) (fun b hb => absurd hb List.not_mem_nil) ?_ hraw
      intro s₀ parsed s₁ hreq
      unfold requestBars at hreq
      split at hreq
      · cases (Prod.mk.inj hreq).1
      · exact parseSecurityBars_rounded (Prod.mk.inj hreq).1

end HqEnv

/-! ## Calls with failures -/

/-- Which auxiliary requests of a call fail: the one for the corporate actions, and the one for
each page of context. -/
structure FailurePattern where
  xdxr : Bool
  page : ℕ → Bool

/-- No auxiliary request fails. -/
def FailurePattern.none : FailurePattern := ⟨false, fun _ => false⟩

/-- From the world `w` on, the auxiliary requests of a client fail by a pattern, and the others are
answered with the corporate actions and the slices of the history. -/
def HqEnv.Answers (env : HqEnv σ) (category market : UInt8) (code : String)
    (history : List SecurityBar) (xdxr : List XdXrInfo) (p : FailurePattern) (w : σ) : Prop :=
  match env.getXdxrInfo market code w with
  | (.error _, _) => p.xdxr = true
  | (.ok events, w) => p.xdxr = false ∧ events = xdxr ∧
      PagesFollow env.sendAndRecvLimited (parseSecurityBars env.maxValidYear category) category
        market code history p.page env.fqContextTier.pages 0 w

/-- The context of the bars of a call, when pages fail. -/
def contextOf (history : List SecurityBar) (xdxr : List XdXrInfo) (tier : FqContextTier)
    (fails : ℕ → Bool) (bars : List SecurityBar) : List SecurityBar :=
  match bars, HqEnv.earliestEvent xdxr with
  | first :: _, some earliest =>
    if first.dateKey ≤ earliest then []
    else contextPages history earliest fails tier.pages 0 []
  | _, _ => []

/-- The bars of a call under a failure pattern. -/
def adjustedUnder (history : List SecurityBar) (xdxr : List XdXrInfo) (tier : FqContextTier)
    (fq : UInt8) (p : FailurePattern) (bars : List SecurityBar) : List SecurityBar :=
  if p.xdxr then bars
  else
    adjustSecurityBars sourceArithmetic bars (contextOf history xdxr tier p.page bars) xdxr
      (HqEnv.fqType fq)

variable {env : HqEnv σ} {category market : UInt8} {code : String} {history : List SecurityBar}
  {xdxr : List XdXrInfo} {p : FailurePattern}

/-- The context fetch under a failure pattern. -/
lemma fetchContext_eq {bars : List SecurityBar} {w : σ}
    (h : PagesFollow env.sendAndRecvLimited (parseSecurityBars env.maxValidYear category) category
      market code history p.page env.fqContextTier.pages 0 w) :
    (env.fetchContextBarsForAdjust category market code bars xdxr w).1 =
      contextOf history xdxr env.fqContextTier p.page bars := by
  unfold HqEnv.fetchContextBarsForAdjust HqEnv.fetchContextBarsForAdjustWithTier contextOf
  cases bars with
  | nil => rfl
  | cons first rest =>
    cases hearliest : HqEnv.earliestEvent xdxr with
    | none => simp only [HqEnv.fetchContextBars, hearliest]
    | some earliest => exact fetchContextBars_eq h hearliest

/-- The adjustment of a call under a failure pattern.

**Proof sketch.** The request for corporate actions fails exactly where the pattern says so, and
then the bars stay as they are. Otherwise the pages of the context are fetched up to the first that
fails (`fetchContext_eq`), and the bars are adjusted with what has come. -/
lemma adjustFetched_eq {fq : UInt8} (hfq : fq ≠ 0) (bars : List SecurityBar) {w : σ}
    (h : env.Answers category market code history xdxr p w) :
    (env.adjustFetched sourceArithmetic (env.fetchContextBarsForAdjust category market code) market
      code fq bars w).1 = adjustedUnder history xdxr env.fqContextTier fq p bars := by
  unfold HqEnv.Answers at h
  unfold HqEnv.adjustFetched adjustedUnder
  by_cases hbars : bars.isEmpty
  · rw [List.isEmpty_iff.mp hbars, if_neg (by simp)]
    split
    · rfl
    · simp [adjustSecurityBars]
  · rw [if_pos ⟨hfq, hbars⟩]
    rcases hevents : env.getXdxrInfo market code w with ⟨_ | events, w'⟩
    · simp only [hevents] at h ⊢
      rw [if_pos h]
    · simp only [hevents] at h ⊢
      obtain ⟨hxdxr, rfl, hpages⟩ := h
      rw [if_neg (by simp [hxdxr]), fetchContext_eq hpages]

/-! ## When failures do not show -/

/-- The multiplier of a bar in the call without failures. -/
def soundMultiplier (history : List SecurityBar) (xdxr : List XdXrInfo) (tier : FqContextTier)
    (fq : UInt8) (bars : List SecurityBar) (b : SecurityBar) : ℚ :=
  barMultiplier (HqEnv.fqType fq) xdxr
    (findCloseBeforeEvent bars (contextOf history xdxr tier (fun _ => false) bars)) b

/-- Backward, the multiplier of a bar of a call that begins with `first`: the inverse factors up to
`first` with the closes in the context, and those after it with the closes in the bars. -/
def backwardMultiplier (xdxr : List XdXrInfo) (context bars : List SecurityBar)
    (first b : SecurityBar) : ℚ :=
  earlierProduct xdxr (closeBefore context) first.dateKey *
    betweenProduct .hfq xdxr (closeBefore bars) first.dateKey b.dateKey

/-- The failures of auxiliary requests do not show in the bars of a call. If the corporate actions
fail, no bar changes in the adjustment. Else, if the adjustment is backward, the inverse factors
up to the first bar, with the closes of the context at hand, make the same rounded prices as with
those of the whole context. -/
def FailuresHarmless (history : List SecurityBar) (xdxr : List XdXrInfo) (tier : FqContextTier)
    (fq : UInt8) (p : FailurePattern) (bars : List SecurityBar) : Prop :=
  if p.xdxr then
    ∀ b ∈ bars, sourceArithmetic.adjustBar (soundMultiplier history xdxr tier fq bars b) b = b
  else
    fq = 1 ∨ ∀ first, bars.head? = some first → ∀ b ∈ bars,
      sourceArithmetic.adjustBar
          (backwardMultiplier xdxr (contextOf history xdxr tier p.page bars) bars first b) b =
        sourceArithmetic.adjustBar
          (backwardMultiplier xdxr (contextOf history xdxr tier (fun _ => false) bars) bars first b)
          b

/-- Forward, the context does not matter: a bar is multiplied by the factors of later events, and
those have a close among the bars. -/
lemma forward_congr {bars : List SecurityBar} (hasc : Ascending bars)
    (context context' : List SecurityBar) {b : SecurityBar} (hb : b ∈ bars) :
    barMultiplier .qfq xdxr (findCloseBeforeEvent bars context) b =
      barMultiplier .qfq xdxr (findCloseBeforeEvent bars context') b := by
  refine barMultiplier_congr fun e _ hdue => ?_
  have hlater : b.dateKey < e.1 := by simpa [FqType.due] using hdue
  rw [findCloseBeforeEvent_eq hasc, findCloseBeforeEvent_eq hasc,
    closeBefore_append_of_lt ⟨b, hb, hlater⟩, closeBefore_append_of_lt ⟨b, hb, hlater⟩]

/-- Backward, the multiplier splits at the first bar.

**Proof sketch.** The events up to the bar are split at the date of the first bar. Before an event
up to that date the close comes from the context alone, since no returned bar is older. Before a
later one it comes from the returned bars alone, since the first of them is older than the event. -/
lemma backward_split {first : SecurityBar} {rest : List SecurityBar}
    (hasc : Ascending (first :: rest)) (context : List SecurityBar) {b : SecurityBar}
    (hb : b ∈ first :: rest) :
    barMultiplier .hfq xdxr (findCloseBeforeEvent (first :: rest) context) b =
      backwardMultiplier xdxr context (first :: rest) first b := by
  have hle := hasc.head_le b hb
  have hcontext : ∀ d ≤ first.dateKey,
      findCloseBeforeEvent (first :: rest) context d = closeBefore context d := by
    intro d hd
    rw [findCloseBeforeEvent_eq hasc, closeBefore_append_of_le]
    exact fun b hb => hd.trans (hasc.head_le b hb)
  have hbars : ∀ d, first.dateKey < d → d ≤ b.dateKey →
      findCloseBeforeEvent (first :: rest) context d = closeBefore (first :: rest) d := by
    intro d hd _
    rw [findCloseBeforeEvent_eq hasc, closeBefore_append_of_lt ⟨first, List.mem_cons_self, hd⟩]
  rw [barMultiplier_hfq, earlierProduct_split xdxr _ hle, earlierProduct_congr hcontext,
    betweenProduct_congr .hfq hbars, backwardMultiplier]

/-- **The bars under failures are those without exactly when the failures are harmless.**

**Proof sketch.** Adjusting is multiplying every bar by its number. Without corporate actions all
numbers are one, so the bars agree exactly if the right numbers are one too. With them only the
context can differ: forward, the number of a bar does not depend on it (`forward_congr`); backward,
it is a part that does not, times the product over the events before the first bar
(`backward_split`). -/
theorem adjusted_under_iff {bars : List SecurityBar} (hasc : Ascending bars)
    (hround : ∀ b ∈ bars, b.mapPrices sourceArithmetic.round = b) (tier : FqContextTier)
    {fq : UInt8} (hfq : fq = 1 ∨ fq = 2) :
    adjustedUnder history xdxr tier fq p bars =
        adjustedUnder history xdxr tier fq FailurePattern.none bars ↔
      FailuresHarmless history xdxr tier fq p bars := by
  have hfqType : HqEnv.fqType fq ≠ .none := by
    unfold HqEnv.fqType
    split <;> decide
  have hadjust := fun context =>
    adjustSecurityBars_eq hasc (fun b hb => adjustBar_one (hround b hb)) context xdxr hfqType
  unfold adjustedUnder FailuresHarmless soundMultiplier
  have hnone : FailurePattern.none.xdxr = false := rfl
  have hpage : FailurePattern.none.page = fun _ => false := rfl
  rw [hnone, hpage]
  simp only [Bool.false_eq_true, if_false]
  by_cases hxdxr : p.xdxr
  · rw [if_pos hxdxr, if_pos hxdxr, hadjust, eq_comm]
    conv_lhs =>
      rhs
      rw [← List.map_id bars]
    exact List.map_inj_left
  · rw [if_neg hxdxr, if_neg hxdxr, hadjust, hadjust, List.map_inj_left]
    rcases hfq with rfl | rfl
    · have hforward : HqEnv.fqType 1 = .qfq := rfl
      refine iff_of_true (fun b hb => ?_) (.inl rfl)
      rw [hforward, forward_congr hasc _ _ hb]
    · have hback : HqEnv.fqType 2 = .hfq := rfl
      rw [hback, or_iff_right (by decide)]
      cases bars with
      | nil => simp
      | cons first rest =>
        simp only [List.head?_cons, Option.some.injEq, forall_eq']
        refine forall₂_congr fun b hb => ?_
        rw [backward_split hasc _ hb, backward_split hasc _ hb]

/-- The result of an adjusted call whose auxiliary requests fail by a pattern.

**Proof sketch.** The call is its unadjusted part, which does not depend on how it adjusts, followed
by the adjustment. An error of the first part is returned as it is; what the second makes of the
bars is known from the pattern. -/
lemma getSecurityBars_under {start count : ℕ} {fq : UInt8} (hfq : fq ≠ 0) {s : HqState σ}
    (h : env.Answers category market code history xdxr p
      (env.getSecurityBars category market code start count 0 s).2.world) :
    (env.getSecurityBars category market code start count fq s).1 =
      (env.getSecurityBars category market code start count 0 s).1.map
        (adjustedUnder history xdxr env.fqContextTier fq p) := by
  have hcall := HqEnv.getSecurityBarsWith_eq env sourceArithmetic
    (env.fetchContextBarsForAdjust category market code) category market code start count fq s
  unfold HqEnv.getSecurityBars at hcall ⊢
  rw [hcall]
  unfold HqEnv.getSecurityBars at h
  rcases hraw : env.getSecurityBarsWith sourceArithmetic
    (env.fetchContextBarsForAdjust category market code) category market code start count 0 s with
    ⟨raw, s'⟩
  rw [hraw] at h
  cases raw with
  | error e => rfl
  | ok bars => exact congrArg Except.ok (adjustFetched_eq hfq bars h)

/-- **A call whose auxiliary requests fail by a pattern returns an error, or the bars of the same
call without such failures, exactly when it gets no bars or the failures are harmless.** The
server has the same ascending bars for both calls, and the corporate actions are the same.

**Proof sketch.** Both calls return bars of the same unadjusted call, whose prices are rounded
(`getSecurityBars_rounded`); an error of that call is an error of both. What they make of the bars
is the adjustment under the pattern and under none (`adjustFetched_eq`), and `adjusted_under_iff`
compares these. -/
theorem failures_unnoticed_iff {faultless : HqEnv τ}
    (htier : env.fqContextTier = faultless.fqContextTier) {start count : ℕ} {fq : UInt8}
    (hfq : fq = 1 ∨ fq = 2) {s : HqState σ} {t : HqState τ}
    (hsame : (env.getSecurityBars category market code start count 0 s).1 =
      (faultless.getSecurityBars category market code start count 0 t).1)
    (hasc : ∀ bars, (env.getSecurityBars category market code start count 0 s).1 = .ok bars →
      Ascending bars)
    (hfails : env.Answers category market code history xdxr p
      (env.getSecurityBars category market code start count 0 s).2.world)
    (hfaultless : faultless.Answers category market code history xdxr FailurePattern.none
      (faultless.getSecurityBars category market code start count 0 t).2.world) :
    ((∃ e, (env.getSecurityBars category market code start count fq s).1 = .error e) ∨
      (env.getSecurityBars category market code start count fq s).1 =
        (faultless.getSecurityBars category market code start count fq t).1) ↔
      ∀ bars, (env.getSecurityBars category market code start count 0 s).1 = .ok bars →
        FailuresHarmless history xdxr env.fqContextTier fq p bars := by
  have hne : fq ≠ 0 := by rcases hfq with rfl | rfl <;> decide
  rw [getSecurityBars_under hne hfails, getSecurityBars_under hne hfaultless, ← hsame, ← htier]
  cases hraw : (env.getSecurityBars category market code start count 0 s).1 with
  | error e => simp [Except.map]
  | ok bars =>
    simp only [Except.map, Except.ok.injEq, reduceCtorEq, exists_false, false_or, forall_eq']
    exact adjusted_under_iff (hasc bars hraw) (HqEnv.getSecurityBars_rounded hraw) _ hfq

/-! ## Calls with failures on small histories -/

/-- A server that answers by slices at the first try answers so with retries. -/
lemma ServesSlices.limited
    (h : ServesSlices env.trySendAndRecv (parseSecurityBars env.maxValidYear category) category
      market code history) :
    ServesSlices env.sendAndRecvLimited (parseSecurityBars env.maxValidYear category) category
      market code history := by
  intro packet start count w hpacket
  obtain ⟨body, w', hsend, hparse⟩ := h packet start count w hpacket
  exact ⟨body, w', HqEnv.sendAndRecvLimited_ok hsend, hparse⟩

/-- The client of `threeDays`, with one dividend. -/
def threeDaysEnv : HqEnv Unit :=
  sliceEnv threeDays (.ok [dividend 2024 1 4 10]) fun _ => false

/-- The same client, whose request for the corporate actions fails. -/
def threeDaysFailing : HqEnv Unit := sliceEnv threeDays (.error .disconnected) fun _ => false

/-- When the request for the corporate actions fails, the bars before a dividend are returned
unadjusted, without an error. -/
theorem failure_unnoticed :
    (threeDaysFailing.getSecurityBars 4 1 "600519" 0 3 1 ⟨(), []⟩).1.toOption =
      some (barsOf 4 threeDays) ∧
    (threeDaysEnv.getSecurityBars 4 1 "600519" 0 3 1 ⟨(), []⟩).1.toOption ≠
      some (barsOf 4 threeDays) := by
  decide +kernel

/-- Forward adjustment of the newest bar of `threeDays`, which nothing changes. -/
theorem failures_unnoticed_iff_newest :
    ((∃ e, (threeDaysFailing.getSecurityBars 4 1 "600519" 0 1 1 ⟨(), []⟩).1 = .error e) ∨
      (threeDaysFailing.getSecurityBars 4 1 "600519" 0 1 1 ⟨(), []⟩).1 =
        (threeDaysEnv.getSecurityBars 4 1 "600519" 0 1 1 ⟨(), []⟩).1) ↔
      ∀ bars, (threeDaysFailing.getSecurityBars 4 1 "600519" 0 1 0 ⟨(), []⟩).1 = .ok bars →
        FailuresHarmless (barsOf 4 threeDays) [dividend 2024 1 4 10] .mid 1
          ⟨true, fun _ => false⟩ bars := by
  have hcode : ValidStockCode "600519" := ⟨by rfl, by decide +kernel⟩
  have hfailing : ServesSlices threeDaysFailing.trySendAndRecv (parseSecurityBars 2036 4) 4 1
      "600519" (barsOf 4 threeDays) := sliceEnv_serves threeDays_encodable _ _ _
  have hserve : ServesSlices threeDaysEnv.trySendAndRecv (parseSecurityBars 2036 4) 4 1
      "600519" (barsOf 4 threeDays) := sliceEnv_serves threeDays_encodable _ _ _
  have hasc : Ascending (barsOf 4 threeDays) := by unfold Ascending; decide +kernel
  have hfails : ∀ w, threeDaysFailing.Answers 4 1 "600519" (barsOf 4 threeDays)
      [dividend 2024 1 4 10] ⟨true, fun _ => false⟩ w := fun w => rfl
  have hfaultless : ∀ w, threeDaysEnv.Answers 4 1 "600519" (barsOf 4 threeDays)
      [dividend 2024 1 4 10] FailurePattern.none w := fun w =>
    ⟨rfl, rfl, hserve.limited.pagesFollow (by decide) w⟩
  obtain ⟨s', hs, -⟩ := HqEnv.getSecurityBars_raw hcode hfailing (by decide : 0 ≤ 65535)
    (by decide : 1 ≤ 65535) (HqEnv.OffsetsFit.refl ⟨(), []⟩)
  obtain ⟨t', ht, -⟩ := HqEnv.getSecurityBars_raw hcode hserve (by decide : 0 ≤ 65535)
    (by decide : 1 ≤ 65535) (HqEnv.OffsetsFit.refl ⟨(), []⟩)
  have hsame : (threeDaysFailing.getSecurityBars 4 1 "600519" 0 1 0 ⟨(), []⟩).1 =
      (threeDaysEnv.getSecurityBars 4 1 "600519" 0 1 0 ⟨(), []⟩).1 := by rw [hs, ht]
  have hbars : ∀ bars, (threeDaysFailing.getSecurityBars 4 1 "600519" 0 1 0 ⟨(), []⟩).1 = .ok bars →
      Ascending bars := by
    intro bars hbars
    rw [hs] at hbars
    rw [← Except.ok.inj hbars]
    exact hasc.slice 0 1
  have htier : threeDaysFailing.fqContextTier = threeDaysEnv.fqContextTier := rfl
  exact failures_unnoticed_iff htier (.inl rfl) hsame hbars (hfails _) (hfaultless _)

end Tdxrs
