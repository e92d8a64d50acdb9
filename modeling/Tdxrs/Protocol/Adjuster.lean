import Mathlib.Algebra.BigOperators.Group.List.Lemmas
import Mathlib.Data.List.Sort
import Mathlib.Data.Rat.Floor
import Tdxrs.Library.Sweep
import Tdxrs.Protocol.Types

set_option relaxedAutoImplicit false
set_option autoImplicit false

/-!
# Price adjustment

`src/protocol/adjuster.rs`: prices are adjusted for ex-rights and ex-dividend events, forward
(QFQ: a bar is multiplied by the factors of all later events) or backward (HFQ: by the inverse
factors of all events up to its date). The factor of an event depends on the last close before
it, which is searched in the bars first and then in older context bars.

The two places in which the source trades exactness for clean output, the skip of a multiplier
within `1e-10` of one and the rounding of the result, are the parameter `Arithmetic`; the
source's own is `sourceArithmetic`, and `exactArithmetic` leaves both out.

## Main definitions

* `Tdxrs.calcQfqFactor`, `Tdxrs.findCloseBeforeEvent` — the factor of an event.
* `Tdxrs.calcFqFactors` — the list of factors.
* `Tdxrs.adjustSecurityBars` — the adjustment.
* `Tdxrs.multiplier` — what the adjustment multiplies a bar by.

## Main results

* `Tdxrs.adjustSecurityBars_exact` — in exact arithmetic the two-pointer loops multiply each bar
  by the product over its due events.
* `Tdxrs.adjust_agrees_calc` — where no date repeats, this is the product of the calculated
  factors.
-/

namespace Tdxrs

/-! ## Factors -/

/-- Below this a denominator or a factor counts as zero. -/
def factorEpsilon : ℚ := 1 / 10 ^ 10

/-- What an event contributes to its factor beside the close before it. -/
structure FactorParts where
  divPerShare : ℚ
  bonusRatio : ℚ
  rightsRatio : ℚ
  rightsPrice : ℚ
deriving DecidableEq

/-- The parts of a corporate action, per share. -/
def XdXrInfo.parts (x : XdXrInfo) : FactorParts where
  divPerShare := x.fenhong.getD 0 / 10
  bonusRatio := x.songzhuangu.getD 0 / 10
  rightsRatio := x.peigu.getD 0 / 10
  rightsPrice := x.peigujia.getD 0

/-- The denominator of a factor. -/
def factorDenominator (closeBefore : ℚ) (parts : FactorParts) : ℚ :=
  closeBefore * (1 + parts.bonusRatio + parts.rightsRatio)

/-- The forward factor of an event: the theoretical ex-price over the close before it. -/
def calcQfqFactor (closeBefore : ℚ) (parts : FactorParts) : ℚ :=
  let numerator := closeBefore - parts.divPerShare + parts.rightsPrice * parts.rightsRatio
  if |factorDenominator closeBefore parts| < factorEpsilon ∨ |closeBefore| < factorEpsilon then 1
  else numerator / factorDenominator closeBefore parts

/-- The close before an event: that of the last of the leading bars dated before it, else of the
last context bar dated before it. -/
def findCloseBeforeEvent (bars context : List SecurityBar) (date : ℕ) : Option ℚ :=
  match (bars.takeWhile fun b => b.dateKey < date).getLast? with
  | some b => some b.close
  | none => (context.reverse.find? fun b => b.dateKey < date).map SecurityBar.close

/-- An ex-rights or ex-dividend event: its date and its parts. -/
abbrev Event := ℕ × FactorParts

/-- The events of category 1 in ascending order; events of one date keep their order. -/
def dividendEvents (xdxr : List XdXrInfo) : List Event :=
  ((xdxr.filter fun x => x.category = 1).map fun x => (x.dateKey, x.parts)).insertionSort
    fun a b => a.1 ≤ b.1

/-! ## The list of factors -/

/-- The factor of one event, with what it was calculated from. -/
structure FqFactorItem where
  date : ℕ
  closeBefore : ℚ
  qfqFactor : ℚ
  hfqFactor : ℚ
  parts : FactorParts
deriving DecidableEq

/-- The factors of all events that have a close before them, and their product. -/
structure FqFactorResult where
  factors : List FqFactorItem
  cumulativeQfq : ℚ
  cumulativeHfq : ℚ
deriving DecidableEq

/-- The inverse of a factor, and one for a factor that counts as zero. -/
def hfqOfQfq (qfq : ℚ) : ℚ := if factorEpsilon < |qfq| then 1 / qfq else 1

/-- The item of an event, if there is a close before it. -/
def factorItem (closeBefore : ℕ → Option ℚ) (e : Event) : Option FqFactorItem :=
  (closeBefore e.1).map fun p =>
    ⟨e.1, p, calcQfqFactor p e.2, hfqOfQfq (calcQfqFactor p e.2), e.2⟩

/-- The factors of the events, without adjusting any bar. -/
def calcFqFactors (xdxr : List XdXrInfo) (bars context : List SecurityBar) : FqFactorResult :=
  let factors := (dividendEvents xdxr).filterMap
    (factorItem (findCloseBeforeEvent bars context))
  let cumulativeQfq := (factors.map FqFactorItem.qfqFactor).prod
  ⟨factors, cumulativeQfq, hfqOfQfq cumulativeQfq⟩

/-! ## The adjustment -/

/-- How prices are adjusted. -/
inductive FqType where
  | none
  | qfq
  | hfq
deriving DecidableEq, Repr

/-- What is done about numerical noise: which multipliers are not applied, and how the result is
rounded. -/
structure Arithmetic where
  nearOne : ℚ → Bool
  round : ℚ → ℚ

/-- A number rounded to an integer, halves away from zero. -/
def roundHalfAway (q : ℚ) : ℤ := if 0 ≤ q then ⌊q + 1 / 2⌋ else ⌈q - 1 / 2⌉

/-- A price rounded to a number of decimal places. -/
def roundPrice (p : ℚ) (places : ℕ) : ℚ := (roundHalfAway (p * 10 ^ places) : ℚ) / 10 ^ places

/-- The decimal places of an adjusted price. -/
def fqPricePrecision : ℕ := 3

/-- The arithmetic of the source. -/
def sourceArithmetic : Arithmetic where
  nearOne m := |m - 1| ≤ factorEpsilon
  round p := roundPrice p fqPricePrecision

/-- Exact arithmetic: every multiplier is applied and nothing is rounded. -/
def exactArithmetic : Arithmetic where
  nearOne _ := false
  round p := p

/-- The prices of a bar under a map. -/
def SecurityBar.mapPrices (f : ℚ → ℚ) (b : SecurityBar) : SecurityBar :=
  { b with «open» := f b.open, high := f b.high, low := f b.low, close := f b.close }

/-- A bar with its prices multiplied. -/
def SecurityBar.scale (m : ℚ) (b : SecurityBar) : SecurityBar := b.mapPrices (· * m)

/-- The table from dates to factors, last entry first: an event whose factor counts as zero is
left out, and of several events on one date the last one stays. -/
def factorMap (closeBefore : ℕ → Option ℚ) (events : List Event) : List (ℕ × ℚ) :=
  events.foldl (fun m e =>
    match closeBefore e.1 with
    | none => m
    | some p =>
      let factor := calcQfqFactor p e.2
      if |factor| < factorEpsilon then m else (e.1, factor) :: m) []

/-- Whether an event counts for a bar: strictly later ones forward, others backward. -/
def FqType.due (fq : FqType) (b : SecurityBar) (e : Event) : Bool :=
  match fq with
  | .none => false
  | .qfq => b.dateKey < e.1
  | .hfq => e.1 ≤ b.dateKey

/-- What an event that comes due multiplies onto the cumulative factor. -/
def FqType.weight (fq : FqType) (factors : List (ℕ × ℚ)) (e : Event) : ℚ :=
  match fq, factors.lookup e.1 with
  | .qfq, some factor => factor
  | .hfq, some factor => 1 / factor
  | _, _ => 1

/-- A bar is multiplied by the cumulative factor, unless that is too near to one. -/
def Arithmetic.applyFactor (A : Arithmetic) (b : SecurityBar) (cumulative : ℚ) : SecurityBar :=
  if A.nearOne cumulative then b else b.scale cumulative

/-- The loops over bars and events: forward adjustment walks from the newest bar to the oldest,
backward adjustment from the oldest to the newest. -/
def sweepBars (A : Arithmetic) (fq : FqType) (factors : List (ℕ × ℚ)) (events : List Event)
    (bars : List SecurityBar) : List SecurityBar :=
  match fq with
  | .none => bars
  | .qfq =>
    ((Sweep.sweep fq.due (fq.weight factors) bars.reverse events.reverse 1).map
      fun p => A.applyFactor p.1 p.2).reverse
  | .hfq =>
    (Sweep.sweep fq.due (fq.weight factors) bars events 1).map fun p => A.applyFactor p.1 p.2

/-- The adjustment of bars, with older bars as context. -/
def adjustSecurityBars (A : Arithmetic) (bars context : List SecurityBar)
    (xdxr : List XdXrInfo) (fq : FqType) : List SecurityBar :=
  if fq = .none ∨ bars.isEmpty ∨ xdxr.isEmpty then bars
  else
    let events := dividendEvents xdxr
    let factors := factorMap (findCloseBeforeEvent bars context) events
    if factors.isEmpty then bars
    else (sweepBars A fq factors events bars).map (SecurityBar.mapPrices A.round)

/-! ## Closes before events -/

/-- The bars are in ascending order of their dates; bars of one date may follow each other. -/
def Ascending (bars : List SecurityBar) : Prop :=
  bars.Pairwise fun a b => a.dateKey ≤ b.dateKey

/-- The close before an event in a whole history: that of the last bar dated strictly before
it. -/
def closeBefore (history : List SecurityBar) (date : ℕ) : Option ℚ :=
  ((history.filter fun b => b.dateKey < date).getLast?).map SecurityBar.close

/-- In an ascending list the bars before a date come first. -/
lemma Ascending.takeWhile_eq_filter {bars : List SecurityBar} (h : Ascending bars) (date : ℕ) :
    (bars.takeWhile fun b => b.dateKey < date) = bars.filter fun b => b.dateKey < date := by
  refine Sweep.takeWhile_eq_filter (List.Pairwise.imp ?_ h)
  intro a b hab hb
  simp only [decide_eq_true_eq] at hb ⊢
  omega

/-- **The search for a close before an event**, first in the bars and then in the context, finds
the close of the last bar before the event in the two together, when the bars are ascending. -/
theorem findCloseBeforeEvent_eq {bars : List SecurityBar} (h : Ascending bars)
    (context : List SecurityBar) (date : ℕ) :
    findCloseBeforeEvent bars context date = closeBefore (context ++ bars) date := by
  unfold findCloseBeforeEvent closeBefore
  rw [h.takeWhile_eq_filter, List.filter_append, List.getLast?_append]
  cases (bars.filter fun b => b.dateKey < date).getLast? with
  | some b => rfl
  | none =>
    show _ = ((context.filter fun b => b.dateKey < date).getLast?).map SecurityBar.close
    rw [← List.head?_reverse, ← List.filter_reverse, List.head?_filter]

/-! ## What the loops compute -/

/-- What the adjustment multiplies the prices of a bar by: the product of the weights of the
events that are due there. -/
def multiplier (fq : FqType) (factors : List (ℕ × ℚ)) (events : List Event)
    (b : SecurityBar) : ℚ :=
  ((events.filter (fq.due b)).map (fq.weight factors)).prod

/-- Events are in ascending order. -/
lemma dividendEvents_sorted (xdxr : List XdXrInfo) :
    (dividendEvents xdxr).Pairwise fun a b => a.1 ≤ b.1 := by
  have : Std.Total fun a b : Event => a.1 ≤ b.1 := ⟨fun a b => Nat.le_total a.1 b.1⟩
  have : IsTrans Event fun a b => a.1 ≤ b.1 := ⟨fun _ _ _ => Nat.le_trans⟩
  exact List.pairwise_insertionSort _ _

/-- The forward loop multiplies each bar by the product over the later events.

**Proof sketch.** The loop goes from the newest bar to the oldest and takes the events from the
latest on. Whatever is due at a bar is due at every older one, and whatever is due is behind nothing
that is not, so `Sweep.sweep_eq` replaces the running product by the product over all due events;
the two reversals cancel. -/
lemma sweepBars_qfq (A : Arithmetic) {bars : List SecurityBar} {events : List Event}
    (hb : Ascending bars) (he : events.Pairwise fun a b => a.1 ≤ b.1) (factors : List (ℕ × ℚ)) :
    sweepBars A .qfq factors events bars =
      bars.map fun b => A.applyFactor b (multiplier .qfq factors events b) := by
  have hes : ∀ b : SecurityBar, events.reverse.Pairwise fun e e' =>
      FqType.qfq.due b e' → FqType.qfq.due b e := by
    intro b
    refine List.pairwise_reverse.mpr (he.imp fun hle hdue => ?_)
    simp only [FqType.due, decide_eq_true_eq] at hdue ⊢
    omega
  have has : bars.reverse.Pairwise fun a b =>
      ∀ e, FqType.qfq.due a e → FqType.qfq.due b e := by
    refine List.pairwise_reverse.mpr (List.Pairwise.imp (fun hle e hdue => ?_) hb)
    simp only [FqType.due, decide_eq_true_eq] at hdue ⊢
    omega
  simp only [sweepBars, Sweep.sweep_eq _ hes has, List.map_map, List.map_reverse,
    List.reverse_reverse]
  refine List.map_congr_left fun b _ => ?_
  simp only [Function.comp_apply, one_mul, multiplier, List.filter_reverse, List.map_reverse,
    List.prod_reverse]

/-- The backward loop multiplies each bar by the product over the events up to its date.

**Proof sketch.** As `sweepBars_qfq`, from the oldest bar on: what is due at a bar is due at every
newer one, so `Sweep.sweep_eq` applies as it stands. -/
lemma sweepBars_hfq (A : Arithmetic) {bars : List SecurityBar} {events : List Event}
    (hb : Ascending bars) (he : events.Pairwise fun a b => a.1 ≤ b.1) (factors : List (ℕ × ℚ)) :
    sweepBars A .hfq factors events bars =
      bars.map fun b => A.applyFactor b (multiplier .hfq factors events b) := by
  have hes : ∀ b : SecurityBar, events.Pairwise fun e e' =>
      FqType.hfq.due b e' → FqType.hfq.due b e := by
    intro b
    refine he.imp fun hle hdue => ?_
    simp only [FqType.due, decide_eq_true_eq] at hdue ⊢
    omega
  have has : bars.Pairwise fun a b => ∀ e, FqType.hfq.due a e → FqType.hfq.due b e := by
    refine List.Pairwise.imp (fun hle e hdue => ?_) hb
    simp only [FqType.due, decide_eq_true_eq] at hdue ⊢
    omega
  simp only [sweepBars, Sweep.sweep_eq _ hes has, List.map_map]
  refine List.map_congr_left fun b _ => ?_
  simp only [Function.comp_apply, one_mul, multiplier]

/-- Without an accepted factor every event weighs one. -/
lemma multiplier_nil (fq : FqType) (events : List Event) (b : SecurityBar) :
    multiplier fq [] events b = 1 := by
  refine List.prod_eq_one fun w hw => ?_
  obtain ⟨e, -, rfl⟩ := List.mem_map.mp hw
  cases fq <;> rfl

@[simp] lemma SecurityBar.scale_one (b : SecurityBar) : b.scale 1 = b := by
  simp [SecurityBar.scale, SecurityBar.mapPrices]

/-- The multiplier of a bar in the adjustment of `bars` with a context. -/
def barMultiplier (fq : FqType) (xdxr : List XdXrInfo) (closeBefore : ℕ → Option ℚ)
    (b : SecurityBar) : ℚ :=
  multiplier fq (factorMap closeBefore (dividendEvents xdxr)) (dividendEvents xdxr) b

/-- A bar under a multiplier, rounded. -/
def Arithmetic.adjustBar (A : Arithmetic) (m : ℚ) (b : SecurityBar) : SecurityBar :=
  (A.applyFactor b m).mapPrices A.round

/-- In exact arithmetic the prices are multiplied. -/
@[simp] lemma adjustBar_exact (m : ℚ) (b : SecurityBar) :
    exactArithmetic.adjustBar m b = b.scale m := rfl

/-- **The adjustment** applies to every bar its multiplier, for bars that the arithmetic leaves
alone under the multiplier one.

**Proof sketch.** The loops compute the multipliers (`sweepBars_qfq`, `sweepBars_hfq`); where
the source returns early no event has an accepted factor, and every multiplier is one. -/
theorem adjustSecurityBars_eq {A : Arithmetic} {bars : List SecurityBar} (hb : Ascending bars)
    (hone : ∀ b ∈ bars, A.adjustBar 1 b = b) (context : List SecurityBar)
    (xdxr : List XdXrInfo) {fq : FqType} (hfq : fq ≠ .none) :
    adjustSecurityBars A bars context xdxr fq =
      bars.map fun b =>
        A.adjustBar (barMultiplier fq xdxr (findCloseBeforeEvent bars context) b) b := by
  have hearly : ∀ factors : List (ℕ × ℚ), factors.isEmpty → bars =
      bars.map fun b => A.adjustBar (multiplier fq factors (dividendEvents xdxr) b) b := by
    intro factors hnil
    rw [List.isEmpty_iff.mp hnil]
    exact (List.map_id' bars).symm.trans
      (List.map_congr_left fun b hmem => by rw [multiplier_nil, hone b hmem])
  unfold adjustSecurityBars barMultiplier
  split
  · rename_i h
    rcases h with h | h | h
    · exact absurd h hfq
    · rw [List.isEmpty_iff.mp h, List.map_nil]
    · refine hearly _ ?_
      rw [List.isEmpty_iff.mp h]
      rfl
  · simp only
    split
    · rename_i hempty
      exact hearly _ hempty
    · have hsweep : ∀ fq : FqType, fq ≠ .none → ∀ factors,
          sweepBars A fq factors (dividendEvents xdxr) bars =
            bars.map fun b => A.applyFactor b (multiplier fq factors (dividendEvents xdxr) b) := by
        intro fq hfq factors
        cases fq with
        | none => exact absurd rfl hfq
        | qfq => exact sweepBars_qfq A hb (dividendEvents_sorted xdxr) factors
        | hfq => exact sweepBars_hfq A hb (dividendEvents_sorted xdxr) factors
      rw [hsweep fq hfq, List.map_map]
      rfl

/-- **The adjustment in exact arithmetic** multiplies every bar by its multiplier. -/
theorem adjustSecurityBars_exact {bars : List SecurityBar} (hb : Ascending bars)
    (context : List SecurityBar) (xdxr : List XdXrInfo) {fq : FqType} (hfq : fq ≠ .none) :
    adjustSecurityBars exactArithmetic bars context xdxr fq =
      bars.map fun b =>
        b.scale (barMultiplier fq xdxr (findCloseBeforeEvent bars context) b) := by
  have hone : ∀ b ∈ bars, exactArithmetic.adjustBar 1 b = b := by
    intro b _
    rw [adjustBar_exact, SecurityBar.scale_one]
  simpa only [adjustBar_exact] using adjustSecurityBars_eq hb hone context xdxr hfq

/-! ## The table of factors -/

/-- The factor of an event that the table accepts: there is a close before the event, and the
factor does not count as zero. -/
def acceptedFactor (closeBefore : ℕ → Option ℚ) (e : Event) : Option ℚ :=
  (closeBefore e.1).bind fun p =>
    if |calcQfqFactor p e.2| < factorEpsilon then none else some (calcQfqFactor p e.2)

/-- One more event in the table. -/
lemma factorMap_concat (closeBefore : ℕ → Option ℚ) (events : List Event) (e : Event) :
    factorMap closeBefore (events ++ [e]) =
      match acceptedFactor closeBefore e with
      | none => factorMap closeBefore events
      | some factor => (e.1, factor) :: factorMap closeBefore events := by
  simp only [factorMap, List.foldl_append, List.foldl_cons, List.foldl_nil, acceptedFactor]
  cases closeBefore e.1 with
  | none => rfl
  | some p =>
    simp only [Option.bind_some]
    split <;> rfl

/-- **The table of factors** holds, for each date, the factor of the last accepted event of that
date.

**Proof sketch.** Induction on the events from the end. The last event, if it is accepted,
overwrites what the table has for its date and no other date; if it is not accepted, the table stays
as it was. -/
theorem lookup_factorMap (closeBefore : ℕ → Option ℚ) (events : List Event) (date : ℕ) :
    (factorMap closeBefore events).lookup date =
      ((events.filter fun e => e.1 = date).filterMap (acceptedFactor closeBefore)).getLast? := by
  induction events using List.reverseRecOn with
  | nil => rfl
  | append_singleton events e ih =>
    rw [factorMap_concat, List.filter_append, List.filterMap_append, List.getLast?_append]
    by_cases hdate : e.1 = date
    · subst hdate
      cases hacc : acceptedFactor closeBefore e with
      | none => simp [ih, hacc]
      | some factor => simp [hacc]
    · have hne : (date == e.1) = false := by simpa using Ne.symm hdate
      cases hacc : acceptedFactor closeBefore e with
      | none => simp [ih, hdate]
      | some factor => simp [ih, hdate, List.lookup_cons, hne]

/-- In a list whose elements have different keys, an element is the only one with its key.

**Proof sketch.** By induction on the list: at the element itself no other one has its key, and the
elements before it have other keys. -/
lemma filter_key_eq_singleton {α κ : Type*} [DecidableEq κ] {key : α → κ} {l : List α}
    (h : (l.map key).Nodup) {a : α} (ha : a ∈ l) : l.filter (fun b => key b = key a) = [a] := by
  induction l with
  | nil => exact absurd ha List.not_mem_nil
  | cons b l ih =>
    obtain ⟨hb, hl⟩ := List.nodup_cons.mp h
    rcases List.mem_cons.mp ha with rfl | ha
    · have hnone : l.filter (fun b => key b = key a) = [] := by
        refine List.filter_eq_nil_iff.mpr fun c hc hkey => hb ?_
        rw [← of_decide_eq_true hkey]
        exact List.mem_map_of_mem hc
      rw [List.filter_cons_of_pos (by simp), hnone]
    · have hne : ¬ key b = key a := fun hkey => hb (hkey ▸ List.mem_map_of_mem ha)
      rw [List.filter_cons_of_neg (by simpa using hne), ih hl ha]

/-! ## Agreement with the list of factors -/

variable {closeBefore : ℕ → Option ℚ} {e : Event}

/-- An event has an item exactly when there is a close before it. -/
lemma factorItem_date {item : FqFactorItem} (h : factorItem closeBefore e = some item) :
    item.date = e.1 := by
  obtain ⟨p, -, rfl⟩ := Option.map_eq_some_iff.mp h
  rfl

/-- The accepted factor of an event is that of its item, unless it counts as zero. -/
lemma acceptedFactor_eq (closeBefore : ℕ → Option ℚ) (e : Event) :
    acceptedFactor closeBefore e = (factorItem closeBefore e).bind fun item =>
      if |item.qfqFactor| < factorEpsilon then none else some item.qfqFactor := by
  unfold acceptedFactor factorItem
  cases closeBefore e.1 <;> rfl

/-- The items of events of one date are the only ones of that date, if dates do not repeat: then
the table holds what the event itself is accepted with.

**Proof sketch.** The table holds the factor of the last accepted event of the date
(`lookup_factorMap`). Without a close before it no event of the date is accepted. With one, every
event of the date has an item, all of them are due, and dates of items do not repeat, so the event
is the only one of its date. -/
lemma lookup_of_nodup {events : List Event} {due : Event → Bool}
    (hdue : ∀ e e' : Event, e.1 = e'.1 → due e → due e')
    (hnodup : (((events.filter due).filterMap (factorItem closeBefore)).map
      FqFactorItem.date).Nodup) (he : e ∈ events.filter due) :
    (factorMap closeBefore events).lookup e.1 = acceptedFactor closeBefore e := by
  rw [lookup_factorMap]
  cases hclose : closeBefore e.1 with
  | none =>
    -- no event of this date has a close before it
    have hnone : (events.filter fun e' => e'.1 = e.1).filterMap (acceptedFactor closeBefore)
        = [] := by
      refine List.filterMap_eq_nil_iff.mpr fun e' he' => ?_
      have hdate : e'.1 = e.1 := by simpa using (List.mem_filter.mp he').2
      simp [acceptedFactor, hdate, hclose]
    simp [hnone, acceptedFactor, hclose]
  | some p =>
    -- every event of this date has an item, so that there is only this one
    have hitems : ∀ l : List Event, (l.filterMap (factorItem closeBefore)).map
        FqFactorItem.date = (l.filter fun e' => (closeBefore e'.1).isSome).map Prod.fst := by
      intro l
      induction l with
      | nil => rfl
      | cons e' l ih =>
        cases h : closeBefore e'.1 <;> simp [factorItem, h, ih]
    rw [hitems, List.filter_filter] at hnodup
    obtain ⟨hmem, hdue_e⟩ := List.mem_filter.mp he
    have hmem' : e ∈ events.filter fun a => (closeBefore a.1).isSome && due a :=
      List.mem_filter.mpr ⟨hmem, by simp [hclose, hdue_e]⟩
    have hsingle := filter_key_eq_singleton hnodup hmem'
    rw [List.filter_filter] at hsingle
    have hsame : events.filter (fun e' => e'.1 = e.1) = [e] := by
      rw [← hsingle]
      refine List.filter_congr fun e' _ => ?_
      by_cases hdate : e'.1 = e.1
      · simp [hdate, hclose, hdue e e' hdate.symm hdue_e]
      · simp [hdate]
    rw [hsame]
    cases hacc : acceptedFactor closeBefore e <;> simp [hacc]

/-- A product over accepted factors, as a product over items.

**Proof sketch.** Induction on the events: one without an item has the weight one, and one whose
item is not kept too. -/
lemma prod_weight_eq {w : Event → ℚ} {g : FqFactorItem → ℚ} {keep : FqFactorItem → Bool}
    {l : List Event}
    (h : ∀ e ∈ l, w e = match factorItem closeBefore e with
      | none => 1
      | some item => if keep item then g item else 1) :
    (l.map w).prod =
      (((l.filterMap (factorItem closeBefore)).filter keep).map g).prod := by
  induction l with
  | nil => rfl
  | cons e l ih =>
    have he := h e List.mem_cons_self
    rw [List.map_cons, List.prod_cons, ih fun e' he' => h e' (List.mem_cons_of_mem _ he'), he]
    cases hitem : factorItem closeBefore e with
    | none => rw [List.filterMap_cons_none hitem, one_mul]
    | some item =>
      rw [List.filterMap_cons_some hitem]
      by_cases hkeep : keep item
      · simp [hkeep]
      · simp [hkeep]

/-- The weight of a due event whose date does not repeat is the forward factor of its own item,
unless that counts as zero. -/
lemma qfq_weight_eq {events : List Event} {due : Event → Bool}
    (hdue : ∀ e e' : Event, e.1 = e'.1 → due e → due e')
    (hnodup : (((events.filter due).filterMap (factorItem closeBefore)).map
      FqFactorItem.date).Nodup) (he : e ∈ events.filter due) :
    FqType.qfq.weight (factorMap closeBefore events) e =
      match factorItem closeBefore e with
      | none => 1
      | some item => if factorEpsilon ≤ |item.qfqFactor| then item.qfqFactor else 1 := by
  unfold FqType.weight
  rw [lookup_of_nodup hdue hnodup he, acceptedFactor_eq]
  cases factorItem closeBefore e with
  | none => rfl
  | some item =>
    simp only [Option.bind_some]
    by_cases hsmall : |item.qfqFactor| < factorEpsilon
    · rw [if_pos hsmall, if_neg (not_le.mpr hsmall)]
    · rw [if_neg hsmall, if_pos (not_lt.mp hsmall)]

/-- Backward, the weight of a due event whose date does not repeat is the backward factor of its
own item, when that is not at the border of what counts as zero.

**Proof sketch.** By `lookup_of_nodup` the table holds what the event itself is accepted with. The
adjustment takes the reciprocal where the factor is greater than the bound, the list of factors
where it is not less; off the border the two tests agree. -/
lemma hfq_weight_eq {events : List Event} {due : Event → Bool}
    (hdue : ∀ e e' : Event, e.1 = e'.1 → due e → due e')
    (hnodup : (((events.filter due).filterMap (factorItem closeBefore)).map
      FqFactorItem.date).Nodup) (he : e ∈ events.filter due)
    (hborder : ∀ item, factorItem closeBefore e = some item → |item.qfqFactor| ≠ factorEpsilon) :
    FqType.hfq.weight (factorMap closeBefore events) e =
      match factorItem closeBefore e with
      | none => 1
      | some item => item.hfqFactor := by
  unfold FqType.weight
  rw [lookup_of_nodup hdue hnodup he, acceptedFactor_eq]
  cases hitem : factorItem closeBefore e with
  | none => rfl
  | some item =>
    have hhfq : item.hfqFactor = hfqOfQfq item.qfqFactor := by
      obtain ⟨p, -, rfl⟩ := Option.map_eq_some_iff.mp hitem
      rfl
    have hne := hborder item hitem
    simp only [Option.bind_some, hhfq, hfqOfQfq]
    by_cases hsmall : |item.qfqFactor| < factorEpsilon
    · rw [if_pos hsmall, if_neg (not_lt.mpr hsmall.le)]
    · rw [if_neg hsmall, if_pos (lt_of_le_of_ne (not_lt.mp hsmall) hne.symm)]

/-- The items on one side of a bar are those of the events on this side.

**Proof sketch.** Induction on the events. An event without an item adds nothing on either side, and
an item has the date of its event (`factorItem_date`), so that it is kept exactly when the event
is. -/
lemma factors_filter_eq (xdxr : List XdXrInfo) (bars context : List SecurityBar)
    (side : ℕ → Bool) :
    ((calcFqFactors xdxr bars context).factors.filter fun i => side i.date) =
      ((dividendEvents xdxr).filter fun e => side e.1).filterMap
        (factorItem (findCloseBeforeEvent bars context)) := by
  simp only [calcFqFactors]
  induction dividendEvents xdxr with
  | nil => rfl
  | cons e l ih =>
    cases hitem : factorItem (findCloseBeforeEvent bars context) e with
    | none =>
      rw [List.filterMap_cons_none hitem, ih, List.filter_cons]
      split
      · rw [List.filterMap_cons_none hitem]
      · rfl
    | some item =>
      have hdate := factorItem_date hitem
      rw [List.filterMap_cons_some hitem, List.filter_cons, List.filter_cons, ih, hdate]
      split
      · rw [List.filterMap_cons_some hitem]
      · rfl

/-- **The adjustment agrees with the list of factors** for every bar whose due items are on
different dates: forward, the bar is multiplied by the product of the `qfq_factor`s of the items
dated after it whose factor does not count as zero; backward, by the product of the
`hfq_factor`s of the items dated on or before it, where no factor is exactly `1e-10`.

**Proof sketch.** The multiplier is the product of the weights of the due events
(`adjustSecurityBars_exact`). As no date repeats, the weight of a due event is the factor of its
own item (`lookup_of_nodup`), and one if it has no item or its factor counts as zero; backward the
item's inverse factor is one in that case too. -/
theorem adjust_agrees_calc (bars context : List SecurityBar) (xdxr : List XdXrInfo)
    (hb : Ascending bars) (i : ℕ) (b : SecurityBar) (hi : bars[i]? = some b) :
    let items := (calcFqFactors xdxr bars context).factors
    let later := items.filter fun item => b.dateKey < item.date
    let earlier := items.filter fun item => item.date ≤ b.dateKey
    ((later.map FqFactorItem.date).Nodup →
      (adjustSecurityBars exactArithmetic bars context xdxr .qfq)[i]? =
        some (b.scale ((later.filter fun item => factorEpsilon ≤ |item.qfqFactor|).map
          FqFactorItem.qfqFactor).prod)) ∧
    ((earlier.map FqFactorItem.date).Nodup →
      (∀ item ∈ earlier, |item.qfqFactor| ≠ factorEpsilon) →
      (adjustSecurityBars exactArithmetic bars context xdxr .hfq)[i]? =
        some (b.scale (earlier.map FqFactorItem.hfqFactor).prod)) := by
  intro items later earlier
  have hlater := factors_filter_eq xdxr bars context fun date => b.dateKey < date
  have hearlier := factors_filter_eq xdxr bars context fun date => date ≤ b.dateKey
  have hstay : ∀ fq : FqType, ∀ e e' : Event, e.1 = e'.1 → fq.due b e → fq.due b e' := by
    intro fq e e' hdate hdue
    have hsame : fq.due b e = fq.due b e' := by cases fq <;> simp [FqType.due, hdate]
    exact hsame ▸ hdue
  refine ⟨fun hnodup => ?_, fun hnodup hborder => ?_⟩
  · have hprod : barMultiplier .qfq xdxr (findCloseBeforeEvent bars context) b =
        ((later.filter fun item => factorEpsilon ≤ |item.qfqFactor|).map
          FqFactorItem.qfqFactor).prod := by
      simp only [later, items, hlater] at hnodup ⊢
      refine prod_weight_eq fun e he => ?_
      simpa using qfq_weight_eq (hstay .qfq) hnodup he
    rw [adjustSecurityBars_exact hb context xdxr (by decide), List.getElem?_map, hi, ← hprod]
    rfl
  · have hprod : barMultiplier .hfq xdxr (findCloseBeforeEvent bars context) b =
        ((earlier.filter fun _ => true).map FqFactorItem.hfqFactor).prod := by
      simp only [earlier, items, hearlier] at hnodup hborder ⊢
      refine prod_weight_eq fun e he => ?_
      simpa using hfq_weight_eq (hstay .hfq) hnodup he fun item hitem =>
        hborder item (List.mem_filterMap.mpr ⟨e, he, hitem⟩)
    rw [List.filter_true] at hprod
    rw [adjustSecurityBars_exact hb context xdxr (by decide), List.getElem?_map, hi, ← hprod]
    rfl

/-! ## A factor of zero, and two events -/

/-- A daily bar with all prices equal. -/
def flatBar (price : ℚ) (year month day : ℕ) : SecurityBar :=
  ⟨price, price, price, price, 0, 0, year, month, day, 0, 0, []⟩

/-- A dividend per ten shares. -/
def dividend (year month day : ℕ) (fenhong : ℚ) : XdXrInfo :=
  ⟨year, month, day, 1, some fenhong, none, none, none⟩

/-- Bonus shares per ten shares. -/
def bonus (year month day : ℕ) (songzhuangu : ℚ) : XdXrInfo :=
  ⟨year, month, day, 1, none, none, some songzhuangu, none⟩

/-- The forward product over the items dated after a bar. -/
def itemsProduct (xdxr : List XdXrInfo) (bars : List SecurityBar) (b : SecurityBar) : ℚ :=
  (((calcFqFactors xdxr bars []).factors.filter fun i => b.dateKey < i.date).map
    FqFactorItem.qfqFactor).prod

/-- The two functions diverge on a dividend of the whole price: its item has the factor zero, which
the adjustment leaves out. -/
theorem adjust_disagrees_calc :
    adjustSecurityBars exactArithmetic [flatBar 10 2024 1 1] [] [dividend 2024 1 2 100] .qfq ≠
      [flatBar 10 2024 1 1].map fun b => b.scale
        (itemsProduct [dividend 2024 1 2 100] [flatBar 10 2024 1 1] b) := by
  decide +kernel

/-- A bar before a dividend of one tenth and bonus shares that halve the price, and its last
successor, in both directions. -/
theorem adjust_agrees_calc_two_events :
    (adjustSecurityBars exactArithmetic
        [flatBar 10 2024 1 1, flatBar 9 2024 1 2, flatBar 9 2024 1 3, flatBar 5 2024 1 4] []
        [bonus 2024 1 4 10, dividend 2024 1 2 10] .qfq)[0]? =
        some ((flatBar 10 2024 1 1).scale (9 / 10 * (1 / 2))) ∧
      (adjustSecurityBars exactArithmetic
        [flatBar 10 2024 1 1, flatBar 9 2024 1 2, flatBar 9 2024 1 3, flatBar 5 2024 1 4] []
        [bonus 2024 1 4 10, dividend 2024 1 2 10] .hfq)[3]? =
        some ((flatBar 5 2024 1 4).scale (10 / 9 * 2)) := by
  have hfirst := (adjust_agrees_calc
    [flatBar 10 2024 1 1, flatBar 9 2024 1 2, flatBar 9 2024 1 3, flatBar 5 2024 1 4] []
    [bonus 2024 1 4 10, dividend 2024 1 2 10] (by unfold Ascending; decide) 0 _ rfl).1
    (by decide +kernel)
  have hlast := (adjust_agrees_calc
    [flatBar 10 2024 1 1, flatBar 9 2024 1 2, flatBar 9 2024 1 3, flatBar 5 2024 1 4] []
    [bonus 2024 1 4 10, dividend 2024 1 2 10] (by unfold Ascending; decide) 3 _ rfl).2
    (by decide +kernel) (by decide +kernel)
  refine ⟨hfirst.trans ?_, hlast.trans ?_⟩
  · decide +kernel
  · decide +kernel

end Tdxrs
