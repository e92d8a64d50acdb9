import Tdxrs.Protocol.Multiplier

set_option relaxedAutoImplicit false
set_option autoImplicit false

/-!
# The law of price adjustment

What `adjust_security_bars` of `src/protocol/adjuster.rs` does to a bar, in exact arithmetic and
said without its loops and tables: forward, the prices are multiplied by the factors of all later
corporate actions; backward, by the inverse factors of all actions up to the bar. It follows how the
adjustment changes when newer bars arrive: backward not at all, forward by one factor that all old
bars have in common.

## Main definitions

* `Tdxrs.dividends`, `Tdxrs.XdXrInfo.factor` — the corporate actions that count, and their factors.
* `Tdxrs.laterFactors`, `Tdxrs.inverseFactorsUpTo` — the products over one side of a bar.
* `Tdxrs.LaterThan` — bars that come after others.

## Main results

* `Tdxrs.adjustment_law` — the adjustment is by these products.
* `Tdxrs.adjust_append_stable` — the adjustment of the old bars when newer ones arrive.
-/

namespace Tdxrs

/-! ## Factors of corporate actions -/

/-- The corporate actions that adjust prices, those of category 1. -/
def dividends (xdxr : List XdXrInfo) : List XdXrInfo := xdxr.filter fun x => x.category = 1

/-- The factor of a corporate action in a history, and one if it is not accepted: if there is no
close before it, or the factor counts as zero. -/
def XdXrInfo.factor (history : List SecurityBar) (x : XdXrInfo) : ℚ :=
  (acceptedFactor (closeBefore history) (x.dateKey, x.parts)).getD 1

/-- The product of the factors of the corporate actions after a bar. -/
def laterFactors (history : List SecurityBar) (xdxr : List XdXrInfo) (b : SecurityBar) : ℚ :=
  (((dividends xdxr).filter fun x => b.dateKey < x.dateKey).map (XdXrInfo.factor history)).prod

/-- The product of the inverse factors of the corporate actions up to a bar. -/
def inverseFactorsUpTo (history : List SecurityBar) (xdxr : List XdXrInfo) (b : SecurityBar) : ℚ :=
  (((dividends xdxr).filter fun x => x.dateKey ≤ b.dateKey).map fun x =>
    1 / x.factor history).prod

/-- A bar without its prices: its date, its text, its volume and its amount. -/
def SecurityBar.unpriced (b : SecurityBar) : SecurityBar := b.mapPrices fun _ => 0

variable {xdxr : List XdXrInfo} {bars context : List SecurityBar}

/-- The events are the corporate actions that count, in another order. -/
lemma dividendEvents_perm (xdxr : List XdXrInfo) :
    (dividendEvents xdxr).Perm ((dividends xdxr).map fun x => (x.dateKey, x.parts)) :=
  List.perm_insertionSort _ _

/-- No factor is zero.

**Proof sketch.** A factor that is close to zero is not accepted, and one is taken in its place, as
it is when there is no close before the event. -/
lemma XdXrInfo.factor_ne_zero (history : List SecurityBar) (x : XdXrInfo) :
    x.factor history ≠ 0 := by
  unfold XdXrInfo.factor acceptedFactor
  cases closeBefore history x.dateKey with
  | none => exact one_ne_zero
  | some p =>
    simp only [Option.bind_some]
    split
    · exact one_ne_zero
    · rename_i hsmall
      intro hzero
      rw [Option.getD_some] at hzero
      rw [hzero, abs_zero] at hsmall
      exact hsmall (by norm_num [factorEpsilon])

/-- Where dates do not repeat, the table holds for an event what it is accepted with itself. -/
lemma lookup_of_dates_nodup {c : ℕ → Option ℚ} {events : List Event}
    (h : (events.map Prod.fst).Nodup) {e : Event} (he : e ∈ events) :
    (factorMap c events).lookup e.1 = acceptedFactor c e := by
  rw [lookup_factorMap, filter_key_eq_singleton h he]
  cases hacc : acceptedFactor c e <;> simp [hacc]

/-- The weight of an event, where dates do not repeat. -/
lemma weight_of_dates_nodup {c : ℕ → Option ℚ} {events : List Event}
    (h : (events.map Prod.fst).Nodup) {e : Event} (he : e ∈ events) :
    FqType.qfq.weight (factorMap c events) e = (acceptedFactor c e).getD 1 ∧
      FqType.hfq.weight (factorMap c events) e = 1 / (acceptedFactor c e).getD 1 := by
  unfold FqType.weight
  rw [lookup_of_dates_nodup h he]
  cases acceptedFactor c e <;> simp

/-- A product over the events on one side is one over the corporate actions there. -/
lemma prod_events_eq {w : Event → ℚ} {g : XdXrInfo → ℚ} (side : ℕ → Bool)
    (h : ∀ x ∈ dividends xdxr, w (x.dateKey, x.parts) = g x) :
    (((dividendEvents xdxr).filter fun e => side e.1).map w).prod =
      (((dividends xdxr).filter fun x => side x.dateKey).map g).prod := by
  have hperm := ((dividendEvents_perm xdxr).filter fun e => side e.1).map w
  rw [hperm.prod_eq, List.filter_map, List.map_map]
  congr 1
  exact List.map_congr_left fun x hx => h x (List.mem_of_mem_filter hx)

/-- **The multipliers of a bar**, where no two corporate actions that count are of one date. -/
lemma barMultiplier_eq_factors (hdates : ((dividends xdxr).map XdXrInfo.dateKey).Nodup)
    (history : List SecurityBar) (b : SecurityBar) :
    barMultiplier .qfq xdxr (closeBefore history) b = laterFactors history xdxr b ∧
      barMultiplier .hfq xdxr (closeBefore history) b = inverseFactorsUpTo history xdxr b := by
  have hnodup : ((dividendEvents xdxr).map Prod.fst).Nodup := by
    refine ((dividendEvents_perm xdxr).map Prod.fst).nodup_iff.mpr ?_
    rw [List.map_map]
    exact hdates
  have hmem : ∀ x ∈ dividends xdxr, (x.dateKey, x.parts) ∈ dividendEvents xdxr := fun x hx =>
    (dividendEvents_perm xdxr).mem_iff.mpr (List.mem_map_of_mem hx)
  exact ⟨prod_events_eq (fun date => b.dateKey < date) fun x hx =>
      (weight_of_dates_nodup hnodup (hmem x hx)).1,
    prod_events_eq (fun date => date ≤ b.dateKey) fun x hx =>
      (weight_of_dates_nodup hnodup (hmem x hx)).2⟩

/-- The two products of a bar together make the same number everywhere.

**Proof sketch.** Dividing by a product of factors is multiplying by their inverses. So both parts
are products of inverses, over the events up to the bar and after it, and these are all events. -/
lemma inverse_div_later (history : List SecurityBar) (xdxr : List XdXrInfo) (b : SecurityBar) :
    inverseFactorsUpTo history xdxr b / laterFactors history xdxr b =
      ((dividends xdxr).map fun x => 1 / x.factor history).prod := by
  have hinv : ∀ l : List XdXrInfo,
      (l.map fun x => 1 / x.factor history).prod = 1 / (l.map (XdXrInfo.factor history)).prod := by
    intro l
    induction l with
    | nil => simp
    | cons x l ih => rw [List.map_cons, List.prod_cons, ih, List.map_cons, List.prod_cons,
        one_div_mul_one_div]
  have hsplit := List.prod_map_filter_mul_prod_map_filter_not
    (fun x : XdXrInfo => x.dateKey ≤ b.dateKey) (fun x => 1 / x.factor history) (dividends xdxr)
  simp only [not_le, hinv ((dividends xdxr).filter fun x => b.dateKey < x.dateKey)] at hsplit
  rw [← hsplit, inverseFactorsUpTo, laterFactors, div_eq_mul_one_div]

/-! ## What the adjustment leaves alone -/

@[simp] lemma SecurityBar.unpriced_mapPrices (f : ℚ → ℚ) (b : SecurityBar) :
    (b.mapPrices f).unpriced = b.unpriced := rfl

@[simp] lemma Arithmetic.unpriced_applyFactor (A : Arithmetic) (b : SecurityBar) (m : ℚ) :
    (A.applyFactor b m).unpriced = b.unpriced := by
  unfold Arithmetic.applyFactor
  split <;> rfl

/-- The points of a sweep are those it was given. -/
lemma map_fst_sweep (fq : FqType) (w : Event → ℚ) (bars : List SecurityBar) (events : List Event)
    (c : ℚ) : (Sweep.sweep fq.due w bars events c).map Prod.fst = bars := by
  induction bars generalizing events c with
  | nil => rfl
  | cons b bars ih => simp [Sweep.sweep, ih]

/-- The loops change prices only.

**Proof sketch.** Each bar has a factor applied, which leaves the rest of it as it is, and the loops
keep the order of the bars: forward adjustment turns the list around twice. -/
lemma unpriced_sweepBars (A : Arithmetic) (fq : FqType) (factors : List (ℕ × ℚ))
    (events : List Event) (bars : List SecurityBar) :
    (sweepBars A fq factors events bars).map SecurityBar.unpriced =
      bars.map SecurityBar.unpriced := by
  have happly : ∀ l : List (SecurityBar × ℚ),
      l.map (SecurityBar.unpriced ∘ fun p => A.applyFactor p.1 p.2) =
        (l.map Prod.fst).map SecurityBar.unpriced := by
    intro l
    rw [List.map_map]
    exact List.map_congr_left fun p _ => A.unpriced_applyFactor p.1 p.2
  cases fq with
  | none => rfl
  | qfq =>
    simp only [sweepBars, List.map_reverse, List.map_map, happly, map_fst_sweep,
      List.reverse_reverse]
  | hfq => simp only [sweepBars, List.map_map, happly, map_fst_sweep]

/-- **The adjustment changes prices only**: it keeps the number of bars, their order, their dates,
volumes and amounts. -/
theorem unpriced_adjustSecurityBars (A : Arithmetic) (bars context : List SecurityBar)
    (xdxr : List XdXrInfo) (fq : FqType) :
    (adjustSecurityBars A bars context xdxr fq).map SecurityBar.unpriced =
      bars.map SecurityBar.unpriced := by
  unfold adjustSecurityBars
  split
  · rfl
  · simp only
    split
    · rfl
    · rw [List.map_map, ← unpriced_sweepBars A fq _ (dividendEvents xdxr) bars]
      exact List.map_congr_left fun b _ => b.unpriced_mapPrices A.round

/-- Without corporate actions that count, the bars stay as they are. -/
lemma adjustSecurityBars_of_no_dividends (A : Arithmetic) (bars context : List SecurityBar)
    (fq : FqType) (h : dividends xdxr = []) : adjustSecurityBars A bars context xdxr fq = bars := by
  have hevents : dividendEvents xdxr = [] := by
    rw [dividendEvents, show xdxr.filter (fun x => x.category = 1) = [] from h]
    rfl
  unfold adjustSecurityBars
  split
  · rfl
  · simp [hevents, factorMap]

/-- **The law of adjustment.** In exact arithmetic, for ascending bars, several of which may be of
one date, and corporate actions that count on different dates: forward, every bar is multiplied by
the product of the factors of the later corporate actions; backward, by the product of the inverse
factors of those up to it. The two multipliers have the same quotient at every bar. Whatever the
arithmetic, the adjustment changes prices only, and none without a direction or without a corporate
action that counts.

**Proof sketch.** The loops multiply by the weights of the due events (`adjustSecurityBars_exact`).
As dates do not repeat, the weight of an event is its own factor, and the closes are those of the
whole history (`findCloseBeforeEvent_eq`). -/
theorem adjustment_law (bars context : List SecurityBar) (xdxr : List XdXrInfo)
    (hbars : Ascending bars) (hdates : ((dividends xdxr).map XdXrInfo.dateKey).Nodup) :
    let history := context ++ bars
    (adjustSecurityBars exactArithmetic bars context xdxr .qfq =
      bars.map fun b => b.scale (laterFactors history xdxr b)) ∧
    (adjustSecurityBars exactArithmetic bars context xdxr .hfq =
      bars.map fun b => b.scale (inverseFactorsUpTo history xdxr b)) ∧
    (∃ quotient, ∀ b, laterFactors history xdxr b ≠ 0 ∧
      inverseFactorsUpTo history xdxr b / laterFactors history xdxr b = quotient) ∧
    (∀ A fq, (adjustSecurityBars A bars context xdxr fq).map SecurityBar.unpriced =
      bars.map SecurityBar.unpriced) ∧
    (∀ A, adjustSecurityBars A bars context xdxr .none = bars) ∧
    (dividends xdxr = [] → ∀ A fq, adjustSecurityBars A bars context xdxr fq = bars) := by
  intro history
  have hcloses : findCloseBeforeEvent bars context = closeBefore history :=
    funext fun date => findCloseBeforeEvent_eq hbars context date
  refine ⟨?_, ?_, ⟨_, fun b => ⟨?_, inverse_div_later history xdxr b⟩⟩,
    fun A fq => unpriced_adjustSecurityBars A bars context xdxr fq, ?_,
    fun h A fq => adjustSecurityBars_of_no_dividends A bars context fq h⟩
  · rw [adjustSecurityBars_exact hbars context xdxr (by decide), hcloses]
    exact List.map_congr_left fun b _ => by rw [(barMultiplier_eq_factors hdates history b).1]
  · rw [adjustSecurityBars_exact hbars context xdxr (by decide), hcloses]
    exact List.map_congr_left fun b _ => by rw [(barMultiplier_eq_factors hdates history b).2]
  · refine List.prod_ne_zero fun hzero => ?_
    obtain ⟨x, -, hx⟩ := List.mem_map.mp hzero
    exact x.factor_ne_zero history hx
  · intro A
    rw [adjustSecurityBars, if_pos (.inl rfl)]

/-- Two bars of one day between a dividend and bonus shares: forward they are multiplied by the
factor of the bonus shares, backward by the inverse factor of the dividend. -/
theorem adjustment_law_two_events :
    adjustSecurityBars exactArithmetic
        [flatBar 10 2024 1 1, flatBar 9 2024 1 2, flatBar 8 2024 1 2] []
        [bonus 2024 1 4 10, dividend 2024 1 2 10] .qfq =
      [(flatBar 10 2024 1 1).scale (9 / 10 * (1 / 2)), (flatBar 9 2024 1 2).scale (1 / 2),
        (flatBar 8 2024 1 2).scale (1 / 2)] ∧
    adjustSecurityBars exactArithmetic
        [flatBar 10 2024 1 1, flatBar 9 2024 1 2, flatBar 8 2024 1 2] []
        [bonus 2024 1 4 10, dividend 2024 1 2 10] .hfq =
      [flatBar 10 2024 1 1, (flatBar 9 2024 1 2).scale (10 / 9),
        (flatBar 8 2024 1 2).scale (10 / 9)] := by
  obtain ⟨hqfq, hhfq, -⟩ := adjustment_law
    [flatBar 10 2024 1 1, flatBar 9 2024 1 2, flatBar 8 2024 1 2] []
    [bonus 2024 1 4 10, dividend 2024 1 2 10] (by unfold Ascending; decide) (by decide)
  refine ⟨hqfq.trans ?_, hhfq.trans ?_⟩
  · decide +kernel
  · decide +kernel

/-! ## Newer bars -/

/-- The bars `newer` are all dated after the last of `bars`. -/
def LaterThan (bars newer : List SecurityBar) : Prop :=
  ∀ last, bars.getLast? = some last → ∀ n ∈ newer, last.dateKey < n.dateKey

/-- Two multipliers one after the other. -/
lemma SecurityBar.scale_scale (m m' : ℚ) (b : SecurityBar) :
    (b.scale m).scale m' = b.scale (m * m') := by
  simp only [SecurityBar.scale, SecurityBar.mapPrices, mul_assoc]

variable {newer : List SecurityBar}

/-- Every later bar is dated after every bar of an ascending list. -/
lemma LaterThan.lt (h : LaterThan bars newer) (hbars : Ascending bars) {b n : SecurityBar}
    (hb : b ∈ bars) (hn : n ∈ newer) : b.dateKey < n.dateKey := by
  obtain ⟨last, hlast⟩ :=
    Option.isSome_iff_exists.mp (List.getLast?_isSome.mpr (List.ne_nil_of_mem hb))
  exact (hbars.le_last hlast b hb).trans_lt (h last hlast n hn)

/-- **The loops treat the old bars as if there were no newer ones**, for given factors.

**Proof sketch.** Backward, the newer bars come last and change nothing before them. Forward they
come first, but an event that is due at a newer bar is due at all old ones, so
`Sweep.sweep_append_of_due` says that the old bars have the same products. -/
lemma sweepBars_append (A : Arithmetic) (fq : FqType) (factors : List (ℕ × ℚ))
    (events : List Event) (hbars : Ascending bars) (hnewer : LaterThan bars newer) :
    (sweepBars A fq factors events (bars ++ newer)).take bars.length =
      sweepBars A fq factors events bars := by
  cases fq with
  | none => exact List.take_left
  | qfq =>
    -- an event after a newer bar is after all old ones
    have hdue : ∀ n ∈ newer.reverse, ∀ e, FqType.qfq.due n e → ∀ b ∈ bars.reverse,
        FqType.qfq.due b e := by
      intro n hn e hdue b hb
      have hlt := hnewer.lt hbars (List.mem_reverse.mp hb) (List.mem_reverse.mp hn)
      simp only [FqType.due, decide_eq_true_eq] at hdue ⊢
      omega
    simp only [sweepBars, List.reverse_append, Sweep.sweep_append_of_due _ hdue, List.map_append]
    exact List.take_left' (by simp)
  | hfq =>
    simp only [sweepBars, Sweep.sweep_append, List.map_append]
    exact List.take_left' (by simp)

/-- Up to the last of the old bars, the close before an event does not depend on newer ones.

**Proof sketch.** The bars before a date no later than the last old bar are all old: a newer bar is
later than the last old one, so the `takeWhile` that finds the close stops before it. -/
lemma findCloseBeforeEvent_append (hnewer : LaterThan bars newer) {last : SecurityBar}
    (hlast : bars.getLast? = some last) {date : ℕ} (hdate : date ≤ last.dateKey) :
    findCloseBeforeEvent (bars ++ newer) context date =
      findCloseBeforeEvent bars context date := by
  have hnone : newer.takeWhile (fun b => b.dateKey < date) = [] := by
    cases newer with
    | nil => rfl
    | cons n newer =>
      have hlt := hnewer last hlast n List.mem_cons_self
      exact List.takeWhile_cons_of_neg (by simpa using by omega)
  have htake : (bars ++ newer).takeWhile (fun b => b.dateKey < date) =
      bars.takeWhile fun b => b.dateKey < date := by
    rw [List.takeWhile_append]
    split
    · rename_i hall
      rw [hnone, List.append_nil]
      exact ((List.takeWhile_prefix _).eq_of_length hall).symm
    · rfl
  unfold findCloseBeforeEvent
  rw [htake]

/-- In exact arithmetic the early returns make no difference: the adjustment is what the loops
compute.

**Proof sketch.** With no bars the loops return none. With no events or an empty table every weight
is one (`Sweep.sweep_of_weight_one`), and multiplying by one is the identity in exact arithmetic,
which is what the early returns give. -/
lemma adjustSecurityBars_eq_sweepBars (bars context : List SecurityBar) (xdxr : List XdXrInfo)
    {fq : FqType} (hfq : fq ≠ .none) :
    adjustSecurityBars exactArithmetic bars context xdxr fq =
      sweepBars exactArithmetic fq
        (factorMap (findCloseBeforeEvent bars context) (dividendEvents xdxr))
        (dividendEvents xdxr) bars := by
  have hnil : ∀ events, sweepBars exactArithmetic fq [] events bars = bars := by
    intro events
    have hone : ∀ e, fq.weight [] e = 1 := fun e => by cases fq <;> rfl
    have hscale : ∀ b, exactArithmetic.applyFactor b 1 = b := SecurityBar.scale_one
    cases fq with
    | none => rfl
    | qfq => simp [sweepBars, Sweep.sweep_of_weight_one hone, Function.comp_def, hscale]
    | hfq => simp [sweepBars, Sweep.sweep_of_weight_one hone, Function.comp_def, hscale]
  unfold adjustSecurityBars
  split
  · rename_i h
    rcases h with h | h | h
    · exact absurd h hfq
    · rw [List.isEmpty_iff.mp h]
      cases fq <;> rfl
    · rw [List.isEmpty_iff.mp h]
      exact (hnil _).symm
  · simp only
    split
    · rename_i hempty
      rw [List.isEmpty_iff.mp hempty, hnil]
    · exact List.map_id' _

/-- The old bars in the adjustment with newer ones: they are multiplied as ever, with the closes
that the newer bars make. -/
lemma adjust_append_take (hbars : Ascending bars) (hnewer : LaterThan bars newer)
    (context : List SecurityBar) (xdxr : List XdXrInfo) {fq : FqType} (hfq : fq ≠ .none) :
    (adjustSecurityBars exactArithmetic (bars ++ newer) context xdxr fq).take bars.length =
      bars.map fun b =>
        b.scale (barMultiplier fq xdxr (findCloseBeforeEvent (bars ++ newer) context) b) := by
  rw [adjustSecurityBars_eq_sweepBars _ context xdxr hfq, sweepBars_append _ _ _ _ hbars hnewer]
  cases fq with
  | none => exact absurd rfl hfq
  | qfq => exact sweepBars_qfq exactArithmetic hbars (dividendEvents_sorted xdxr) _
  | hfq => exact sweepBars_hfq exactArithmetic hbars (dividendEvents_sorted xdxr) _

/-- **The adjustment of the old bars when newer ones arrive**, in exact arithmetic: backward it
stays the same; forward it changes by one factor for all of them.

**Proof sketch.** The closes before the events up to the last old bar are found among the old bars
and the context (`findCloseBeforeEvent_append`). Backward no other events are due at an old bar.
Forward the multiplier splits at the last old bar (`laterProduct_split`): the part up to it is the
same, and the rest is the same number for all old bars. -/
theorem adjust_append_stable (bars newer context : List SecurityBar) (xdxr : List XdXrInfo)
    (hbars : Ascending bars) (hnewer : LaterThan bars newer) :
    (adjustSecurityBars exactArithmetic (bars ++ newer) context xdxr .hfq).take bars.length =
      adjustSecurityBars exactArithmetic bars context xdxr .hfq ∧
    ∃ factor, factor ≠ 0 ∧
      (adjustSecurityBars exactArithmetic (bars ++ newer) context xdxr .qfq).take bars.length =
        (adjustSecurityBars exactArithmetic bars context xdxr .qfq).map
          (SecurityBar.scale factor) := by
  rw [adjust_append_take hbars hnewer context xdxr (by decide),
    adjust_append_take hbars hnewer context xdxr (by decide),
    adjustSecurityBars_exact hbars context xdxr (by decide),
    adjustSecurityBars_exact hbars context xdxr (by decide)]
  cases hlast : bars.getLast? with
  | none =>
    rw [List.getLast?_eq_none_iff.mp hlast]
    exact ⟨rfl, 1, one_ne_zero, rfl⟩
  | some last =>
    have hsame : ∀ date ≤ last.dateKey, findCloseBeforeEvent (bars ++ newer) context date =
        findCloseBeforeEvent bars context date := fun date hdate =>
      findCloseBeforeEvent_append hnewer hlast hdate
    have hle := hbars.le_last hlast
    refine ⟨List.map_congr_left fun b hb => congrArg b.scale ?_, ?_⟩
    · exact earlierProduct_congr fun date hdate => hsame date (hdate.trans (hle b hb))
    · let c := findCloseBeforeEvent bars context
      let c' := findCloseBeforeEvent (bars ++ newer) context
      have hc : laterProduct xdxr c last.dateKey ≠ 0 := prod_weight_ne_zero _ _ _
      have hc' : laterProduct xdxr c' last.dateKey ≠ 0 := prod_weight_ne_zero _ _ _
      refine ⟨laterProduct xdxr c' last.dateKey / laterProduct xdxr c last.dateKey,
        div_ne_zero hc' hc, ?_⟩
      rw [List.map_map]
      refine List.map_congr_left fun b hb => ?_
      have hbetween : betweenProduct .qfq xdxr c' b.dateKey last.dateKey =
          betweenProduct .qfq xdxr c b.dateKey last.dateKey :=
        betweenProduct_congr .qfq fun date _ hupTo => hsame date hupTo
      rw [Function.comp_apply, SecurityBar.scale_scale]
      refine congrArg b.scale ?_
      rw [barMultiplier_qfq, barMultiplier_qfq, laterProduct_split xdxr c' (hle b hb),
        laterProduct_split xdxr c (hle b hb), hbetween, mul_assoc, mul_div_cancel₀]
      exact hc

/-- A bar arrives, and a dividend after it is known: backward the old bar stays, forward it is
multiplied by one more factor. -/
theorem adjust_append_stable_dividend :
    (adjustSecurityBars exactArithmetic ([flatBar 10 2024 1 1] ++ [flatBar 12 2024 1 3]) []
        [dividend 2024 1 4 10] .hfq).take 1 =
      adjustSecurityBars exactArithmetic [flatBar 10 2024 1 1] [] [dividend 2024 1 4 10] .hfq ∧
    ∃ factor, factor ≠ 0 ∧
      (adjustSecurityBars exactArithmetic ([flatBar 10 2024 1 1] ++ [flatBar 12 2024 1 3]) []
        [dividend 2024 1 4 10] .qfq).take 1 =
        (adjustSecurityBars exactArithmetic [flatBar 10 2024 1 1] [] [dividend 2024 1 4 10]
          .qfq).map (SecurityBar.scale factor) :=
  adjust_append_stable [flatBar 10 2024 1 1] [flatBar 12 2024 1 3] [] [dividend 2024 1 4 10]
    (List.pairwise_singleton _ _) fun last hlast n hn => by
      obtain rfl := Option.some.inj hlast
      obtain rfl := List.mem_singleton.mp hn
      decide

end Tdxrs
