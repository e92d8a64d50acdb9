import Mathlib.Algebra.BigOperators.Ring.List
import Tdxrs.Library.Window
import Tdxrs.Protocol.Adjuster

set_option relaxedAutoImplicit false
set_option autoImplicit false

/-!
# Multipliers and closes

How the multiplier of a bar depends on the closes before events. An event weighs what the close
before its own date makes of it, so that two ways to find closes which agree on the due events give
the same multiplier, and the multiplier of a bar splits at any later date into the weights up to
that date and the product of the later factors.

## Main definitions

* `Tdxrs.laterProduct` — the product of the accepted factors dated after a day.
* `Tdxrs.earlierProduct` — the product of their inverses up to a day.
* `Tdxrs.betweenProduct` — the product of the weights between two days.

## Main results

* `Tdxrs.weight_congr`, `Tdxrs.weight_ne_zero` — the weight of an event.
* `Tdxrs.barMultiplier_congr` — closes that agree on the due events.
* `Tdxrs.laterProduct_split`, `Tdxrs.earlierProduct_split` — the factors split at a date.
* `Tdxrs.closeBefore_append` — the close before an event in a history cut in two.
-/

namespace Tdxrs

open Window

/-! ## Slices of ascending histories -/

/-- Parts of an ascending history are ascending. -/
lemma Ascending.slice {history : List SecurityBar} (h : Ascending history) (start count : ℕ) :
    Ascending (slice history start count) :=
  List.Pairwise.sublist (slice_sublist history start count) h

/-- In an ascending list every bar is dated on or before the last one. -/
lemma Ascending.le_last {bars : List SecurityBar} (h : Ascending bars) {last : SecurityBar}
    (hlast : bars.getLast? = some last) : ∀ b ∈ bars, b.dateKey ≤ last.dateKey := by
  obtain ⟨init, rfl⟩ := List.getLast?_eq_some_iff.mp hlast
  intro b hb
  rcases List.mem_append.mp hb with hb | hb
  · exact (List.pairwise_append.mp h).2.2 b hb last List.mem_cons_self
  · rw [List.mem_singleton.mp hb]

/-- The bars of a history that are newer than a call's last bar are dated on or after it. -/
lemma Ascending.last_le_newer {history : List SecurityBar} (hasc : Ascending history)
    {start count : ℕ} {last : SecurityBar}
    (hlast : (Window.slice history start count).getLast? = some last) :
    ∀ b ∈ history.rtake start, last.dateKey ≤ b.dateKey := by
  intro b hb
  have hcut := rdrop_append_rtake history start
  rw [← hcut] at hasc
  refine (List.pairwise_append.mp hasc).2.2 last ?_ b hb
  exact List.mem_of_mem_drop (List.mem_of_getLast? hlast)

/-! ## Closes before events in cut histories -/

/-- The close before an event in a history cut in two is found in the newer part, if it has a bar
before the event, and else in the older part. -/
theorem closeBefore_append (older newer : List SecurityBar) (date : ℕ) :
    closeBefore (older ++ newer) date = (closeBefore newer date).or (closeBefore older date) := by
  unfold closeBefore
  rw [List.filter_append, List.getLast?_append]
  cases (newer.filter fun b => b.dateKey < date).getLast? <;> simp

/-- There is no close before an event exactly when all bars are dated on or after it. -/
lemma closeBefore_eq_none_iff {history : List SecurityBar} {date : ℕ} :
    closeBefore history date = none ↔ ∀ b ∈ history, date ≤ b.dateKey := by
  simp [closeBefore]

/-- Bars dated on or after the event do not matter at the newer end. -/
lemma closeBefore_append_of_le {older newer : List SecurityBar} {date : ℕ}
    (h : ∀ b ∈ newer, date ≤ b.dateKey) :
    closeBefore (older ++ newer) date = closeBefore older date := by
  rw [closeBefore_append, closeBefore_eq_none_iff.mpr h, Option.none_or]

/-- Bars newer than a slice do not matter for an event up to the slice's last bar. -/
lemma closeBefore_rdrop {history : List SecurityBar} (hasc : Ascending history)
    {start count date : ℕ} {last : SecurityBar}
    (hlast : (slice history start count).getLast? = some last) (hdate : date ≤ last.dateKey) :
    closeBefore (history.rdrop start) date = closeBefore history date := by
  have hnewer : ∀ b ∈ history.rtake start, date ≤ b.dateKey := fun b hb =>
    hdate.trans (hasc.last_le_newer hlast b hb)
  conv_rhs => rw [← rdrop_append_rtake history start]
  exact (closeBefore_append_of_le hnewer).symm

/-- A newer part with a bar before the event decides. -/
lemma closeBefore_append_of_lt {older newer : List SecurityBar} {date : ℕ}
    (h : ∃ b ∈ newer, b.dateKey < date) :
    closeBefore (older ++ newer) date = closeBefore newer date := by
  rw [closeBefore_append]
  cases hnewer : closeBefore newer date with
  | none =>
    obtain ⟨b, hb, hlt⟩ := h
    exact absurd (closeBefore_eq_none_iff.mp hnewer b hb) (by omega)
  | some c => rfl

/-! ## The weight of an event -/

variable {c c' : ℕ → Option ℚ}

/-- The accepted factors of the events of one date depend on the close before that date only. -/
lemma lookup_congr (events : List Event) {date : ℕ} (h : c date = c' date) :
    (factorMap c events).lookup date = (factorMap c' events).lookup date := by
  rw [lookup_factorMap, lookup_factorMap]
  congr 1
  refine List.filterMap_congr fun e he => ?_
  have hdate : e.1 = date := by simpa using (List.mem_filter.mp he).2
  simp only [acceptedFactor, hdate, h]

/-- **The weight of an event** is what the close before its own date makes of it. -/
theorem weight_congr (fq : FqType) (events : List Event) {e : Event} (h : c e.1 = c' e.1) :
    fq.weight (factorMap c events) e = fq.weight (factorMap c' events) e := by
  unfold FqType.weight
  rw [lookup_congr events h]

/-- A factor in the table does not count as zero. -/
lemma lookup_ne_zero {events : List Event} {date : ℕ} {factor : ℚ}
    (h : (factorMap c events).lookup date = some factor) : factor ≠ 0 := by
  rw [lookup_factorMap] at h
  obtain ⟨e, -, hacc⟩ := List.mem_filterMap.mp (List.mem_of_getLast? h)
  obtain ⟨p, -, hp⟩ := Option.bind_eq_some_iff.mp hacc
  split at hp
  · cases hp
  · rename_i hsmall
    rw [← Option.some.inj hp]
    rintro hzero
    rw [hzero, abs_zero] at hsmall
    exact hsmall (by norm_num [factorEpsilon])

/-- No event weighs zero. -/
lemma weight_ne_zero (fq : FqType) (events : List Event) (e : Event) :
    fq.weight (factorMap c events) e ≠ 0 := by
  unfold FqType.weight
  split
  · rename_i factor hfactor
    exact lookup_ne_zero hfactor
  · rename_i factor hfactor
    exact one_div_ne_zero (lookup_ne_zero hfactor)
  · exact one_ne_zero

/-- A product of weights is not zero. -/
lemma prod_weight_ne_zero (fq : FqType) (events due : List Event) :
    (due.map (fq.weight (factorMap c events))).prod ≠ 0 := by
  refine List.prod_ne_zero fun hzero => ?_
  obtain ⟨e, -, he⟩ := List.mem_map.mp hzero
  exact weight_ne_zero fq events e he

/-- Closes that agree before the due events give a bar the same multiplier. -/
theorem barMultiplier_congr {fq : FqType} {xdxr : List XdXrInfo} {b : SecurityBar}
    (h : ∀ e ∈ dividendEvents xdxr, fq.due b e → c e.1 = c' e.1) :
    barMultiplier fq xdxr c b = barMultiplier fq xdxr c' b := by
  unfold barMultiplier multiplier
  congr 1
  refine List.map_congr_left fun e he => ?_
  obtain ⟨hmem, hdue⟩ := List.mem_filter.mp he
  exact weight_congr fq _ (h e hmem hdue)

/-! ## The product of the later factors -/

/-- The product of the accepted factors of the events dated after a day, for given closes before
events. -/
def laterProduct (xdxr : List XdXrInfo) (c : ℕ → Option ℚ) (date : ℕ) : ℚ :=
  (((dividendEvents xdxr).filter fun e => date < e.1).map
    (FqType.qfq.weight (factorMap c (dividendEvents xdxr)))).prod

/-- The product of the weights of the events dated up to a day, for given closes before events. -/
def earlierProduct (xdxr : List XdXrInfo) (c : ℕ → Option ℚ) (date : ℕ) : ℚ :=
  (((dividendEvents xdxr).filter fun e => e.1 ≤ date).map
    (FqType.hfq.weight (factorMap c (dividendEvents xdxr)))).prod

/-- The product of the weights of the events after one day and up to another. -/
def betweenProduct (fq : FqType) (xdxr : List XdXrInfo) (c : ℕ → Option ℚ) (date upTo : ℕ) : ℚ :=
  (((dividendEvents xdxr).filter fun e => date < e.1 ∧ e.1 ≤ upTo).map
    (fq.weight (factorMap c (dividendEvents xdxr)))).prod

/-- Forward, a bar is multiplied by the later factors. -/
lemma barMultiplier_qfq (xdxr : List XdXrInfo) (c : ℕ → Option ℚ) (b : SecurityBar) :
    barMultiplier .qfq xdxr c b = laterProduct xdxr c b.dateKey := rfl

/-- Backward, a bar is multiplied by the inverse factors up to it. -/
lemma barMultiplier_hfq (xdxr : List XdXrInfo) (c : ℕ → Option ℚ) (b : SecurityBar) :
    barMultiplier .hfq xdxr c b = earlierProduct xdxr c b.dateKey := rfl

/-- **The later factors split** at a later date. -/
theorem laterProduct_split (xdxr : List XdXrInfo) (c : ℕ → Option ℚ) {date upTo : ℕ}
    (h : date ≤ upTo) :
    laterProduct xdxr c date =
      betweenProduct .qfq xdxr c date upTo * laterProduct xdxr c upTo := by
  unfold laterProduct betweenProduct
  rw [← List.prod_map_filter_mul_prod_map_filter_not (fun e : Event => e.1 ≤ upTo),
    List.filter_filter, List.filter_filter]
  congr 3
  · refine List.filter_congr fun e _ => ?_
    simp only [Bool.decide_and, Bool.and_comm]
  · refine List.filter_congr fun e _ => ?_
    simp only [← Bool.decide_and, decide_eq_decide]
    omega

/-- **The earlier factors split** at an earlier date. -/
theorem earlierProduct_split (xdxr : List XdXrInfo) (c : ℕ → Option ℚ) {date upTo : ℕ}
    (h : date ≤ upTo) :
    earlierProduct xdxr c upTo =
      earlierProduct xdxr c date * betweenProduct .hfq xdxr c date upTo := by
  unfold earlierProduct betweenProduct
  rw [← List.prod_map_filter_mul_prod_map_filter_not (fun e : Event => e.1 ≤ date),
    List.filter_filter, List.filter_filter]
  congr 3
  · refine List.filter_congr fun e _ => ?_
    simp only [← Bool.decide_and, decide_eq_decide]
    omega
  · refine List.filter_congr fun e _ => ?_
    simp only [← Bool.decide_and, decide_eq_decide]
    omega

/-- The factors between two dates are not zero. -/
lemma betweenProduct_ne_zero (fq : FqType) (xdxr : List XdXrInfo) (c : ℕ → Option ℚ)
    (date upTo : ℕ) : betweenProduct fq xdxr c date upTo ≠ 0 := prod_weight_ne_zero _ _ _

/-- The factors between two dates depend on the closes between them. -/
lemma betweenProduct_congr {xdxr : List XdXrInfo} {date upTo : ℕ} (fq : FqType)
    (h : ∀ d, date < d → d ≤ upTo → c d = c' d) :
    betweenProduct fq xdxr c date upTo = betweenProduct fq xdxr c' date upTo := by
  unfold betweenProduct
  congr 1
  refine List.map_congr_left fun e he => ?_
  obtain ⟨hlow, hhigh⟩ := of_decide_eq_true (List.mem_filter.mp he).2
  exact weight_congr fq _ (h e.1 hlow hhigh)

/-- The factors up to a date depend on the closes up to it. -/
lemma earlierProduct_congr {xdxr : List XdXrInfo} {date : ℕ} (h : ∀ d ≤ date, c d = c' d) :
    earlierProduct xdxr c date = earlierProduct xdxr c' date := by
  unfold earlierProduct
  congr 1
  refine List.map_congr_left fun e he => weight_congr .hfq _ (h e.1 ?_)
  exact of_decide_eq_true (List.mem_filter.mp he).2

/-! ## Bars under a multiplier -/

/-- All prices of a bar are zero. -/
def SecurityBar.Priceless (b : SecurityBar) : Prop :=
  b.open = 0 ∧ b.high = 0 ∧ b.low = 0 ∧ b.close = 0

/-- Two multipliers make the same bar exactly when they are the same or the bar has no prices.

**Proof sketch.** Each of the four prices is multiplied, and a product by two numbers is the same
exactly if these are the same or the price is zero. -/
lemma SecurityBar.scale_eq_scale_iff {b : SecurityBar} {m m' : ℚ} :
    b.scale m = b.scale m' ↔ b.Priceless ∨ m = m' := by
  unfold SecurityBar.Priceless
  constructor
  · intro h
    have hopen := congrArg SecurityBar.open h
    have hhigh := congrArg SecurityBar.high h
    have hlow := congrArg SecurityBar.low h
    have hclose := congrArg SecurityBar.close h
    simp only [SecurityBar.scale, SecurityBar.mapPrices, mul_eq_mul_left_iff]
      at hopen hhigh hlow hclose
    tauto
  · rintro (⟨hopen, hhigh, hlow, hclose⟩ | rfl)
    · simp [SecurityBar.scale, SecurityBar.mapPrices, hopen, hhigh, hlow, hclose]
    · rfl

end Tdxrs
