import Tdxrs.Net.AuxiliaryFailure

set_option relaxedAutoImplicit false
set_option autoImplicit false

/-!
# The table of factors

`calc_fq_factors` of `src/python/py_client.rs`: the daily bars of a call, the corporate actions and
up to 30 pages of older bars, from which the list of factors is calculated and shown. In contrast
to an adjusted K-line call, an error of the second request is an error of the call; a page of
context that fails still ends the context without one.

The table that is meant is that of all bars up to the newest one of the call.

## Main definitions

* `Tdxrs.HqEnv.calcFqFactors` — the call.
* `Tdxrs.HqEnv.FactorRequests` — what its requests are answered with.
* `Tdxrs.fullTable` — the table of all bars.
* `Tdxrs.TableCovers` — when the close before an event is found.

## Main results

* `Tdxrs.factor_table_exact` — the items of the table are those of the table of all bars, and none
  is missing exactly when the events are covered.
* `Tdxrs.tableCovers_iff_of_touching` — where bars and context touch, only the earliest event can
  be missed.
-/

namespace Tdxrs

open Window

variable {σ : Type}

/-! ## The call -/

/-- The pages of context for the list of factors. -/
def factorPages : ℕ := 30

/-- The list of factors of a stock, from its daily bars. -/
def HqEnv.calcFqFactors (env : HqEnv σ) (market : UInt8) (code : String) (start count : ℕ)
    (s : HqState σ) : Except TdxError FqFactorResult × HqState σ :=
  match env.getSecurityBars 4 market code start count 0 s with
  | (.error e, s) => (.error e, s)
  | (.ok bars, s) =>
    match env.getXdxrInfo market code s.world with
    | (.error e, w) => (.error e, { s with world := w })
    | (.ok xdxr, w) =>
      match env.fetchContextForFactors 4 market code bars xdxr w with
      | (.error e, w) => (.error e, { s with world := w })
      | (.ok context, w) => (.ok (Tdxrs.calcFqFactors xdxr bars context), { s with world := w })

/-- The requests of a call are answered with the slice asked for, the corporate actions, and the
pages of the history, where any of them may fail, the `j`-th page where `fails j`. -/
def HqEnv.FactorRequests (env : HqEnv σ) (market : UInt8) (code : String)
    (history : List SecurityBar) (xdxr : List XdXrInfo) (fails : ℕ → Bool) (start count : ℕ)
    (s : HqState σ) : Prop :=
  match env.getSecurityBars 4 market code start count 0 s with
  | (.error _, _) => True
  | (.ok bars, s) => bars = slice history start count ∧
    match env.getXdxrInfo market code s.world with
    | (.error _, _) => True
    | (.ok events, w) => events = xdxr ∧
        PagesFollow env.sendAndRecvLimited (parseSecurityBars env.maxValidYear 4) 4 market code
          history fails factorPages 0 w

/-- The context of the bars of a call. -/
def factorContext (history : List SecurityBar) (xdxr : List XdXrInfo) (fails : ℕ → Bool)
    (bars : List SecurityBar) : List SecurityBar :=
  match bars, HqEnv.earliestEvent xdxr with
  | first :: _, some earliest =>
    if first.dateKey ≤ earliest then []
    else contextPages history earliest fails factorPages 0 []
  | _, _ => []

/-- The table of all bars up to the newest one of a call. -/
def fullTable (history : List SecurityBar) (xdxr : List XdXrInfo) (start : ℕ) : FqFactorResult :=
  calcFqFactors xdxr (history.rdrop start) []

/-- What a call returns: an error, or the table of its bars and its context.

**Proof sketch.** Bars, corporate actions and context are fetched in this order, and an error of one
of them is the error of the call. The context that is fetched is `factorContext`: none without bars
or without events, and otherwise the pages from the 800th bar on (`fetchContextBars_eq`). -/
lemma calcFqFactors_eq {env : HqEnv σ} {market : UInt8} {code : String}
    {history : List SecurityBar} {xdxr : List XdXrInfo} {fails : ℕ → Bool} {start count : ℕ}
    {s : HqState σ} {table : FqFactorResult}
    (hreq : env.FactorRequests market code history xdxr fails start count s)
    (h : (env.calcFqFactors market code start count s).1 = .ok table) :
    table = calcFqFactors xdxr (slice history start count)
      (factorContext history xdxr fails (slice history start count)) := by
  unfold HqEnv.FactorRequests at hreq
  unfold HqEnv.calcFqFactors at h
  split at h
  · cases h
  · rename_i bars s₁ hbars
    simp only [hbars] at hreq
    obtain ⟨rfl, hreq⟩ := hreq
    split at h
    · cases h
    · rename_i events w hevents
      simp only [hevents] at hreq
      obtain ⟨rfl, hpages⟩ := hreq
      have hcontext : (env.fetchContextForFactors 4 market code (slice history start count) events
          w).1 = .ok (factorContext history events fails (slice history start count)) := by
        unfold HqEnv.fetchContextForFactors factorContext
        cases hslice : slice history start count with
        | nil => simp [HqEnv.fetchContextBars]
        | cons first rest =>
          cases hearliest : HqEnv.earliestEvent events with
          | none => simp [HqEnv.fetchContextBars, hearliest]
          | some earliest => exact congrArg Except.ok (fetchContextBars_eq hpages hearliest)
      split at h
      · rename_i e w' herror
        rw [herror] at hcontext
        cases hcontext
      · rename_i context w' hok
        rw [hok] at hcontext
        rw [← Except.ok.inj h, Except.ok.inj hcontext]

/-! ## Tables and closes -/

section

variable {c c' : ℕ → Option ℚ} {events : List Event}

/-- A table with fewer closes has fewer items, and no others.

**Proof sketch.** Induction on the events: an event with a close in the first table has the same
close in the second, and so the same item. -/
lemma factorItems_sublist (h : ∀ e ∈ events, ∀ p, c e.1 = some p → c' e.1 = some p) :
    (events.filterMap (factorItem c)).Sublist (events.filterMap (factorItem c')) := by
  induction events with
  | nil => exact List.Sublist.refl _
  | cons e rest ih =>
    have hrest := ih fun e' he' => h e' (List.mem_cons_of_mem e he')
    cases hclose : c e.1 with
    | none =>
      have hnone : factorItem c e = none := by simp [factorItem, hclose]
      rw [List.filterMap_cons_none hnone, List.filterMap_cons]
      split
      · exact hrest
      · exact hrest.cons _
    | some p =>
      have hsame : factorItem c' e = factorItem c e := by
        simp [factorItem, hclose, h e List.mem_cons_self p hclose]
      rw [List.filterMap_cons, List.filterMap_cons, hsame]
      split
      · exact hrest
      · exact hrest.cons_cons _

/-- An item of a table shows the close before its date. -/
lemma close_of_mem_factorItems {item : FqFactorItem} (h : item ∈ events.filterMap (factorItem c)) :
    c item.date = some item.closeBefore := by
  obtain ⟨e, -, hitem⟩ := List.mem_filterMap.mp h
  obtain ⟨p, hp, rfl⟩ := Option.map_eq_some_iff.mp hitem
  exact hp

/-- An event with a close before it has an item. -/
lemma factorItems_of_close {e : Event} (he : e ∈ events) {p : ℚ} (hp : c e.1 = some p) :
    ∃ item ∈ events.filterMap (factorItem c), item.date = e.1 ∧ item.closeBefore = p := by
  have hitem : factorItem c e =
      some ⟨e.1, p, calcQfqFactor p e.2, hfqOfQfq (calcQfqFactor p e.2), e.2⟩ := by
    simp [factorItem, hp]
  exact ⟨_, List.mem_filterMap.mpr ⟨e, he, hitem⟩, rfl, rfl⟩

/-- Tables are the same exactly when the closes before the events are.

**Proof sketch.** An item of a table names the date of its event and the close before it. So a close
that the one table has stands in an item, this is an item of the other table too, and its date has
the same close there. -/
lemma factorItems_eq_iff :
    events.filterMap (factorItem c) = events.filterMap (factorItem c') ↔
      ∀ e ∈ events, c e.1 = c' e.1 := by
  constructor
  · intro h e he
    cases hc : c e.1 with
    | some p =>
      obtain ⟨item, hmem, hdate, rfl⟩ := factorItems_of_close he hc
      rw [h] at hmem
      rw [← hdate, close_of_mem_factorItems hmem]
    | none =>
      cases hc' : c' e.1 with
      | none => rfl
      | some p =>
        obtain ⟨item, hmem, hdate, -⟩ := factorItems_of_close he hc'
        rw [← h] at hmem
        have hclose := close_of_mem_factorItems hmem
        rw [hdate, hc] at hclose
        cases hclose
  · intro h
    refine List.filterMap_congr fun e he => ?_
    simp only [factorItem, h e he]

end

/-- The dates of the events are those of the corporate actions of category 1. -/
lemma forall_dividendEvents_iff {xdxr : List XdXrInfo} {P : ℕ → Prop} :
    (∀ e ∈ dividendEvents xdxr, P e.1) ↔ ∀ x ∈ xdxr, x.category = 1 → P x.dateKey := by
  simp only [dividendEvents, List.mem_insertionSort, List.mem_map, List.mem_filter,
    decide_eq_true_eq, forall_exists_index, and_imp]
  constructor
  · intro h x hx hcategory
    exact h _ x hx hcategory rfl
  · rintro h e x hx hcategory rfl
    exact h x hx hcategory

/-- The earliest event is one of the corporate actions. -/
lemma mem_earliestEvent {xdxr : List XdXrInfo} {earliest : ℕ}
    (h : HqEnv.earliestEvent xdxr = some earliest) :
    ∃ x ∈ xdxr, x.category = 1 ∧ x.dateKey = earliest := by
  obtain ⟨x, hx, hdate⟩ := List.mem_map.mp (List.min?_eq_some_iff.mp h).1
  rw [List.mem_filter, decide_eq_true_eq] at hx
  exact ⟨x, hx.1, hx.2, hdate⟩

/-- Where there are events there is an earliest one. -/
lemma exists_earliestEvent {xdxr : List XdXrInfo} {x : XdXrInfo} (hx : x ∈ xdxr)
    (hcategory : x.category = 1) :
    ∃ earliest, HqEnv.earliestEvent xdxr = some earliest ∧ earliest ≤ x.dateKey := by
  cases hearliest : HqEnv.earliestEvent xdxr with
  | some earliest => exact ⟨earliest, rfl, earliestEvent_le hearliest hx hcategory⟩
  | none =>
    have hmem : x.dateKey ∈ (xdxr.filter fun x => x.category = 1).map XdXrInfo.dateKey :=
      List.mem_map.mpr ⟨x, by simp [hx, hcategory], rfl⟩
    rw [HqEnv.earliestEvent, List.min?_eq_none_iff] at hearliest
    rw [hearliest] at hmem
    cases hmem

/-- Two lists of bars make the same table exactly when they have the same closes before the
events. -/
lemma calcFqFactors_eq_iff {xdxr : List XdXrInfo} {bars context bars' context' : List SecurityBar} :
    calcFqFactors xdxr bars context = calcFqFactors xdxr bars' context' ↔
      ∀ x ∈ xdxr, x.category = 1 →
        findCloseBeforeEvent bars context x.dateKey =
          findCloseBeforeEvent bars' context' x.dateKey := by
  rw [← forall_dividendEvents_iff (P := fun date =>
    findCloseBeforeEvent bars context date = findCloseBeforeEvent bars' context' date),
    ← factorItems_eq_iff]
  constructor
  · exact fun h => congrArg FqFactorResult.factors h
  · intro h
    simp only [calcFqFactors, h]

/-! ## The closes that are found -/

variable {history : List SecurityBar} {xdxr : List XdXrInfo} {start count date : ℕ}
  {first : SecurityBar} {rest : List SecurityBar}

/-- The bars of a call that begin on or after an event, and those around them, do not matter for
the close before it.

**Proof sketch.** The newest `start + count` bars begin with the first bar of the call and ascend,
so none of them is before the event. The bars that are older than the newest `k` are those older
than all of these, and then bars that do not matter. -/
lemma closeBefore_rdrop_of_le (hasc : Ascending history)
    (hcons : slice history start count = first :: rest) (hdate : date ≤ first.dateKey) {k : ℕ}
    (hk : k ≤ start + count) :
    closeBefore (history.rdrop k) date = closeBefore (history.rdrop (start + count)) date := by
  have hnewest : slice history 0 (start + count) = first :: (rest ++ slice history 0 start) := by
    have hjoin := slice_append history 0 start count
    rw [Nat.zero_add, hcons] at hjoin
    exact hjoin.symm
  have hfirst := hasc.slice 0 (start + count)
  rw [hnewest] at hfirst
  have hlater : ∀ b ∈ slice history 0 (start + count), date ≤ b.dateKey := by
    rw [hnewest]
    exact fun b hb => hdate.trans (hfirst.head_le b hb)
  have hjoin := slice_append history 0 k (start + count - k)
  have hcut := rdrop_append_slice history k (start + count - k)
  rw [Nat.zero_add, Nat.add_sub_cancel' hk] at hjoin
  rw [Nat.add_sub_cancel' hk] at hcut
  rw [← hcut]
  exact closeBefore_append_of_le fun b hb =>
    hlater b (hjoin ▸ List.mem_append_left _ hb)

/-- The context holds the newest bars but 800. -/
lemma factorContext_eq_slice (history : List SecurityBar) (xdxr : List XdXrInfo)
    (fails : ℕ → Bool) (bars : List SecurityBar) :
    ∃ k, factorContext history xdxr fails bars = slice history maxKlineCount k := by
  have hnil : slice history maxKlineCount 0 = [] := slice_eq_nil_iff.mpr (.inl rfl)
  unfold factorContext
  split
  · split
    · exact ⟨0, hnil.symm⟩
    · rename_i earliest _ _
      obtain ⟨k, -, -, hshape, -⟩ := contextPages_shape history earliest fails factorPages 0
      rw [Nat.mul_zero, hnil] at hshape
      exact ⟨_, hshape⟩
  · exact ⟨0, hnil.symm⟩

/-- The closes of the table of all bars. -/
lemma find_fullTable (hasc : Ascending history) (start date : ℕ) :
    findCloseBeforeEvent (history.rdrop start) [] date =
      closeBefore (history.rdrop start) date := by
  have hasc' : Ascending (history.rdrop start) := hasc.sublist (List.take_sublist _ _)
  rw [findCloseBeforeEvent_eq hasc', List.nil_append]

/-- Where bars and context touch, the close that is found for an event is the one before it.

**Proof sketch.** If a bar of the call is before the event, its close is taken on both sides.
Otherwise it comes from the context, a slice that begins at the 800th bar; since the bars of the
call reach that far, no bar lies between the two, and those that both share are not before the
event. -/
lemma find_touching (hasc : Ascending history) (htouch : maxKlineCount ≤ start + count)
    (fails : ℕ → Bool) {p : ℚ}
    (hp : findCloseBeforeEvent (slice history start count)
      (factorContext history xdxr fails (slice history start count)) date = some p) :
    findCloseBeforeEvent (history.rdrop start) [] date = some p := by
  rw [findCloseBeforeEvent_eq (hasc.slice start count)] at hp
  rw [find_fullTable hasc]
  by_cases hbegin : ∃ b ∈ slice history start count, b.dateKey < date
  · rw [closeBefore_append_of_lt hbegin] at hp
    rwa [closeBefore_older hbegin]
  · have hwindow : ∀ b ∈ slice history start count, date ≤ b.dateKey := fun b hb =>
      Nat.le_of_not_lt fun hlt => hbegin ⟨b, hb, hlt⟩
    rw [closeBefore_append_of_le hwindow] at hp
    cases hcons : slice history start count with
    | nil => simp [hcons, factorContext, closeBefore] at hp
    | cons first rest =>
      obtain ⟨k, hk⟩ := factorContext_eq_slice history xdxr fails (slice history start count)
      rw [hk] at hp
      have hcontext : ∃ b ∈ slice history maxKlineCount k, b.dateKey < date := by
        by_contra hno
        rw [closeBefore_eq_none_iff.mpr fun b hb =>
          Nat.le_of_not_lt fun hlt => hno ⟨b, hb, hlt⟩] at hp
        cases hp
      have hdate : date ≤ first.dateKey := hwindow first (hcons ▸ List.mem_cons_self)
      rw [closeBefore_rdrop_of_le hasc hcons hdate (Nat.le_add_right start count),
        ← closeBefore_rdrop_of_le hasc hcons hdate htouch, closeBefore_older hcontext, hp]

/-- The close before an event is found: the bars of the call begin before it; or they begin after
the earliest event, no page of context begins exactly on this event, should it be the earliest one,
and the newest 800 bars have no close for it that the call is not given. -/
def TableCovers (history : List SecurityBar) (xdxr : List XdXrInfo) (start count date : ℕ) :
    Prop :=
  ∃ first earliest, (slice history start count).head? = some first ∧
    HqEnv.earliestEvent xdxr = some earliest ∧
    (first.dateKey < date ∨
      earliest < first.dateKey ∧ ¬(date = earliest ∧ PageBeginsOn history earliest) ∧
        closeBefore (history.rdrop maxKlineCount) date = closeBefore (history.rdrop start) date)

/-- **The close found for an event** without failures is the one before it exactly when the event
has no bar before it or is covered.

**Proof sketch.** If the bars of the call begin before the event, they decide. Else the bars, and
all that is newer, do not matter (`closeBefore_rdrop_of_le`), and the context decides
(`closeBefore_contextPages`), unless none is fetched because the bars begin on the event. -/
lemma find_iff_covers (hasc : Ascending history) {earliest : ℕ}
    (hearliest : HqEnv.earliestEvent xdxr = some earliest)
    (hreach : ReachesEarliest history earliest factorPages) (hle : earliest ≤ date) :
    findCloseBeforeEvent (slice history start count)
        (factorContext history xdxr (fun _ => false) (slice history start count)) date =
      findCloseBeforeEvent (history.rdrop start) [] date ↔
    ((∃ b ∈ history.rdrop start, b.dateKey < date) →
      TableCovers history xdxr start count date) := by
  rw [find_fullTable hasc, findCloseBeforeEvent_eq (hasc.slice start count)]
  have hnone : (¬ ∃ b ∈ history.rdrop start, b.dateKey < date) ↔
      closeBefore (history.rdrop start) date = none := by
    rw [closeBefore_eq_none_iff]
    push Not
    rfl
  cases hcons : slice history start count with
  | nil =>
    have hempty : closeBefore (factorContext history xdxr (fun _ => false) [] ++ []) date = none :=
      rfl
    have hcovers : ¬ TableCovers history xdxr start count date := by
      rintro ⟨first, -, hfirst, -⟩
      simp [hcons] at hfirst
    rw [hempty, eq_comm, ← hnone]
    simp only [hcovers, imp_false]
  | cons first rest =>
    have hcovers : TableCovers history xdxr start count date ↔ first.dateKey < date ∨
        earliest < first.dateKey ∧ ¬(date = earliest ∧ PageBeginsOn history earliest) ∧
          closeBefore (history.rdrop maxKlineCount) date =
            closeBefore (history.rdrop start) date := by
      simp [TableCovers, hcons, hearliest]
    rw [hcovers, ← hcons]
    by_cases hbegin : first.dateKey < date
    · have hwindow : ∃ b ∈ slice history start count, b.dateKey < date :=
        ⟨first, by simp [hcons], hbegin⟩
      rw [closeBefore_append_of_lt hwindow, closeBefore_older hwindow]
      simp [hbegin]
    · have hdate : date ≤ first.dateKey := Nat.le_of_not_lt hbegin
      have hwindow : ∀ b ∈ slice history start count, date ≤ b.dateKey := by
        have hfirst := hasc.slice start count
        rw [hcons] at hfirst ⊢
        exact fun b hb => hdate.trans (hfirst.head_le b hb)
      have hnewer : closeBefore history date = closeBefore (history.rdrop start) date := by
        have hall := closeBefore_rdrop_of_le hasc hcons hdate (Nat.zero_le _)
        rw [List.rdrop_zero] at hall
        rw [hall, closeBefore_rdrop_of_le hasc hcons hdate (Nat.le_add_right start count)]
      rw [closeBefore_append_of_le hwindow]
      by_cases hbefore : ∃ b ∈ history.rdrop start, b.dateKey < date
      · have hsome : closeBefore (history.rdrop start) date ≠ none := fun h => hnone.mpr h hbefore
        have hhistory : ∃ b ∈ history, b.dateKey < date := by
          obtain ⟨b, hb, hlt⟩ := hbefore
          exact ⟨b, List.mem_of_mem_take hb, hlt⟩
        simp only [hbefore, forall_const, hbegin, false_or]
        simp only [factorContext, hcons, hearliest]
        by_cases hno : first.dateKey ≤ earliest
        · rw [if_pos hno]
          exact iff_of_false (fun h => hsome h.symm) (by omega)
        · rw [if_neg hno]
          rcases closeBefore_contextPages hasc (by decide) hreach hle hhistory with
            ⟨hclose, hnot⟩ | ⟨hmissed, hon⟩
          · rw [hclose]
            exact ⟨fun h => ⟨by omega, hnot, h⟩, fun h => h.2.2⟩
          · rw [hmissed]
            exact iff_of_false (fun h => hsome h.symm) fun h => h.2.1 hon
      · obtain ⟨k, hk⟩ := factorContext_eq_slice history xdxr (fun _ => false)
          (slice history start count)
        rw [hnone.mp hbefore, closeBefore_eq_none_iff] at hnewer
        rw [hnone.mp hbefore, hk]
        refine iff_of_true (closeBefore_eq_none_iff.mpr fun b hb => ?_) fun h => absurd h hbefore
        exact hnewer b ((slice_sublist history maxKlineCount k).subset hb)

/-- **Where bars and context touch, only the earliest event can be missed**: when the bars of the
call or a page of context begin exactly on it.

**Proof sketch.** Since bars and context touch, the closes before an event are the same from any
page on (`closeBefore_rdrop_of_le`), so that of what `TableCovers` asks only the border is left: an
event that is not the earliest one lies behind some page that has been fetched, and the earliest one
is missed exactly if the bars of the call or a page begin on it. -/
theorem tableCovers_iff_of_touching (hasc : Ascending history) (hcount : 0 < count)
    (htouch : maxKlineCount ≤ start + count) :
    (∀ x ∈ xdxr, x.category = 1 → (∃ b ∈ history.rdrop start, b.dateKey < x.dateKey) →
        TableCovers history xdxr start count x.dateKey) ↔
      ∀ earliest, HqEnv.earliestEvent xdxr = some earliest →
        (∃ b ∈ history.rdrop start, b.dateKey < earliest) →
        ∃ first, (slice history start count).head? = some first ∧ first.dateKey ≠ earliest ∧
          (earliest < first.dateKey → ¬ PageBeginsOn history earliest) := by
  constructor
  · intro h earliest hearliest hbefore
    obtain ⟨x, hx, hcategory, rfl⟩ := mem_earliestEvent hearliest
    obtain ⟨first, earliest', hfirst, hsame, hcovers⟩ := h x hx hcategory hbefore
    obtain rfl := Option.some.inj (hsame.symm.trans hearliest)
    refine ⟨first, hfirst, ?_, fun hlt => ?_⟩
    · omega
    · exact fun hon => hcovers.elim (fun h => by omega) fun h => h.2.1 ⟨rfl, hon⟩
  · intro h x hx hcategory hbefore
    obtain ⟨earliest, hearliest, hle⟩ := exists_earliestEvent hx hcategory
    cases hcons : slice history start count with
    | nil =>
      obtain ⟨b, hb, -⟩ := hbefore
      have hlen := List.length_pos_of_mem hb
      rw [length_rdrop] at hlen
      rcases slice_eq_nil_iff.mp hcons with hzero | hshort
      · omega
      · omega
    | cons first rest =>
      refine ⟨first, earliest, by simp [hcons], hearliest, ?_⟩
      rcases Nat.lt_or_ge first.dateKey x.dateKey with hbegin | hdate
      · exact .inl hbegin
      · -- the event is dated before the bars of the call, and only the earliest one can be missed
        have hearly : x.dateKey = earliest →
            earliest ≠ first.dateKey ∧
              (earliest < first.dateKey → ¬ PageBeginsOn history earliest) := by
          intro hsame
          obtain ⟨first', hfirst, hne, hpage⟩ := h earliest hearliest (hsame ▸ hbefore)
          obtain rfl : first = first' := by simpa [hcons] using hfirst
          exact ⟨hne.symm, hpage⟩
        have hlt : earliest < first.dateKey := by
          by_contra hge
          exact (hearly (by omega)).1 (by omega)
        refine .inr ⟨hlt, fun hon => (hearly hon.1).2 hlt hon.2, ?_⟩
        rw [closeBefore_rdrop_of_le hasc hcons hdate htouch,
          closeBefore_rdrop_of_le hasc hcons hdate (Nat.le_add_right start count)]

/-! ## The table of a call -/

/-- The condition for a complete table, event by event. -/
def EventsCovered (history : List SecurityBar) (xdxr : List XdXrInfo) (start count : ℕ) : Prop :=
  ∀ x ∈ xdxr, x.category = 1 → (∃ b ∈ history.rdrop start, b.dateKey < x.dateKey) →
    TableCovers history xdxr start count x.dateKey

/-- **The table of factors.** For every call of `calc_fq_factors` that returns, whose requests are
answered from an ascending history: if its bars reach back to the context, every item is that of
the table of all bars, whatever pages of context fail. If no page fails and 30 pages reach past the
earliest event, the table is that of all bars exactly when each event that has a bar before it is
covered; and if the bars reach back to the context this is so unless the bars or a page of context
begin exactly on the earliest event.

**Proof sketch.** The call calculates the table of its bars and its context (`calcFqFactors_eq`).
Tables are compared close by close (`calcFqFactors_eq_iff`), and the closes are those of
`find_touching` and `find_iff_covers`. -/
theorem factor_table_exact {env : HqEnv σ} {market : UInt8} {code : String} {fails : ℕ → Bool}
    {s : HqState σ} {table : FqFactorResult} (hasc : Ascending history)
    (hreq : env.FactorRequests market code history xdxr fails start count s)
    (h : (env.calcFqFactors market code start count s).1 = .ok table) :
    (maxKlineCount ≤ start + count →
      table.factors.Sublist (fullTable history xdxr start).factors) ∧
    ((∀ j, fails j = false) →
      (∀ earliest, HqEnv.earliestEvent xdxr = some earliest →
        ReachesEarliest history earliest factorPages) →
      (table = fullTable history xdxr start ↔ EventsCovered history xdxr start count) ∧
      (0 < count → maxKlineCount ≤ start + count →
        (table = fullTable history xdxr start ↔
          ∀ earliest, HqEnv.earliestEvent xdxr = some earliest →
            (∃ b ∈ history.rdrop start, b.dateKey < earliest) →
            ∃ first, (slice history start count).head? = some first ∧
              first.dateKey ≠ earliest ∧
              (earliest < first.dateKey → ¬ PageBeginsOn history earliest)))) := by
  obtain rfl := calcFqFactors_eq hreq h
  refine ⟨fun htouch => factorItems_sublist fun e _ p hp => find_touching hasc htouch fails hp,
    fun hfails hreach => ?_⟩
  obtain rfl : fails = fun _ => false := funext hfails
  have hcovered : calcFqFactors xdxr (slice history start count)
        (factorContext history xdxr (fun _ => false) (slice history start count)) =
      fullTable history xdxr start ↔ EventsCovered history xdxr start count := by
    unfold fullTable EventsCovered
    rw [calcFqFactors_eq_iff]
    refine forall_congr' fun x => forall_congr' fun hx => forall_congr' fun hcategory => ?_
    obtain ⟨earliest, hearliest, hle⟩ := exists_earliestEvent hx hcategory
    exact find_iff_covers hasc hearliest (hreach earliest hearliest) hle
  refine ⟨hcovered, fun hcount htouch => hcovered.trans ?_⟩
  exact tableCovers_iff_of_touching hasc hcount htouch

/-- A server that answers by slices, without failures, answers the requests of a call. -/
lemma ServesSlices.factorRequests {env : HqEnv σ} {market : UInt8} {code : String}
    (hcode : ValidStockCode code)
    (hserve : ServesSlices env.trySendAndRecv (parseSecurityBars env.maxValidYear 4) 4 market code
      history)
    (hxdxr : ∀ w, ∃ w', env.getXdxrInfo market code w = (.ok xdxr, w')) (hstart : start ≤ 65535)
    (hcount : count ≤ 65535) (s : HqState σ) :
    env.FactorRequests market code history xdxr (fun _ => false) start count s ∧
      ∃ table, (env.calcFqFactors market code start count s).1 = .ok table := by
  obtain ⟨s', hraw, -⟩ := HqEnv.getSecurityBars_raw hcode hserve hstart hcount
    (HqEnv.OffsetsFit.refl s)
  obtain ⟨w, hevents⟩ := hxdxr s'.world
  unfold HqEnv.FactorRequests HqEnv.calcFqFactors HqEnv.fetchContextForFactors
  simp only [hraw, hevents]
  exact ⟨⟨trivial, trivial, hserve.limited.pagesFollow (by decide) w⟩, _, rfl⟩

/-- The table of the three days, with a dividend on the last of them. -/
theorem factor_table_exact_three :
    ∃ table, (threeDaysEnv.calcFqFactors 1 "600519" 0 800 ⟨(), []⟩).1 = .ok table ∧
      table = fullTable (barsOf 4 threeDays) [dividend 2024 1 4 10] 0 := by
  have hasc : Ascending (barsOf 4 threeDays) := by unfold Ascending; decide +kernel
  have hserve : ServesSlices threeDaysEnv.trySendAndRecv (parseSecurityBars 2036 4) 4 1 "600519"
      (barsOf 4 threeDays) := sliceEnv_serves threeDays_encodable _ _ _
  obtain ⟨hreq, table, htable⟩ : threeDaysEnv.FactorRequests 1 "600519" (barsOf 4 threeDays)
        [dividend 2024 1 4 10] (fun _ => false) 0 800 ⟨(), []⟩ ∧
      ∃ table, (threeDaysEnv.calcFqFactors 1 "600519" 0 800 ⟨(), []⟩).1 = .ok table :=
    hserve.factorRequests ⟨by rfl, by decide +kernel⟩ (fun w => ⟨w, rfl⟩) (by decide) (by decide) _
  have hreach : ∀ earliest, HqEnv.earliestEvent [dividend 2024 1 4 10] = some earliest →
      ReachesEarliest (barsOf 4 threeDays) earliest factorPages := fun _ _ =>
    .inl (by decide +kernel)
  have hexact := (factor_table_exact hasc hreq htable).2 (fun _ => rfl) hreach
  refine ⟨table, htable, (hexact.2 (by decide) (by decide)).mpr fun earliest hearliest _ => ?_⟩
  obtain rfl : 20240104 = earliest := Option.some.inj (hearliest ▸ (by decide +kernel))
  exact ⟨(flatRecord 10000 2024 1 2).bar 4, by decide +kernel, by decide +kernel,
    fun hlt => absurd hlt (by decide +kernel)⟩

end Tdxrs
