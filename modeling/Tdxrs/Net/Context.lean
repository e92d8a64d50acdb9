import Mathlib.Data.List.Pairwise
import Tdxrs.Net.SliceServer
import Tdxrs.Protocol.Multiplier

set_option relaxedAutoImplicit false
set_option autoImplicit false

/-!
# The context of an adjustment

The factor of an event needs the last close before it. When the bars of a call begin after an
early event, the client fetches older bars as context: pages of 800 bars, the first of which ends
800 bars before the newest bar of the history, until a page begins on or before the earliest
event. The bars of the call end wherever its `start` says, so that the two need not meet.

## Main definitions

* `Tdxrs.PagesFollow`, `Tdxrs.contextPages` — pages of context, some of which may fail.
* `Tdxrs.ReachesEarliest` — the page budget reaches past the earliest event.
* `Tdxrs.ContextCovers` — when the context yields the close before an event.

## Main results

* `Tdxrs.contextPages_shape` — what the context fetch returns.
* `Tdxrs.context_close_iff` — the close found for an event is the one before it exactly when the
  context covers it.
-/

namespace Tdxrs

open Window

variable {σ : Type}

/-! ## Ascending histories -/

/-- In an ascending list every bar is dated on or after the first one. -/
lemma Ascending.head_le {first : SecurityBar} {rest : List SecurityBar}
    (h : Ascending (first :: rest)) : ∀ b ∈ first :: rest, first.dateKey ≤ b.dateKey := by
  intro b hb
  rcases List.mem_cons.mp hb with rfl | hb
  · exact Nat.le_refl _
  · exact (List.pairwise_cons.mp h).1 b hb

/-- In an ascending list an earlier bar is not dated later. -/
lemma Ascending.getElem_le {history : List SecurityBar} (h : Ascending history) {i j : ℕ}
    (hij : i ≤ j) (hi : i < history.length) (hj : j < history.length) :
    history[i].dateKey ≤ history[j].dateKey := by
  rcases Nat.lt_or_eq_of_le hij with hlt | rfl
  · exact List.pairwise_iff_getElem.mp h i j hi hj hlt
  · exact Nat.le_refl _

/-! ## What the context fetch returns -/

/-- Where one more page ends. -/
lemma klineCount_mul_succ (j : ℕ) :
    maxKlineCount * (j + 1) = maxKlineCount * j + maxKlineCount := Nat.mul_succ _ _

/-- The `j`-th page of context: the first one ends 800 bars before the newest bar. -/
def contextPage (history : List SecurityBar) (j : ℕ) : List SecurityBar :=
  slice history (maxKlineCount * (j + 1)) maxKlineCount

lemma contextPage_eq (history : List SecurityBar) (j : ℕ) :
    contextPage history j = slice history (maxKlineCount * (j + 1)) maxKlineCount := rfl

-- the multiples of 800 are not to be computed out when a page is matched on
attribute [irreducible] contextPage

/-- Along the context pages that are left, the `j`-th page fails where `fails j`, and is else
answered by the slice of the history that it asks for. -/
def PagesFollow (send : Bytes → σ → Except TdxError Bytes × σ)
    (parse : Bytes → Except TdxError (List SecurityBar)) (category market : UInt8)
    (code : String) (history : List SecurityBar) (fails : ℕ → Bool) : ℕ → ℕ → σ → Prop
  | 0, _, _ => True
  | left + 1, j, w =>
    match send (buildSecurityBarsPacket category market code (maxKlineCount * (j + 1))
      maxKlineCount) w with
    | (.error _, _) => fails j
    | (.ok body, w) =>
      match parse body with
      | .error _ => fails j
      | .ok batch => fails j = false ∧ batch = contextPage history j ∧
          PagesFollow send parse category market code history fails left (j + 1) w

/-- A server that answers by slices, without failures.

**Proof sketch.** By induction on the pages that are left. The start of each is below `2 ^ 16`, so
the server answers with the bars asked for, which are the page. -/
lemma ServesSlices.pagesFollow {send : Bytes → σ → Except TdxError Bytes × σ}
    {parse : Bytes → Except TdxError (List SecurityBar)} {category market : UInt8}
    {code : String} {history : List SecurityBar}
    (h : ServesSlices send parse category market code history) {left j : ℕ}
    (hfit : maxKlineCount * (j + left) ≤ 65535) (w : σ) :
    PagesFollow send parse category market code history (fun _ => false) left j w := by
  induction left generalizing j w with
  | zero => trivial
  | succ left ih =>
    have hmax : maxKlineCount = 800 := rfl
    rw [hmax] at hfit
    have hstart : maxKlineCount * (j + 1) ≤ 65535 := by
      rw [hmax]
      omega
    obtain ⟨body, w', hsend, hparse⟩ := h.build hstart (by decide : maxKlineCount ≤ 65535) w
    simp only [PagesFollow, hsend, hparse]
    refine ⟨trivial, (contextPage_eq history j).symm, ih ?_ w'⟩
    rw [hmax]
    omega

/-- The context that the pages of a history make, when the `j`-th page fails where `fails j`. -/
def contextPages (history : List SecurityBar) (earliest : ℕ) (fails : ℕ → Bool) :
    ℕ → ℕ → List SecurityBar → List SecurityBar
  | 0, _, context => context
  | left + 1, j, context =>
    if fails j then context
    else
      match contextPage history j with
      | [] => context
      | first :: batch =>
        if first.dateKey ≤ earliest then first :: batch ++ context
        else contextPages history earliest fails left (j + 1) (first :: batch ++ context)

/-- The context fetch makes its context of the pages that do not fail.

**Proof sketch.** Induction on the pages that are left. A page that fails ends the fetch on both
sides, and so does an empty one. Any other makes the context longer, so that the fetch does not stop
for lack of bars, and ends it or goes on by the date of its first bar. -/
lemma fetchContextPages_eq {send : Bytes → σ → Except TdxError Bytes × σ}
    {parse : Bytes → Except TdxError (List SecurityBar)} {category market : UInt8}
    {code : String} {history : List SecurityBar} {fails : ℕ → Bool} (earliest : ℕ) {left j : ℕ}
    (context : List SecurityBar) {w : σ}
    (h : PagesFollow send parse category market code history fails left j w) :
    (HqEnv.fetchContextPages send parse category market code earliest left
      (maxKlineCount * (j + 1)) context w).1 =
      contextPages history earliest fails left j context := by
  induction left generalizing j context w with
  | zero => rfl
  | succ left ih =>
    unfold PagesFollow at h
    unfold HqEnv.fetchContextPages contextPages
    rcases hsend : send (buildSecurityBarsPacket category market code (maxKlineCount * (j + 1))
      maxKlineCount) w with ⟨_ | body, w'⟩
    · simp only [hsend] at h ⊢
      rw [if_pos h]
    · simp only [hsend] at h ⊢
      cases hparse : parse body with
      | error e =>
        simp only [hparse] at h ⊢
        rw [if_pos h]
      | ok batch =>
        simp only [hparse] at h ⊢
        obtain ⟨hfails, rfl, hrest⟩ := h
        simp only [hfails, Bool.false_eq_true, if_false]
        split
        · rename_i herr
          cases herr
        · rename_i hnil
          rw [Except.ok.inj hnil]
        · rename_i first batch hcons
          rw [Except.ok.inj hcons]
          have hlen : (first :: batch ++ context).length ≠ context.length := by
            simp only [List.length_append, List.length_cons]
            omega
          simp only [if_neg hlen]
          split
          · rfl
          · rw [← klineCount_mul_succ]
            exact ih _ hrest

/-- The first bar of the `j`-th context page, when the page is all there. -/
lemma head_contextPage {history : List SecurityBar} {j : ℕ} {first : SecurityBar}
    {batch : List SecurityBar}
    (hpage : contextPage history j = first :: batch)
    (hfull : maxKlineCount * (j + 2) ≤ history.length) :
    history[history.length - maxKlineCount * (j + 2)]? = some first := by
  rw [klineCount_mul_succ (j + 1)] at hfull ⊢
  rw [← getElem?_slice_zero (by decide) hfull, ← contextPage_eq, hpage]
  rfl

/-- **The shape of the context**: the `k` newest pages after the first 800 bars, joined. None of
the pages before the last begins on or before the earliest event, and after `k` pages the budget
is spent, a page fails, the history is exhausted, or the last page begins on or before the
earliest event.

**Proof sketch.** Induction on the pages that are left, with `j` pages in the context. A page that
fails or is empty ends it with these; otherwise the page goes in front, which makes the slice of `j
+ 1` pages, and if its first bar is not later than the earliest event, it is the last. If it is
later, the induction hypothesis goes on from `j + 1`. -/
theorem contextPages_shape (history : List SecurityBar) (earliest : ℕ) (fails : ℕ → Bool)
    (left j : ℕ) :
    ∃ k, j ≤ k ∧ k ≤ j + left ∧
      contextPages history earliest fails left j
          (slice history maxKlineCount (maxKlineCount * j)) =
        slice history maxKlineCount (maxKlineCount * k) ∧
      (∀ i, j ≤ i → i + 1 < k → ∃ first batch,
        contextPage history i = first :: batch ∧ earliest < first.dateKey) ∧
      (k = j + left ∨ fails k ∨ history.length ≤ maxKlineCount * (k + 1) ∨
        ∃ i first batch, k = i + 1 ∧ j ≤ i ∧
          contextPage history i = first :: batch ∧ first.dateKey ≤ earliest) := by
  induction left generalizing j with
  | zero => exact ⟨j, Nat.le_refl _, Nat.le_refl _, rfl, fun i h1 h2 => by omega, .inl rfl⟩
  | succ left ih =>
    have hjoin : contextPage history j ++
        slice history maxKlineCount (maxKlineCount * j) =
          slice history maxKlineCount (maxKlineCount * (j + 1)) := by
      have hjoin := slice_append history maxKlineCount (maxKlineCount * j) maxKlineCount
      rwa [Nat.add_comm maxKlineCount, ← klineCount_mul_succ, ← contextPage_eq] at hjoin
    unfold contextPages
    by_cases hfails : fails j
    · rw [if_pos hfails]
      exact ⟨j, Nat.le_refl _, by omega, rfl, fun i h1 h2 => by omega, .inr (.inl hfails)⟩
    · rw [if_neg hfails]
      cases hpage : contextPage history j with
      | nil =>
        have hend : history.length ≤ maxKlineCount * (j + 1) := by
          rw [contextPage_eq] at hpage
          rcases slice_eq_nil_iff.mp hpage with h | h
          · exact absurd h (by decide)
          · exact h
        exact ⟨j, Nat.le_refl _, by omega, rfl, fun i h1 h2 => by omega, .inr (.inr (.inl hend))⟩
      | cons first batch =>
        rw [hpage] at hjoin
        simp only [hjoin]
        split
        · rename_i hstop
          exact ⟨j + 1, by omega, by omega, rfl, fun i h1 h2 => by omega,
            .inr (.inr (.inr ⟨j, first, batch, rfl, Nat.le_refl _, hpage, hstop⟩))⟩
        · rename_i hgo
          obtain ⟨k, hjk, hkl, heq, hearlier, hend⟩ := ih (j + 1)
          refine ⟨k, by omega, by omega, heq, fun i h1 h2 => ?_, ?_⟩
          · rcases Nat.eq_or_lt_of_le h1 with rfl | h1
            · exact ⟨first, batch, hpage, by omega⟩
            · exact hearlier i h1 h2
          · rcases hend with h | h | h | ⟨i, f, b, h1, h2, h3⟩
            · exact .inl (by omega)
            · exact .inr (.inl h)
            · exact .inr (.inr (.inl h))
            · exact .inr (.inr (.inr ⟨i, f, b, h1, by omega, h3⟩))

/-- The context fetch of a call whose bars begin with `first`. -/
lemma fetchContextBars_eq {send : Bytes → σ → Except TdxError Bytes × σ}
    {parse : Bytes → Except TdxError (List SecurityBar)} {category market : UInt8}
    {code : String} {history : List SecurityBar} {fails : ℕ → Bool} {first : SecurityBar}
    {rest : List SecurityBar} {xdxr : List XdXrInfo} {earliest maxPages : ℕ} {w : σ}
    (h : PagesFollow send parse category market code history fails maxPages 0 w)
    (hearliest : HqEnv.earliestEvent xdxr = some earliest) :
    (HqEnv.fetchContextBars send parse category market code (first :: rest) xdxr maxPages w).1 =
      if first.dateKey ≤ earliest then []
      else contextPages history earliest fails maxPages 0 [] := by
  have hpages := fetchContextPages_eq earliest [] h
  rw [Nat.zero_add, Nat.mul_one] at hpages
  simp only [HqEnv.fetchContextBars, hearliest]
  split
  · rfl
  · exact hpages

/-! ## Closes before events in the context -/

/-- The page budget reaches past the earliest event: all of the history, or a bar dated before
the event. -/
def ReachesEarliest (history : List SecurityBar) (earliest maxPages : ℕ) : Prop :=
  history.length ≤ maxKlineCount * (maxPages + 1) ∨
    ∃ b, history[history.length - maxKlineCount * (maxPages + 1)]? = some b ∧
      b.dateKey < earliest

/-- A page of context that is all there begins exactly on the earliest event. -/
def PageBeginsOn (history : List SecurityBar) (earliest : ℕ) : Prop :=
  ∃ j b, maxKlineCount * (j + 2) ≤ history.length ∧
    history[history.length - maxKlineCount * (j + 2)]? = some b ∧ b.dateKey = earliest

/-- In an ascending list an earlier bar is not dated later, by positions. -/
lemma Ascending.dateKey_le {history : List SecurityBar} (h : Ascending history) {i j : ℕ}
    {a b : SecurityBar} (ha : history[i]? = some a) (hb : history[j]? = some b) (hij : i ≤ j) :
    a.dateKey ≤ b.dateKey := by
  obtain ⟨hi, rfl⟩ := List.getElem?_eq_some_iff.mp ha
  obtain ⟨hj, rfl⟩ := List.getElem?_eq_some_iff.mp hb
  exact h.getElem_le hij hi hj

/-- A slice and all that is older, with the last bar of the list dated before the slice's end. -/
lemma closeBefore_older {history : List SecurityBar} {start count date : ℕ}
    (h : ∃ b ∈ slice history start count, b.dateKey < date) :
    closeBefore (history.rdrop start) date = closeBefore (slice history start count) date := by
  rw [← rdrop_append_slice history start count]
  exact closeBefore_append_of_lt h

/-- What the context of a fetch without failures is, under a sufficient budget: the `k` newest
pages. No page before the last of them begins on the earliest event, and either they are all there
is, or the oldest bar fetched is dated on or before the earliest event.

**Proof sketch.** By `contextPages_shape` the context is the `k` newest pages, and none before the
last begins on the earliest event, since each of them begins after it. If the history is not
exhausted, either the last page begins on or before the event, or the budget is spent, and then the
budget reaches it. -/
lemma contextPages_reached {history : List SecurityBar} {earliest maxPages : ℕ}
    (hpos : 0 < maxPages) (hreach : ReachesEarliest history earliest maxPages) :
    ∃ k, contextPages history earliest (fun _ => false) maxPages 0 [] =
        slice history maxKlineCount (maxKlineCount * k) ∧
      (∀ j, maxKlineCount * (j + 2) ≤ history.length → ∀ b,
        history[history.length - maxKlineCount * (j + 2)]? = some b → b.dateKey = earliest →
        k ≤ j + 1) ∧
      (history.length ≤ maxKlineCount * (k + 1) ∨
        ∃ i, k = i + 1 ∧ maxKlineCount * (i + 2) ≤ history.length ∧ ∃ oldest,
          history[history.length - maxKlineCount * (i + 2)]? = some oldest ∧
          oldest.dateKey ≤ earliest) := by
  obtain ⟨k, -, hk, hshape, hearlier, hend⟩ :=
    contextPages_shape history earliest (fun _ => false) maxPages 0
  have hslice0 : slice history maxKlineCount (maxKlineCount * 0) = [] :=
    slice_eq_nil_iff.mpr (.inl rfl)
  rw [hslice0] at hshape
  refine ⟨k, hshape, ?_, ?_⟩
  · intro j hj b hb hdate
    by_contra hlt
    obtain ⟨first, batch, hpage, hfirst⟩ := hearlier j (Nat.zero_le j) (by omega)
    have hsame := (head_contextPage hpage hj).symm.trans hb
    obtain rfl := Option.some.inj hsame
    omega
  · by_cases hall : history.length ≤ maxKlineCount * (k + 1)
    · exact .inl hall
    · have hfull : maxKlineCount * (k + 1) ≤ history.length := (Nat.lt_of_not_le hall).le
      rcases hend with h | h | h | ⟨i, first, batch, rfl, -, hpage, hstop⟩
      · obtain ⟨n, rfl⟩ := Nat.exists_eq_succ_of_ne_zero (Nat.pos_iff_ne_zero.mp hpos)
        obtain rfl : k = n + 1 := by omega
        rcases hreach with h | ⟨b, hb, hlt⟩
        · exact absurd h hall
        · exact .inr ⟨n, rfl, hfull, b, hb, hlt.le⟩
      · exact absurd h (by decide)
      · exact absurd h hall
      · exact .inr ⟨i, rfl, hfull, first, head_contextPage hpage hfull, hstop⟩

/-- The pages of context begin with the oldest bar fetched. -/
lemma slice_pages_eq_cons {history : List SecurityBar} {i : ℕ} {oldest : SecurityBar}
    (hfull : maxKlineCount * (i + 2) ≤ history.length)
    (hget : history[history.length - maxKlineCount * (i + 2)]? = some oldest) :
    ∃ newer, slice history maxKlineCount (maxKlineCount * (i + 1)) = oldest :: newer := by
  have hmax : maxKlineCount = 800 := rfl
  rw [klineCount_mul_succ (i + 1), Nat.add_comm] at hfull hget
  have hmem := getElem?_slice_zero (by rw [hmax]; omega) hfull
  rw [hget] at hmem
  cases hslice : slice history maxKlineCount (maxKlineCount * (i + 1)) with
  | nil => rw [hslice] at hmem; cases hmem
  | cons b newer => rw [hslice] at hmem; exact ⟨newer, by rw [Option.some.inj hmem]⟩

/-- **The close before an event in the context** of a fetch without failures, under a sufficient
budget: the one in all bars but the newest 800; but none for the earliest event when a page
begins exactly on it.

**Proof sketch.** The context is joined of the `k` newest pages (`contextPages_reached`). Either
they are all there is, and then a page that begins on the earliest event is not followed by
another one, or there are older bars; then the oldest page begins with a bar dated on or before
the earliest event. Dated before the event in question, this bar lets the context decide. Else it
is dated on the event, which is the earliest one. -/
theorem closeBefore_contextPages {history : List SecurityBar} (hasc : Ascending history)
    {earliest maxPages date : ℕ} (hpos : 0 < maxPages)
    (hreach : ReachesEarliest history earliest maxPages)
    (hle : earliest ≤ date) (hbefore : ∃ b ∈ history, b.dateKey < date) :
    closeBefore (contextPages history earliest (fun _ => false) maxPages 0 []) date =
        closeBefore (history.rdrop maxKlineCount) date ∧
        ¬(date = earliest ∧ PageBeginsOn history earliest) ∨
      (closeBefore (contextPages history earliest (fun _ => false) maxPages 0 []) date = none ∧
        date = earliest ∧ PageBeginsOn history earliest) := by
  have hmax : maxKlineCount = 800 := rfl
  obtain ⟨k, hshape, hlater, hall | ⟨i, rfl, hfull, oldest, hget, hreached⟩⟩ :=
    contextPages_reached hpos hreach
  · rw [hshape]
    refine .inl ⟨?_, ?_⟩
    · rw [slice_of_le]
      rw [hmax] at hall ⊢
      omega
    · rintro ⟨rfl, j, b, hj, hb, hdate⟩
      have hkj := hlater j hj b hb hdate
      -- the page ends the history, which then has no bar before the event
      have hpos : history.length - maxKlineCount * (j + 2) = 0 := by
        rw [hmax] at hj hall ⊢
        omega
      obtain ⟨c, hc, hlt⟩ := hbefore
      obtain ⟨n, hn, rfl⟩ := List.getElem_of_mem hc
      have hge := hasc.dateKey_le hb (List.getElem?_eq_getElem hn) (by omega)
      omega
  · obtain ⟨newer, hcontext⟩ := slice_pages_eq_cons hfull hget
    rw [hshape]
    by_cases hdate : oldest.dateKey < date
    · refine .inl ⟨(closeBefore_older ⟨oldest, by simp [hcontext], hdate⟩).symm, ?_⟩
      rintro ⟨rfl, j, b, hj, hb, hon⟩
      have hij := hlater j hj b hb hon
      have hle := hasc.dateKey_le hb hget (Nat.sub_le_sub_left (Nat.mul_le_mul_left _ (by omega)) _)
      omega
    · obtain rfl : date = earliest := by omega
      refine .inr ⟨closeBefore_eq_none_iff.mpr fun b hb => ?_, rfl, i, oldest, hfull, hget,
        by omega⟩
      have hge := (hcontext ▸ hasc.slice maxKlineCount (maxKlineCount * (i + 1))).head_le b
        (hcontext ▸ hb)
      omega

/-- The context gives an event the close before it: the bars of the call begin before the event;
or they begin after the earliest event, no page of context begins exactly on this event, should
it be the earliest one, and the last bar before the event has the close of the last such bar older
than the newest 800. -/
def ContextCovers (history : List SecurityBar) (first : SecurityBar) (earliest date : ℕ) : Prop :=
  first.dateKey < date ∨
    earliest < first.dateKey ∧ ¬(date = earliest ∧ PageBeginsOn history earliest) ∧
      closeBefore (history.rdrop maxKlineCount) date = closeBefore history date

/-- The earliest event is an event. -/
lemma earliestEvent_le {xdxr : List XdXrInfo} {earliest : ℕ}
    (h : HqEnv.earliestEvent xdxr = some earliest) {x : XdXrInfo} (hx : x ∈ xdxr)
    (hcategory : x.category = 1) : earliest ≤ x.dateKey := by
  unfold HqEnv.earliestEvent at h
  refine (List.min?_eq_some_iff.mp h).2 _ (List.mem_map.mpr ⟨x, ?_, rfl⟩)
  simp [hx, hcategory]

/-- **The close found for an event, with the context fetched for the bars of a call, is the close
of the last bar before the event exactly when the context covers the event.** The history is
ascending, the server answers by its slices, the page budget reaches past the earliest event, and
the event is dated no later than the last bar of the call and has some bar before it.

**Proof sketch.** The bars newer than those of the call are dated on or after the event
(`closeBefore_rdrop`). If the bars begin before the event, they decide. Else, if they begin after
the earliest event, the context decides (`closeBefore_contextPages`); and if not, the event is the
earliest one and the bars begin on it, and no context is fetched. -/
theorem context_close_iff {send : Bytes → σ → Except TdxError Bytes × σ} {maxValidYear : ℕ}
    {category market : UInt8} {code : String} {history : List SecurityBar}
    (hserve : ServesSlices send (parseSecurityBars maxValidYear category) category market code
      history)
    (hasc : Ascending history) {start count : ℕ} {first last : SecurityBar}
    (hfirst : (slice history start count).head? = some first)
    (hlast : (slice history start count).getLast? = some last)
    {xdxr : List XdXrInfo} {tier : FqContextTier} {earliest : ℕ}
    (hearliest : HqEnv.earliestEvent xdxr = some earliest)
    (hreach : ReachesEarliest history earliest tier.pages) (w : σ) {x : XdXrInfo} (hx : x ∈ xdxr)
    (hcategory : x.category = 1) (hdue : x.dateKey ≤ last.dateKey)
    (hbefore : ∃ b ∈ history, b.dateKey < x.dateKey) :
    findCloseBeforeEvent (slice history start count)
        (HqEnv.fetchContextBarsForAdjustWithTier send (parseSecurityBars maxValidYear category)
          category market code (slice history start count) xdxr tier w).1 x.dateKey =
          closeBefore history x.dateKey ↔
      ContextCovers history first earliest x.dateKey := by
  have hle := earliestEvent_le hearliest hx hcategory
  have hsome : closeBefore history x.dateKey ≠ none := by
    intro hnone
    obtain ⟨b, hb, hlt⟩ := hbefore
    exact absurd (closeBefore_eq_none_iff.mp hnone b hb) (by omega)
  have hnewer : closeBefore history x.dateKey = closeBefore (history.rdrop start) x.dateKey :=
    (closeBefore_rdrop hasc hlast hdue).symm
  have hpages : maxKlineCount * (0 + tier.pages) ≤ 65535 := by cases tier <;> decide
  have hpos : 0 < tier.pages := by cases tier <;> decide
  obtain ⟨rest, hcons⟩ := List.head?_eq_some_iff.mp hfirst
  rw [findCloseBeforeEvent_eq (hasc.slice start count)]
  unfold HqEnv.fetchContextBarsForAdjustWithTier ContextCovers
  rw [hcons, fetchContextBars_eq (hserve.pagesFollow hpages w) hearliest, ← hcons]
  by_cases hbegin : first.dateKey < x.dateKey
  · have hwindow : ∃ b ∈ slice history start count, b.dateKey < x.dateKey :=
      ⟨first, by simp [hcons], hbegin⟩
    rw [closeBefore_append_of_lt hwindow, hnewer, closeBefore_older hwindow]
    simp [hbegin]
  · have hwindow : ∀ b ∈ slice history start count, x.dateKey ≤ b.dateKey := fun b hb =>
      (Nat.le_of_not_lt hbegin).trans
        ((hcons ▸ hasc.slice start count).head_le b (hcons ▸ hb))
    rw [closeBefore_append_of_le hwindow]
    by_cases hno : first.dateKey ≤ earliest
    · rw [if_pos hno]
      refine iff_of_false (fun h => hsome ?_) (by omega)
      rw [← h]
      rfl
    · rw [if_neg hno]
      rcases closeBefore_contextPages hasc hpos hreach hle hbefore with
        ⟨hclose, hnot⟩ | ⟨hnone, hon⟩
      · rw [hclose]
        exact ⟨fun h => .inr ⟨by omega, hnot, h⟩, fun h => (h.resolve_left hbegin).2.2⟩
      · rw [hnone]
        refine iff_of_false hsome.symm fun h => ?_
        exact (h.resolve_left hbegin).2.1 hon

/-! ## Three trading days -/

/-- A stock with three trading days. -/
def threeDays : List KLineRecord :=
  [flatRecord 10000 2024 1 2, flatRecord 11000 2024 1 3, flatRecord 12000 2024 1 4]

/-- The server of `threeDays`. -/
def threeDaysSend : Bytes → Unit → Except TdxError Bytes × Unit :=
  (sliceEnv threeDays (.ok []) fun _ => false).trySendAndRecv

/-- The three days can be sent. -/
lemma threeDays_encodable : ∀ r ∈ threeDays, r.Encodable 2036 4 := by
  intro r hr
  simp only [threeDays, List.mem_cons, List.not_mem_nil, or_false] at hr
  rcases hr with rfl | rfl | rfl <;>
    exact flatRecord_encodable (by decide) (by decide) (by decide) (by decide)

/-- For one bar, the newest one, the close before an event is not found: not for an event of the
day before, because the context begins 800 bars before the newest bar; and not for an event of
the same day, because no context is fetched. -/
theorem context_close_missed :
    ServesSlices threeDaysSend (parseSecurityBars 2036 4) 4 1 "600519" (barsOf 4 threeDays) ∧
    Ascending (barsOf 4 threeDays) ∧
    (∀ earliest, ReachesEarliest (barsOf 4 threeDays) earliest FqContextTier.mid.pages) ∧
    findCloseBeforeEvent (slice (barsOf 4 threeDays) 0 1)
      (HqEnv.fetchContextBarsForAdjustWithTier threeDaysSend (parseSecurityBars 2036 4) 4 1
        "600519" (slice (barsOf 4 threeDays) 0 1) [dividend 2024 1 3 10] .mid ()).1 20240103 ≠
      closeBefore (barsOf 4 threeDays) 20240103 ∧
    findCloseBeforeEvent (slice (barsOf 4 threeDays) 0 1)
      (HqEnv.fetchContextBarsForAdjustWithTier threeDaysSend (parseSecurityBars 2036 4) 4 1
        "600519" (slice (barsOf 4 threeDays) 0 1) [dividend 2024 1 4 10] .mid ()).1 20240104 ≠
      closeBefore (barsOf 4 threeDays) 20240104 := by
  refine ⟨sliceEnv_serves threeDays_encodable _ _ _, by unfold Ascending; decide +kernel,
    fun _ => .inl (by decide +kernel), by decide +kernel, by decide +kernel⟩

/-- With the two newest bars, the close before an event on the newest one is found. -/
theorem context_close_iff_newest :
    findCloseBeforeEvent (slice (barsOf 4 threeDays) 0 2)
        (HqEnv.fetchContextBarsForAdjustWithTier threeDaysSend (parseSecurityBars 2036 4) 4 1
          "600519" (slice (barsOf 4 threeDays) 0 2) [dividend 2024 1 4 10] .mid ()).1 20240104 =
        closeBefore (barsOf 4 threeDays) 20240104 ↔
      ContextCovers (barsOf 4 threeDays) ((flatRecord 11000 2024 1 3).bar 4) 20240104
        20240104 := by
  have hasc : Ascending (barsOf 4 threeDays) := by unfold Ascending; decide +kernel
  have hfirst : (slice (barsOf 4 threeDays) 0 2).head? =
      some ((flatRecord 11000 2024 1 3).bar 4) := rfl
  have hlast : (slice (barsOf 4 threeDays) 0 2).getLast? =
      some ((flatRecord 12000 2024 1 4).bar 4) := rfl
  have hearliest : HqEnv.earliestEvent [dividend 2024 1 4 10] = some 20240104 := by
    decide +kernel
  have hreach : ReachesEarliest (barsOf 4 threeDays) 20240104 FqContextTier.mid.pages :=
    .inl (by decide +kernel)
  have hbefore : ∃ b ∈ barsOf 4 threeDays, b.dateKey < (dividend 2024 1 4 10).dateKey :=
    ⟨(flatRecord 10000 2024 1 2).bar 4, by decide +kernel, by decide +kernel⟩
  have hdate : (dividend 2024 1 4 10).dateKey = 20240104 := by decide
  have hiff := context_close_iff (sliceEnv_serves threeDays_encodable (.ok []) 1 "600519") hasc
    hfirst hlast hearliest hreach () (List.mem_singleton.mpr rfl) rfl (by decide +kernel) hbefore
  rwa [hdate] at hiff

end Tdxrs
