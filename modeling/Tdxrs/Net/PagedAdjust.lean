import Tdxrs.Net.Paging
import Tdxrs.Net.SliceServer
import Tdxrs.Protocol.Multiplier

set_option relaxedAutoImplicit false
set_option autoImplicit false

/-!
# Adjustment page by page

A paged call adjusts every page of 800 bars on its own, with the bars older than the page as
context. The newer bars of the other pages are not at hand, so that the close before an event
after the page is taken to be that of the page's last bar. Backward adjustment never looks at
later events; forward adjustment does, and there the pages agree with the adjustment of the whole
history only when these closes make the same factors.

## Main definitions

* `Tdxrs.SuppliesOlder` — a context fetch that returns all bars older than a page.
* `Tdxrs.PageSeesFactors` — the later factors of a page are the true ones.

## Main results

* `Tdxrs.page_adjust_iff` — one page against the whole history.
* `Tdxrs.paged_adjust_iff` — the paged call against the adjustment of the whole history.
-/

namespace Tdxrs

open Window

variable {σ : Type}

/-! ## The paged call -/

/-- A context fetch that returns, for the bars of a call and the corporate actions at hand, all
bars of the history that are older than those of the call. -/
def SuppliesOlder (env : HqEnv σ) (context : HqEnv.ContextFetch σ) (category market : UInt8)
    (code : String) (history : List SecurityBar) (xdxr : List XdXrInfo) : Prop :=
  ∀ start count s s' w, slice history start count ≠ [] →
    env.getSecurityBars category market code start count 0 s =
      (.ok (slice history start count), s') →
    env.getXdxrInfo market code s'.world = (.ok xdxr, w) →
    (context (slice history start count) xdxr w).1 = history.rdrop (start + count)

/-- A page in exact arithmetic, adjusted with all older bars as context. -/
def adjustedPage (history : List SecurityBar) (xdxr : List XdXrInfo) (fq : FqType)
    (start count : ℕ) : List SecurityBar :=
  (slice history start count).map fun b =>
    b.scale (barMultiplier fq xdxr (closeBefore (history.rdrop start)) b)

/-- The adjustment of a slice with all older bars as context. -/
lemma adjust_slice {history : List SecurityBar} (hasc : Ascending history)
    (xdxr : List XdXrInfo) {fq : FqType} (hfq : fq ≠ .none) (start count : ℕ) :
    adjustSecurityBars exactArithmetic (slice history start count)
      (history.rdrop (start + count)) xdxr fq = adjustedPage history xdxr fq start count := by
  have hslice : Ascending (slice history start count) :=
    List.Pairwise.sublist (slice_sublist history start count) hasc
  rw [adjustSecurityBars_exact hslice _ xdxr hfq]
  refine List.map_congr_left fun b _ => ?_
  congr 2
  funext date
  rw [findCloseBeforeEvent_eq hslice, rdrop_append_slice]

/-- The adjustment of the newest bars with all older ones as context. -/
lemma adjust_rtake {history : List SecurityBar} (hasc : Ascending history)
    (xdxr : List XdXrInfo) {fq : FqType} (hfq : fq ≠ .none) (count : ℕ) :
    adjustSecurityBars exactArithmetic (history.rtake count) (history.rdrop count) xdxr fq =
      (history.rtake count).map fun b =>
        b.scale (barMultiplier fq xdxr (closeBefore history) b) := by
  have hnewest := adjust_slice hasc xdxr hfq 0 count
  rwa [slice_zero, Nat.zero_add, adjustedPage, slice_zero, List.rdrop_zero] at hnewest

/-- One adjusted call of the paged call.

**Proof sketch.** The unadjusted call returns the slice of the history, and corporate actions and
context come as assumed, the context being all older bars. A page is then adjusted with everything
before it (`adjust_slice`); one without bars is not adjusted, and is empty either way. -/
lemma getSecurityBarsWith_adjusted {env : HqEnv σ} {context : HqEnv.ContextFetch σ}
    {category market : UInt8} {code : String} (hcode : ValidStockCode code)
    {history : List SecurityBar} (hasc : Ascending history)
    (hserve : ServesSlices env.trySendAndRecv (parseSecurityBars env.maxValidYear category) category
      market code history)
    {xdxr : List XdXrInfo}
    (hxdxr : ∀ w, ∃ w', env.getXdxrInfo market code w = (.ok xdxr, w'))
    (hcontext : SuppliesOlder env context category market code history xdxr) {fq : UInt8}
    (hfq : fq ≠ 0) {start count : ℕ} (hstart : start ≤ 65535) (hcount : count ≤ 65535)
    (s : HqState σ) :
    ∃ s', env.getSecurityBarsWith exactArithmetic context category market code start count fq s =
      (.ok (adjustedPage history xdxr (HqEnv.fqType fq) start count), s') := by
  obtain ⟨s', hraw, -⟩ := HqEnv.getSecurityBars_raw hcode hserve hstart hcount
    (HqEnv.OffsetsFit.refl s)
  obtain ⟨w, hevents⟩ := hxdxr s'.world
  have holder := fun hne => hcontext start count s s' w hne hraw hevents
  have hfqType : HqEnv.fqType fq ≠ .none := by
    unfold HqEnv.fqType
    split <;> decide
  rw [HqEnv.getSecurityBarsWith_eq, hraw]
  refine ⟨_, Prod.ext ?_ rfl⟩
  simp only [HqEnv.adjustFetched, hevents]
  split
  · rename_i hadjust
    rw [← adjust_slice hasc xdxr hfqType, ← holder (by simpa using hadjust.2)]
  · rename_i hskip
    -- a page without bars stays as it is
    have hnil : slice history start count = [] := by simpa [hfq] using hskip
    rw [hnil, adjustedPage, hnil, List.map_nil]

/-! ## One page against the whole history -/

/-- The factors of the events after a page are the true ones, as far as the page goes: computed
with the closes up to the page's last bar they have the same product as with the closes of the
whole history, or the page has no prices. -/
def PageSeesFactors (history : List SecurityBar) (xdxr : List XdXrInfo) (start count : ℕ) : Prop :=
  ∀ last, (slice history start count).getLast? = some last →
    (∀ b ∈ slice history start count, b.Priceless) ∨
      laterProduct xdxr (closeBefore (history.rdrop start)) last.dateKey =
        laterProduct xdxr (closeBefore history) last.dateKey

/-- A page as it is in the adjustment of the whole history. -/
def wholePage (history : List SecurityBar) (xdxr : List XdXrInfo) (fq : FqType)
    (start count : ℕ) : List SecurityBar :=
  (slice history start count).map fun b =>
    b.scale (barMultiplier fq xdxr (closeBefore history) b)

/-- Backward, a page is as it is in the adjustment of the whole history: the events up to a bar
have their closes among the bars up to it. -/
lemma adjustedPage_hfq {history : List SecurityBar} (hasc : Ascending history)
    (xdxr : List XdXrInfo) (start count : ℕ) :
    adjustedPage history xdxr .hfq start count = wholePage history xdxr .hfq start count := by
  refine List.map_congr_left fun b hb => congrArg b.scale (barMultiplier_congr fun e _ hdue => ?_)
  obtain ⟨last, hlast⟩ :=
    Option.isSome_iff_exists.mp (List.getLast?_isSome.mpr (List.ne_nil_of_mem hb))
  have hle := (hasc.slice start count).le_last hlast b hb
  have hdue : e.1 ≤ b.dateKey := by simpa [FqType.due] using hdue
  exact closeBefore_rdrop hasc hlast (hdue.trans hle)

/-- **Forward, one page against the whole history**: the page comes out the same exactly when it
sees the true factors of the events after it.

**Proof sketch.** The multiplier of a bar splits at the date of the page's last bar
(`laterProduct_split`). The part up to it is the same and not zero, so that the bars agree when
the rest does, or when there is nothing to multiply. -/
theorem page_adjust_iff {history : List SecurityBar} (hasc : Ascending history)
    (xdxr : List XdXrInfo) (start count : ℕ) :
    adjustedPage history xdxr .qfq start count = wholePage history xdxr .qfq start count ↔
      PageSeesFactors history xdxr start count := by
  unfold adjustedPage wholePage PageSeesFactors
  rw [List.map_inj_left]
  cases hlast : (slice history start count).getLast? with
  | none =>
    rw [List.getLast?_eq_none_iff.mp hlast]
    simp
  | some last =>
    have hbar : ∀ b ∈ slice history start count,
        (b.scale (barMultiplier .qfq xdxr (closeBefore (history.rdrop start)) b) =
          b.scale (barMultiplier .qfq xdxr (closeBefore history) b) ↔ b.Priceless ∨
            laterProduct xdxr (closeBefore (history.rdrop start)) last.dateKey =
              laterProduct xdxr (closeBefore history) last.dateKey) := by
      intro b hb
      have hle := (hasc.slice start count).le_last hlast b hb
      have hbetween : betweenProduct .qfq xdxr (closeBefore (history.rdrop start)) b.dateKey
          last.dateKey = betweenProduct .qfq xdxr (closeBefore history) b.dateKey last.dateKey :=
        betweenProduct_congr .qfq fun d _ hd => closeBefore_rdrop hasc hlast hd
      rw [SecurityBar.scale_eq_scale_iff, barMultiplier_qfq, barMultiplier_qfq,
        laterProduct_split xdxr _ hle, laterProduct_split xdxr (closeBefore history) hle, hbetween,
        mul_right_inj' (betweenProduct_ne_zero _ _ _ _ _)]
    simp only [Option.some.injEq, forall_eq']
    constructor
    · intro h
      by_cases hproduct : laterProduct xdxr (closeBefore (history.rdrop start)) last.dateKey =
          laterProduct xdxr (closeBefore history) last.dateKey
      · exact .inr hproduct
      · exact .inl fun b hb => ((hbar b hb).mp (h b hb)).resolve_right hproduct
    · rintro (h | h) b hb
      · exact (hbar b hb).mpr (.inl (h b hb))
      · exact (hbar b hb).mpr (.inr h)

/-! ## The paged call against the whole history -/

/-- The paged call joins its pages.

**Proof sketch.** Adjusting a page keeps its length, so the loop goes through the same offsets as
without adjustment, and each of its pages is the adjusted one. -/
lemma getSecurityBarsAllWith_adjusted {env : HqEnv σ} {context : HqEnv.ContextFetch σ}
    {category market : UInt8} {code : String} (hcode : ValidStockCode code)
    {history : List SecurityBar} (hasc : Ascending history)
    (hserve : ServesSlices env.trySendAndRecv (parseSecurityBars env.maxValidYear category) category
      market code history)
    {xdxr : List XdXrInfo}
    (hxdxr : ∀ w, ∃ w', env.getXdxrInfo market code w = (.ok xdxr, w'))
    (hcontext : SuppliesOlder env context category market code history xdxr) {fq : UInt8}
    (hfq : fq ≠ 0) (count : UInt16) (s : HqState σ) :
    (env.getSecurityBarsAllWith exactArithmetic context category market code count fq s).1 =
      .ok (assemble (adjustedPage history xdxr (HqEnv.fqType fq))
        (pages maxKlineCount 0 count.toNat)) := by
  have hlen : ∀ o n, (adjustedPage history xdxr (HqEnv.fqType fq) o n).length =
      min n (history.length - o) := by
    intro o n
    rw [adjustedPage, List.length_map, length_slice]
  have hfit : 0 + count.toNat ≤ 65535 := by
    have := count.toNat_lt
    omega
  obtain ⟨s', hpaged, -⟩ := HqEnv.allPages_eq (I := fun _ => True) hlen
    (fun o n s ho hn _ => by
      obtain ⟨s', hpage⟩ :=
        getSecurityBarsWith_adjusted hcode hasc hserve hxdxr hcontext hfq ho hn s
      exact ⟨s', hpage, trivial⟩) hfit [] (s := s) trivial
  rw [HqEnv.getSecurityBarsAllWith, hpaged, List.append_nil]

/-- The adjustment of the newest bars, cut into the pages of the paged call. -/
lemma adjust_rtake_eq_assemble {history : List SecurityBar} (hasc : Ascending history)
    (xdxr : List XdXrInfo) {fq : FqType} (hfq : fq ≠ .none) (count : ℕ) :
    adjustSecurityBars exactArithmetic (history.rtake count) (history.rdrop count) xdxr fq =
      assemble (wholePage history xdxr fq) (pages maxKlineCount 0 count) := by
  rw [adjust_rtake hasc xdxr hfq, ← HqEnv.assemble_slice_zero history count]
  exact (assemble_map _ (slice history) _).symm

/-- The joined pages against the adjustment of the whole history. -/
lemma assemble_adjusted_iff {history : List SecurityBar} (hasc : Ascending history)
    (xdxr : List XdXrInfo) (count : ℕ) :
    assemble (adjustedPage history xdxr .qfq) (pages maxKlineCount 0 count) =
        adjustSecurityBars exactArithmetic (history.rtake count) (history.rdrop count) xdxr .qfq ↔
      ∀ r ∈ pages maxKlineCount 0 count, PageSeesFactors history xdxr r.1 r.2 := by
  rw [adjust_rtake_eq_assemble hasc xdxr (by decide), assemble_eq_iff fun o n => by
    rw [adjustedPage, wholePage, List.length_map, List.length_map]]
  exact forall₂_congr fun r _ => page_adjust_iff hasc xdxr r.1 r.2

/-- **Adjustment page by page equals adjustment of the whole history exactly when it is backward
or every page sees the true factors of the events after it.** The history is ascending, the server
answers by its slices, the corporate actions are at hand and the context fetch supplies all older
bars; the arithmetic is exact.

**Proof sketch.** The paged call joins its pages (`HqEnv.allPages_eq`), and joined pages are the
same when the pages are (`assemble_eq_iff`). Backward every page is (`adjustedPage_hfq`), forward
it is when it sees the true factors (`page_adjust_iff`). -/
theorem paged_adjust_iff {env : HqEnv σ} {context : HqEnv.ContextFetch σ}
    {category market : UInt8} {code : String} (hcode : ValidStockCode code)
    {history : List SecurityBar} (hasc : Ascending history)
    (hserve : ServesSlices env.trySendAndRecv (parseSecurityBars env.maxValidYear category) category
      market code history)
    {xdxr : List XdXrInfo}
    (hxdxr : ∀ w, ∃ w', env.getXdxrInfo market code w = (.ok xdxr, w'))
    (hcontext : SuppliesOlder env context category market code history xdxr) {fq : UInt8}
    (hfq : fq = 1 ∨ fq = 2) (count : UInt16) (s : HqState σ) :
    (env.getSecurityBarsAllWith exactArithmetic context category market code count fq s).1 =
        .ok (adjustSecurityBars exactArithmetic (history.rtake count.toNat)
          (history.rdrop count.toNat) xdxr (HqEnv.fqType fq)) ↔
      fq = 2 ∨ ∀ r ∈ pages maxKlineCount 0 count.toNat, PageSeesFactors history xdxr r.1 r.2 := by
  rcases hfq with rfl | rfl
  · rw [getSecurityBarsAllWith_adjusted hcode hasc hserve hxdxr hcontext (by decide),
      Except.ok.injEq]
    have hqfq : HqEnv.fqType 1 = .qfq := rfl
    rw [hqfq, assemble_adjusted_iff hasc]
    exact ⟨.inr, fun h => h.resolve_left (by decide)⟩
  · rw [getSecurityBarsAllWith_adjusted hcode hasc hserve hxdxr hcontext (by decide),
      Except.ok.injEq]
    have hhfq : HqEnv.fqType 2 = .hfq := rfl
    rw [hhfq, adjust_rtake_eq_assemble hasc xdxr (by decide)]
    have hsame : adjustedPage history xdxr .hfq = wholePage history xdxr .hfq := by
      funext o n
      exact adjustedPage_hfq hasc xdxr o n
    rw [hsame]
    exact iff_of_true rfl (.inl rfl)

/-! ## A history of 801 days -/

/-- A context fetch that looks up, in the history itself, the bars dated before the first bar. -/
def olderThan (history : List SecurityBar) : HqEnv.ContextFetch σ :=
  fun bars _ w =>
    match bars with
    | [] => ([], w)
    | first :: _ => (history.filter fun b => b.dateKey < first.dateKey, w)

/-- When no two bars share a date, these are the bars older than those of the call.

**Proof sketch.** The history is the bars older than the page and the bars from its first on. The
dates ascend strictly, so exactly the former are dated before the first bar of the page. -/
lemma olderThan_supplies (env : HqEnv σ) (category market : UInt8) (code : String)
    {history : List SecurityBar}
    (hstrict : history.Pairwise fun a b => a.dateKey < b.dateKey) (xdxr : List XdXrInfo) :
    SuppliesOlder env (olderThan history) category market code history xdxr := by
  intro start count s s' w hne _ _
  obtain ⟨first, rest, hcons⟩ := List.exists_cons_of_ne_nil hne
  have hcut : history =
      history.rdrop (start + count) ++ (first :: (rest ++ history.rtake start)) := by
    rw [← List.cons_append, ← hcons, ← List.append_assoc, rdrop_append_slice, rdrop_append_rtake]
  rw [hcut] at hstrict
  obtain ⟨-, hnewer, holder⟩ := List.pairwise_append.mp hstrict
  rw [hcons, olderThan]
  show (history.filter fun b => b.dateKey < first.dateKey) = _
  conv_lhs => rw [hcut]
  rw [List.filter_append, List.filter_eq_self.mpr, List.filter_eq_nil_iff.mpr, List.append_nil]
  · intro b hb
    rcases List.mem_cons.mp hb with rfl | hb
    · simp
    · have hlater := (List.pairwise_cons.mp hnewer).1 b hb
      simp only [decide_eq_true_eq]
      omega
  · intro b hb
    simpa using holder b hb first List.mem_cons_self

/-- A client whose server has the 801 days, and one dividend in between. -/
def manyDaysEnv : HqEnv Unit :=
  sliceEnv manyDays (.ok [dividend 1991 3 9 10]) fun _ => false

/-- The oldest day does not see the factor of the dividend: its own close is not the one before
the event. -/
lemma manyDays_not_seen :
    ¬ PageSeesFactors (barsOf 4 manyDays) [dividend 1991 3 9 10] 800 1 := by
  intro h
  have hlast : (slice (barsOf 4 manyDays) 800 1).getLast? = some ((dayRecord 0).bar 4) := by
    decide +kernel
  rcases h _ hlast with hzero | hsame
  · have hopen := (hzero _ (List.mem_of_getLast? hlast)).1
    exact absurd hopen (by decide +kernel)
  · exact absurd hsame (by decide +kernel)

/-- For 801 bars, the oldest one is adjusted with a wrong factor: the paged call takes its own
close, 10, for the close before the dividend, which is 20.

**Proof sketch.** The paged call is known, so an equal result would mean that for each page the
close before the dividend is seen. The second page is the oldest bar alone, where it is not. -/
theorem paged_adjust_differs :
    ServesSlices manyDaysEnv.trySendAndRecv (parseSecurityBars 2036 4) 4 1 "600519"
      (barsOf 4 manyDays) ∧
    Ascending (barsOf 4 manyDays) ∧
    (∃ b ∈ barsOf 4 manyDays, b.dateKey < (dividend 1991 3 9 10).dateKey) ∧
    SuppliesOlder manyDaysEnv (olderThan (barsOf 4 manyDays)) 4 1 "600519" (barsOf 4 manyDays)
      [dividend 1991 3 9 10] ∧
    (manyDaysEnv.getSecurityBarsAllWith exactArithmetic (olderThan (barsOf 4 manyDays)) 4 1
        "600519" 801 1 ⟨(), []⟩).1 ≠
      .ok (adjustSecurityBars exactArithmetic ((barsOf 4 manyDays).rtake 801)
        ((barsOf 4 manyDays).rdrop 801) [dividend 1991 3 9 10] .qfq) := by
  have hserve : ServesSlices manyDaysEnv.trySendAndRecv (parseSecurityBars 2036 4) 4 1 "600519"
      (barsOf 4 manyDays) := sliceEnv_serves manyDays_encodable _ _ _
  have hcontext := olderThan_supplies manyDaysEnv 4 1 "600519" manyDays_strict
    [dividend 1991 3 9 10]
  have hbefore : ∃ b ∈ barsOf 4 manyDays, b.dateKey < (dividend 1991 3 9 10).dateKey :=
    ⟨(dayRecord 0).bar 4, List.mem_map_of_mem (List.mem_map_of_mem (by simp)), by decide +kernel⟩
  have hpaged := getSecurityBarsAllWith_adjusted ⟨by rfl, by decide +kernel⟩ manyDays_ascending
    hserve (fun w => ⟨w, rfl⟩) hcontext (by decide : (1 : UInt8) ≠ 0) 801 ⟨(), []⟩
  refine ⟨hserve, manyDays_ascending, hbefore, hcontext, ?_⟩
  rw [hpaged, Ne, Except.ok.injEq]
  intro hsame
  have hseen := (assemble_adjusted_iff manyDays_ascending [dividend 1991 3 9 10] 801).mp hsame
  refine manyDays_not_seen (hseen (800, 1) ?_)
  rw [pages_of_pos (by decide) (by decide), pages_of_pos (by decide) (by decide)]
  exact List.mem_cons_of_mem _ List.mem_cons_self

/-- For 800 bars of the 801, one page, adjustment makes the same bars. -/
theorem paged_adjust_iff_one_page :
    (manyDaysEnv.getSecurityBarsAllWith exactArithmetic (olderThan (barsOf 4 manyDays)) 4 1
        "600519" 800 1 ⟨(), []⟩).1 =
        .ok (adjustSecurityBars exactArithmetic ((barsOf 4 manyDays).rtake 800)
          ((barsOf 4 manyDays).rdrop 800) [dividend 1991 3 9 10] .qfq) ↔
      (1 : UInt8) = 2 ∨ ∀ r ∈ pages maxKlineCount 0 800,
        PageSeesFactors (barsOf 4 manyDays) [dividend 1991 3 9 10] r.1 r.2 :=
  paged_adjust_iff ⟨by rfl, by decide +kernel⟩ manyDays_ascending
    (sliceEnv_serves manyDays_encodable (.ok [dividend 1991 3 9 10]) 1 "600519")
    (fun w => ⟨w, rfl⟩)
    (olderThan_supplies manyDaysEnv 4 1 "600519" manyDays_strict [dividend 1991 3 9 10])
    (.inl rfl) 800 ⟨(), []⟩

end Tdxrs
