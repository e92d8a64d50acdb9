import Tdxrs.Net.SliceServer

set_option relaxedAutoImplicit false
set_option autoImplicit false

/-!
# Paging is exact

A paged call asks for pages of at most 800 bars, newest first, until it has the bars it was asked
for or a page comes short. Against servers that answer by the slices of one history, without
failures, it returns exactly the newest bars of the history, provided that every page is read in
full. Pages of security bars are. A page of index bars whose last record has fewer than 24 bytes
is read without this record, and is then taken for the last page there is.

## Main definitions

* `Tdxrs.HqEnv.OffsetsFit` — all page offsets asked for fit the request's start field.
* `Tdxrs.ValidStockCode` — the codes that the K-line calls accept.

## Main results

* `Tdxrs.HqEnv.allPages_eq` — the loop joins its pages.
* `Tdxrs.HqEnv.allPages_exact_iff` — the loop gives the newest elements exactly if no page has
  lost any.
* `Tdxrs.raw_paging_exact_iff` — unadjusted paged calls return the newest bars, and no page offset
  exceeds the 16 bits of the request; those of an index exactly if the last record of every page
  is long enough.
-/

namespace Tdxrs

open Window

variable {σ : Type} {β : Type}

/-- A code that the K-line calls accept: six ASCII alphanumerics, and not a block code. -/
def ValidStockCode (code : String) : Prop :=
  codeBytesStrict code = .ok (asBytes code) ∧ isBlockCode code = false

namespace HqEnv

/-- The page offsets that were asked for since `s` all fit the request's 16 bits. -/
def OffsetsFit (s s' : HqState σ) : Prop :=
  ∃ new, s'.starts = s.starts ++ new ∧ ∀ start ∈ new, start ≤ 65535

lemma OffsetsFit.refl (s : HqState σ) : OffsetsFit s s := ⟨[], by simp, by simp⟩

/-- One more K-line request. -/
lemma OffsetsFit.concat {s s' : HqState σ} (h : OffsetsFit s s') {start : ℕ}
    (hstart : start ≤ 65535) (w : σ) : OffsetsFit s ⟨w, s'.starts ++ [start]⟩ := by
  obtain ⟨new, hnew, hfit⟩ := h
  refine ⟨new ++ [start], by rw [hnew, List.append_assoc], fun x hx => ?_⟩
  rcases List.mem_append.mp hx with hx | hx
  · exact hfit x hx
  · rw [List.mem_singleton.mp hx]
    exact hstart

/-- Where the first try succeeds there are no retries. -/
lemma sendAndRecvLimited_ok {env : HqEnv σ} {packet body : Bytes} {w w' : σ}
    (h : env.trySendAndRecv packet w = (.ok body, w')) :
    env.sendAndRecvLimited packet w = (.ok body, w') := by
  rw [sendAndRecvLimited, h]

/-- A K-line request whose packet is answered by the given bars, in every world. -/
lemma requestBars_of_answered {env : HqEnv σ} {parse : Bytes → Except TdxError (List β)}
    {packet : Bytes} {bars : List β}
    (h : ∀ w, ∃ body w', env.trySendAndRecv packet w = (.ok body, w') ∧ parse body = .ok bars)
    (start : ℕ) (s : HqState σ) :
    ∃ w, env.requestBars parse packet start s = (.ok bars, ⟨w, s.starts ++ [start]⟩) := by
  obtain ⟨body, w, hsend, hparse⟩ := h s.world
  exact ⟨w, by simp only [requestBars, sendAndRecvLimited_ok hsend, hparse]⟩

/-- **The attempts at a K-line call** return the bars that every attempt returns, whether they
end with the first one or, for empty bars, on the last server.

**Proof sketch.** Induction on the attempts that are left, with the invariant `I` of the states. An
attempt that is repeated has returned no bars, so that no bars are what every attempt returns, and
the last one too. -/
lemma attemptBars_eq {env : HqEnv σ} {I : HqState σ → Prop}
    {request : HqState σ → Except TdxError (List β) × HqState σ} {bars : List β}
    (hrequest : ∀ s, I s → ∃ s', request s = (.ok bars, s') ∧ I s')
    (hswitch : ∀ s, I s → I { s with world := env.reconnectToAnotherServer s.world })
    (shouldRetryEmpty : Bool) {attempts : ℕ} (hpos : 0 < attempts ∨ bars = []) {s : HqState σ}
    (hs : I s) :
    ∃ s', env.attemptBars request shouldRetryEmpty attempts s = (.ok bars, s') ∧ I s' := by
  induction attempts generalizing s with
  | zero =>
    obtain rfl : bars = [] := by simpa using hpos
    exact ⟨s, rfl, hs⟩
  | succ attempts ih =>
    obtain ⟨s₁, hreq, hs₁⟩ := hrequest s hs
    simp only [attemptBars, hreq]
    split
    · exact ⟨s₁, rfl, hs₁⟩
    · rename_i hempty
      have hnil : bars = [] := by
        by_contra hne
        exact hempty (by simp [hne])
      refine ih (.inr hnil) ?_
      split
      · exact hswitch s₁ hs₁
      · exact hs₁

/-- One K-line call, before any adjustment, returns the bars of the answer. -/
lemma rawBars_of_answered {env : HqEnv σ} {parse : Bytes → Except TdxError (List β)}
    {packet : Bytes} {bars : List β}
    (h : ∀ w, ∃ body w', env.trySendAndRecv packet w = (.ok body, w') ∧ parse body = .ok bars)
    (category : UInt8) {start : ℕ} (hstart : start ≤ 65535) {s₀ s : HqState σ}
    (hs : OffsetsFit s₀ s) :
    ∃ s', env.rawBars parse category packet start s = (.ok bars, s') ∧ OffsetsFit s₀ s' := by
  refine attemptBars_eq (fun s hs => ?_) (fun s hs => hs) _ (.inl (by split <;> omega)) hs
  obtain ⟨w, hreq⟩ := requestBars_of_answered h start s
  exact ⟨_, hreq, hs.concat hstart w⟩

/-- **The paging loop joins its pages.** Where every page call succeeds with the page `P o n`,
which has as many bars as a slice of a history of `len` bars, the loop returns the joined pages.

**Proof sketch.** Strong induction on what remains. A page past the end is empty, and a short page
reaches the end, so that all later pages are empty and nothing is left out by stopping there;
otherwise the page has as many bars as asked for, and the rest is the same call for less. -/
theorem allPages_eq {I : HqState σ → Prop} {P : ℕ → ℕ → List β} {len : ℕ}
    {page : ℕ → ℕ → HqState σ → Except TdxError (List β) × HqState σ}
    (hlen : ∀ o n, (P o n).length = min n (len - o))
    (hpage : ∀ o n s, o ≤ 65535 → n ≤ 65535 → I s →
      ∃ s', page o n s = (.ok (P o n), s') ∧ I s')
    {offset remaining : ℕ} (hfit : offset + remaining ≤ 65535) (all : List β) {s : HqState σ}
    (hs : I s) :
    ∃ s', allPages page offset remaining all s =
      (.ok (assemble P (pages maxKlineCount offset remaining) ++ all), s') ∧ I s' := by
  induction remaining using Nat.strong_induction_on generalizing offset all s with
  | h remaining ih =>
    have hmax : maxKlineCount = 800 := rfl
    rw [allPages]
    by_cases hr : 0 < remaining
    · obtain ⟨s₁, hreq, hs₁⟩ := hpage offset (min remaining maxKlineCount) s (by omega)
        (by omega) hs
      have hn := hlen offset (min remaining maxKlineCount)
      have hpast : len ≤ offset + min remaining maxKlineCount →
          assemble P (pages maxKlineCount (offset + min remaining maxKlineCount)
            (remaining - min remaining maxKlineCount)) = [] := by
        intro hend
        refine assemble_eq_nil fun o n ho _ => List.length_eq_zero_iff.mp ?_
        rw [hlen]
        omega
      simp only [if_pos hr, hreq, pages_of_pos (by decide : 0 < maxKlineCount) hr,
        assemble_cons, List.append_assoc]
      by_cases hempty : (P offset (min remaining maxKlineCount)).isEmpty
      · rw [if_pos hempty]
        rw [List.isEmpty_iff.mp hempty] at hn ⊢
        rw [hpast (by simp only [List.length_nil] at hn; omega)]
        exact ⟨s₁, rfl, hs₁⟩
      · rw [if_neg hempty, hn]
        by_cases hshort : min (min remaining maxKlineCount) (len - offset) % 65536 <
            min remaining maxKlineCount
        · rw [if_pos hshort, hpast (by omega)]
          exact ⟨s₁, rfl, hs₁⟩
        · have hfull : min (min remaining maxKlineCount) (len - offset) % 65536 =
              min remaining maxKlineCount := by omega
          rw [if_neg hshort, hfull]
          exact ih _ (by omega) (by omega) _ hs₁
    · obtain rfl : remaining = 0 := by omega
      exact ⟨s, by simp, hs⟩

/-- **The paging loop is exact just if no page has lost any elements.** Every page call succeeds
with the page `P o n`, which is the slice asked for or shorter than it. The loop then returns the
slice that it is asked for exactly if all its pages are slices.

**Proof sketch.** Strong induction on what remains. A page that is shorter than its slice is short,
so that the loop stops there with fewer elements than the slice has. A page that is its slice is
either full, and the older pages decide, or the history ends in it, and the slices of all older
pages are empty. -/
theorem allPages_exact_iff {I : HqState σ → Prop} {P : ℕ → ℕ → List β} {history : List β}
    {page : ℕ → ℕ → HqState σ → Except TdxError (List β) × HqState σ}
    (hloss : ∀ o n, P o n = slice history o n ∨ (P o n).length < (slice history o n).length)
    (hpage : ∀ o n s, o ≤ 65535 → n ≤ 65535 → I s →
      ∃ s', page o n s = (.ok (P o n), s') ∧ I s')
    {offset remaining : ℕ} (hfit : offset + remaining ≤ 65535) (all : List β) {s : HqState σ}
    (hs : I s) :
    ∃ bars s', allPages page offset remaining all s = (.ok (bars ++ all), s') ∧ I s' ∧
      (bars = slice history offset remaining ↔
        ∀ r ∈ pages maxKlineCount offset remaining, P r.1 r.2 = slice history r.1 r.2) := by
  induction remaining using Nat.strong_induction_on generalizing offset all s with
  | h remaining ih =>
    have hmax : maxKlineCount = 800 := rfl
    rw [allPages]
    by_cases hr : 0 < remaining
    · set n := min remaining maxKlineCount with hn
      obtain ⟨s₁, hreq, hs₁⟩ := hpage offset n s (by omega) (by omega) hs
      have hjoin : slice history (offset + n) (remaining - n) ++ slice history offset n =
          slice history offset remaining := by
        rw [slice_append]
        congr 1
        omega
      have hlen := congrArg List.length hjoin
      have hsize := length_slice history offset n
      rw [List.length_append] at hlen
      simp only [if_pos hr, hreq, pages_of_pos (by decide : 0 < maxKlineCount) hr, ← hn,
        List.forall_mem_cons]
      rcases hloss offset n with hslice | hlost
      · -- the page is its slice: it is the last one there is, or it is full
        by_cases hend : history.length - offset < n
        · have hold : ∀ r ∈ pages maxKlineCount (offset + n) (remaining - n),
              P r.1 r.2 = slice history r.1 r.2 := fun r hmem => by
            have hnone : slice history r.1 r.2 = [] :=
              slice_eq_nil_iff.mpr (.inr (by have := (mem_pages hmem).1; omega))
            refine (hloss r.1 r.2).resolve_right fun hshort => ?_
            rw [hnone] at hshort
            exact Nat.not_lt_zero _ hshort
          have hnone : slice history (offset + n) (remaining - n) = [] :=
            slice_eq_nil_iff.mpr (.inr (by omega))
          rw [hnone, List.nil_append] at hjoin
          refine ⟨P offset n, s₁, ?_, hs₁, iff_of_true (hslice.trans hjoin) ⟨hslice, hold⟩⟩
          split
          · rename_i hempty
            rw [List.isEmpty_iff.mp hempty, List.nil_append]
          · rw [if_pos (by rw [hslice]; omega)]
        · have hfull : (P offset n).length = n := by
            rw [hslice]
            omega
          have hne : ¬ (P offset n).isEmpty := by
            rw [List.isEmpty_iff_length_eq_zero]
            omega
          have hmod : n % 65536 = n := Nat.mod_eq_of_lt (by omega)
          rw [if_neg hne, hfull, hmod, if_neg (Nat.lt_irrefl n)]
          have hfit' : offset + n + (remaining - n) ≤ 65535 := by omega
          obtain ⟨bars, s', hrest, hs', hiff⟩ := ih (remaining - n) (by omega) hfit'
            (P offset n ++ all) hs₁
          refine ⟨bars ++ P offset n, s', by rw [hrest, List.append_assoc], hs', ?_⟩
          rw [hslice, ← hjoin, List.append_cancel_right_eq, hiff]
          exact (and_iff_right rfl).symm
      · -- the page has lost elements: the loop stops here
        have hfew : P offset n ≠ slice history offset remaining := fun h => by
          have := congrArg List.length h
          omega
        have hloses : P offset n ≠ slice history offset n := fun h => by
          have := congrArg List.length h
          omega
        refine ⟨P offset n, s₁, ?_, hs₁, iff_of_false hfew fun h => hloses h.1⟩
        split
        · rename_i hempty
          rw [List.isEmpty_iff.mp hempty, List.nil_append]
        · rw [if_pos (by omega)]
    · obtain rfl : remaining = 0 := by omega
      exact ⟨[], s, by simp, hs, by simp [slice, List.rtake]⟩

/-- Pages that are the slices of a history join to its newest elements. -/
lemma assemble_slice_zero (history : List β) (count : ℕ) :
    assemble (slice history) (pages maxKlineCount 0 count) = history.rtake count := by
  rw [assemble_slice history (by decide), slice_zero]

/-- An unadjusted call returns the slice asked for. -/
lemma getSecurityBars_raw {env : HqEnv σ} {category market : UInt8} {code : String}
    (hcode : ValidStockCode code) {history : List SecurityBar}
    (h : ServesSlices env.trySendAndRecv (parseSecurityBars env.maxValidYear category) category
      market code history)
    {start count : ℕ} (hstart : start ≤ 65535) (hcount : count ≤ 65535) {s₀ s : HqState σ}
    (hs : OffsetsFit s₀ s) :
    ∃ s', env.getSecurityBars category market code start count 0 s =
      (.ok (slice history start count), s') ∧ OffsetsFit s₀ s' := by
  obtain ⟨s', hraw, hs'⟩ := rawBars_of_answered (h.build hstart hcount) category hstart hs
  have hnotblock : checkNotBlockCode code = .ok () := by
    rw [checkNotBlockCode, hcode.2]
    rfl
  refine ⟨s', ?_, hs'⟩
  simp only [getSecurityBars, getSecurityBarsWith, hnotblock, hcode.1, hraw, adjustFetched,
    ne_eq, not_true_eq_false, false_and, if_false]

/-- An adjusted call is the unadjusted one, followed by the adjustment.

**Proof sketch.** The same checks and the same attempts come first, and without adjustment the bars
are returned as they are. -/
lemma getSecurityBarsWith_eq (env : HqEnv σ) (A : Arithmetic) (context : ContextFetch σ)
    (category market : UInt8) (code : String) (start count : ℕ) (fq : UInt8) (s : HqState σ) :
    env.getSecurityBarsWith A context category market code start count fq s =
      match env.getSecurityBars category market code start count 0 s with
      | (.error e, s) => (.error e, s)
      | (.ok bars, s) =>
        (.ok (env.adjustFetched A context market code fq bars s.world).1,
          { s with world := (env.adjustFetched A context market code fq bars s.world).2 }) := by
  unfold getSecurityBars getSecurityBarsWith
  cases checkNotBlockCode code with
  | error e => rfl
  | ok _ =>
    cases codeBytesStrict code with
    | error e => rfl
    | ok _ =>
      simp only
      rcases env.rawBars (parseSecurityBars env.maxValidYear category) category
        (buildSecurityBarsPacket category market code start count) start s with ⟨raw, s'⟩
      cases raw with
      | error e => rfl
      | ok bars =>
        simp only [adjustFetched, ne_eq, not_true_eq_false, false_and, if_false]

/-- An index call returns the bars that are read of the slice asked for.

**Proof sketch.** The server answers with the encoded slice, of which `parseIndexBars_encode` says
what is read: all of it or all but its last bar. Every attempt returns this
(`rawBars_of_answered`). -/
lemma getIndexBars_raw {env : HqEnv σ} {category market : UInt8} {code : String}
    (hcode : ValidStockCode code) {records : List IndexRecord}
    (hrecords : ∀ r ∈ records, r.Encodable env.maxValidYear category)
    (h : ServesRecords env.trySendAndRecv (encodeIndexBars category) category market code records)
    {start count : ℕ} (hstart : start ≤ 65535) (hcount : count ≤ 65535) (fq : UInt8)
    {s₀ s : HqState σ} (hs : OffsetsFit s₀ s) :
    ∃ s', env.getIndexBars category market code start count fq s =
      (.ok (barsRead category (slice records start count)), s') ∧ OffsetsFit s₀ s' := by
  have hlen : (slice records start count).length < 2 ^ 16 := by
    rw [length_slice]
    omega
  have hread : parseIndexBars env.maxValidYear category
      (encodeIndexBars category (slice records start count)) = _ :=
    parseIndexBars_encode hlen fun r hr =>
      hrecords r ((slice_sublist records start count).subset hr)
  have hanswered (w : σ) : ∃ body w',
      env.trySendAndRecv (buildSecurityBarsPacket category market code start count) w =
        (.ok body, w') ∧ parseIndexBars env.maxValidYear category body = _ :=
    ⟨_, (h.build hstart hcount w).choose, (h.build hstart hcount w).choose_spec, hread⟩
  obtain ⟨s', hraw, hs'⟩ := rawBars_of_answered hanswered category hstart hs
  have hnotblock : checkNotBlockCode code = .ok () := by
    rw [checkNotBlockCode, hcode.2]
    rfl
  refine ⟨s', ?_, hs'⟩
  simp only [getIndexBars, hnotblock, buildIndexBarsPacket, hraw]

/-- The paged index call returns bars, and those are the newest of the history exactly if every page
is read in full.

**Proof sketch.** Every page is the slice asked for, or shorter than it by its last bar
(`barsRead_eq_or`). So the loop returns bars, and they are the newest ones exactly if no page has
lost one (`allPages_exact_iff`), which is to say that the last record of each page is roomy. -/
lemma getIndexBarsAll_eq {env : HqEnv σ} {category market : UInt8} {code : String}
    (hcode : ValidStockCode code) {records : List IndexRecord}
    (hrecords : ∀ r ∈ records, r.Encodable env.maxValidYear category)
    (h : ServesRecords env.trySendAndRecv (encodeIndexBars category) category market code records)
    (count : UInt16) (fq : UInt8) (s : HqState σ) :
    ∃ bars s', env.getIndexBarsAll category market code count fq s = (.ok bars, s') ∧
      OffsetsFit s s' ∧
      (bars = (records.map (IndexRecord.bar category)).rtake count.toNat ↔
        ∀ r ∈ pages maxKlineCount 0 count.toNat, LastRoomy 0 (slice records r.1 r.2)) := by
  have hloss (o n : ℕ) : barsRead category (slice records o n) =
        slice (records.map (IndexRecord.bar category)) o n ∨
      (barsRead category (slice records o n)).length <
        (slice (records.map (IndexRecord.bar category)) o n).length := by
    rw [slice_map, List.length_map]
    rcases barsRead_eq_or category (slice records o n) with ⟨-, hall⟩ | ⟨-, hlost⟩
    · exact .inl hall
    · exact .inr (by omega)
  have hfit : 0 + count.toNat ≤ 65535 := by
    have := count.toNat_lt
    omega
  obtain ⟨bars, s', hloop, hs', hiff⟩ := allPages_exact_iff hloss
    (fun o n s' ho hn hs' => getIndexBars_raw hcode hrecords h ho hn fq hs') hfit []
    (OffsetsFit.refl s)
  rw [List.append_nil] at hloop
  simp only [slice_zero, slice_map, barsRead_eq_iff] at hiff
  exact ⟨bars, s', hloop, hs', hiff⟩

end HqEnv

/-- **Raw paging is exact for securities, and for an index exactly if every page is read in full.**
Against servers that all answer by the slices of one history, with no request failing, a paged call
without adjustment terminates and returns exactly the newest `count` bars of the history, or all of
them if there are fewer, in the order of the history; and no page offset exceeds the 16 bits of the
request's start field. The paged index call does so exactly if on every page the four prices of
the last record take eight bytes or more.

**Proof sketch.** Every page of a security is the slice asked for, and adjacent slices join. A page
of an index is the slice or has one bar fewer, and `allPages_exact_iff` applies. -/
theorem raw_paging_exact_iff (env : HqEnv σ) (category market : UInt8) (code : String)
    (hcode : ValidStockCode code) (count : UInt16) (s : HqState σ) :
    (∀ history : List SecurityBar,
      ServesSlices env.trySendAndRecv (parseSecurityBars env.maxValidYear category) category market
        code history →
      ∃ s', env.getSecurityBarsAll category market code count 0 s =
        (.ok (history.rtake count.toNat), s') ∧ HqEnv.OffsetsFit s s') ∧
    ∀ records : List IndexRecord, (∀ r ∈ records, r.Encodable env.maxValidYear category) →
      ServesRecords env.trySendAndRecv (encodeIndexBars category) category market code records →
      ((∃ s', env.getIndexBarsAll category market code count 0 s =
          (.ok ((records.map (IndexRecord.bar category)).rtake count.toNat), s') ∧
        HqEnv.OffsetsFit s s') ↔
        ∀ r ∈ pages maxKlineCount 0 count.toNat, LastRoomy 0 (slice records r.1 r.2)) := by
  have hcount : 0 + count.toNat ≤ 65535 := by
    have := count.toNat_lt
    omega
  refine ⟨fun history h => ?_, fun records hrecords h => ?_⟩
  · have hpaged := HqEnv.allPages_eq (P := slice history) (length_slice history)
      (fun o n s' ho hn hs' => HqEnv.getSecurityBars_raw hcode h ho hn hs') hcount []
      (HqEnv.OffsetsFit.refl s)
    rwa [HqEnv.assemble_slice_zero, List.append_nil] at hpaged
  · obtain ⟨bars, s', hcall, hs', hiff⟩ :=
      HqEnv.getIndexBarsAll_eq hcode hrecords h count 0 s
    rw [← hiff]
    constructor
    · rintro ⟨s'', hsame, -⟩
      exact Except.ok.inj (Prod.mk.inj (hcall.symm.trans hsame)).1
    · rintro rfl
      exact ⟨s', hcall, hs'⟩

/-! ## Two pages of an index -/

/-- 801 days of a stock and of an index that moves much, in two pages each. -/
theorem raw_paging_exact_iff_two_pages :
    (∃ s', (sliceEnv manyDays (.ok []) fun _ => false).getSecurityBarsAll 4 1 "600519" 801 0
        ⟨(), []⟩ = (.ok ((barsOf 4 manyDays).rtake 801), s') ∧ HqEnv.OffsetsFit ⟨(), []⟩ s') ∧
      ∃ s', (indexEnv wideDays).getIndexBarsAll 4 1 "000001" 801 0 ⟨(), []⟩ =
        (.ok ((wideDays.map (IndexRecord.bar 4)).rtake 801), s') ∧
        HqEnv.OffsetsFit ⟨(), []⟩ s' :=
  ⟨(raw_paging_exact_iff _ 4 1 "600519" ⟨by rfl, by decide +kernel⟩ 801 ⟨(), []⟩).1 _
      (sliceEnv_serves manyDays_encodable _ _ _),
    ((raw_paging_exact_iff _ 4 1 "000001" ⟨by rfl, by decide +kernel⟩ 801 ⟨(), []⟩).2 _
      wideDays_encodable (indexEnv_serves wideDays 4 1 "000001")).mpr fun r _ =>
        lastRoomy_of_forall fun day hday =>
          wideDays_roomy day ((slice_sublist wideDays r.1 r.2).subset hday)⟩

/-- Of two days of an index that hardly moves on the second one, the newest is lost. -/
theorem index_paging_loses_newest :
    ValidStockCode "000001" ∧ (∀ r ∈ quietDays, r.Encodable 2036 4) ∧
      (quietDays.Pairwise fun a b =>
        dateKey a.year a.month a.day < dateKey b.year b.month b.day) ∧
      ServesRecords (indexEnv quietDays).trySendAndRecv (encodeIndexBars 4) 4 1 "000001"
        quietDays ∧
      ∀ s', (indexEnv quietDays).getIndexBarsAll 4 1 "000001" 2 0 ⟨(), []⟩ ≠
        (.ok ((quietDays.map (IndexRecord.bar 4)).rtake 2), s') := by
  have hcode : ValidStockCode "000001" := ⟨by rfl, by decide +kernel⟩
  have hserves := indexEnv_serves quietDays 4 1 "000001"
  refine ⟨hcode, quietDays_encodable, by decide +kernel, hserves, fun s' h => ?_⟩
  obtain ⟨bars, s'', hcall, -, hiff⟩ :=
    HqEnv.getIndexBarsAll_eq hcode quietDays_encodable hserves 2 0 ⟨(), []⟩
  have hroomy := hiff.mp (Except.ok.inj (Prod.mk.inj (hcall.symm.trans h)).1) (0, 2)
    (by rw [pages_of_pos (by decide) (by decide)]; exact List.mem_cons_self)
  exact absurd hroomy (by decide +kernel)

end Tdxrs
