import Tdxrs.Net.SliceServer

set_option relaxedAutoImplicit false
set_option autoImplicit false

/-!
# Paging from servers that fail

A paged call for the K-line of a security without adjustment, when tries of a request may fail,
reconnects may lead anywhere, and servers may have less of the history than they are asked for: the
tries that answer give some of the newest bars of the slice asked for, or none. Whatever happens,
the call gives no bars with a gap in them: it fails, or gives the newest bars of the history, if
perhaps not all that were asked for. It gives all of them if every try that answers gives the whole
slice.

The paged call for an index is not among these: a page whose last record has fewer than 24 bytes is
read without its newest bar, whatever the server sends.

## Main definitions

* `Tdxrs.AnswersSlices` — what a try answers, if it does.

## Main results

* `Tdxrs.HqEnv.allPages_newest` — the paging loop.
* `Tdxrs.paging_without_gaps` — the paged call of the client.
-/

namespace Tdxrs

open Window

variable {σ β : Type}

/-- A request for the K-line of a stock may fail in any world. If it is answered by bars, they are
the newest ones of the slice of the history that it asks for, as many of them as `Enough` allows. -/
def AnswersSlices (Enough : ℕ → ℕ → Prop) (send : Bytes → σ → Except TdxError Bytes × σ)
    (parse : Bytes → Except TdxError (List β)) (category market : UInt8) (code : String)
    (history : List β) : Prop :=
  ∀ packet start count w body w' bars,
    BarsRequest.ofPacket packet =
      some ⟨category.toNat, market.toNat, codeBytes code, start, count⟩ →
    send packet w = (.ok body, w') → parse body = .ok bars →
    ∃ n ≤ count, Enough count n ∧ bars = slice history start n

/-- A slice of at most `n` elements, as many of them as `Enough` allows. -/
def PartOf (Enough : ℕ → ℕ → Prop) (history : List β) (start count : ℕ) (bars : List β) : Prop :=
  ∃ n ≤ count, Enough count n ∧ bars = slice history start n

namespace HqEnv

variable {env : HqEnv σ} {Enough : ℕ → ℕ → Prop} {history : List β}

/-! ## One call -/

/-- The body of an answer after retries is that of some try. -/
lemma retryLoop_ok {packet body : Bytes} {w' : σ} : ∀ {left : ℕ} {w : σ},
    env.retryLoop packet left w = (.ok body, w') →
      ∃ w₁ w₂, env.trySendAndRecv packet w₁ = (.ok body, w₂)
  | 0, _, h => nomatch h
  | left + 1, w, h => by
    rw [retryLoop] at h
    rcases htry : env.trySendAndRecv packet (env.reconnectIfNeeded w) with ⟨e | answer, w₁⟩ <;>
      rw [htry] at h
    · exact retryLoop_ok h
    · obtain ⟨hbody, -⟩ := Prod.mk.inj h
      exact ⟨_, w₁, htry.trans (by rw [hbody])⟩

/-- The body of an answer is that of some try. -/
lemma sendAndRecvLimited_eq_ok {packet body : Bytes} {w w' : σ}
    (h : env.sendAndRecvLimited packet w = (.ok body, w')) :
    ∃ w₁ w₂, env.trySendAndRecv packet w₁ = (.ok body, w₂) := by
  rw [sendAndRecvLimited] at h
  rcases htry : env.trySendAndRecv packet w with ⟨e | answer, w₁⟩ <;> rw [htry] at h
  · simp only at h
    split at h
    · exact nomatch h
    · exact retryLoop_ok h
  · obtain ⟨hbody, -⟩ := Prod.mk.inj h
    exact ⟨w, w₁, htry.trans (by rw [hbody])⟩

/-- One request gives part of the slice, if it gives bars. -/
lemma requestBars_part {parse : Bytes → Except TdxError (List β)} {category market : UInt8}
    {code : String}
    (h : AnswersSlices Enough env.trySendAndRecv parse category market code history)
    {start count : ℕ} (hstart : start ≤ 65535) (hcount : count ≤ 65535) {s s' : HqState σ}
    {bars : List β}
    (hreq : env.requestBars parse (buildSecurityBarsPacket category market code start count) start s
      = (.ok bars, s')) : PartOf Enough history start count bars := by
  rw [requestBars] at hreq
  rcases hsend : env.sendAndRecvLimited (buildSecurityBarsPacket category market code start count)
    s.world with ⟨e | body, w⟩ <;> rw [hsend] at hreq
  · exact nomatch (Prod.mk.inj hreq).1
  · obtain ⟨w₁, w₂, htry⟩ := sendAndRecvLimited_eq_ok hsend
    have hpacket := ofPacket_build category market code start count
    rw [Nat.mod_eq_of_lt (by omega), Nat.mod_eq_of_lt (by omega)] at hpacket
    exact h _ start count w₁ body w₂ bars hpacket htry (Prod.mk.inj hreq).1

/-- What every attempt that gives bars gives, the attempts together give.

**Proof sketch.** Induction on the attempts that are left: bars that are returned come from some
attempt, or are none after an attempt that gave none. -/
lemma attemptBars_part {P : List β → Prop}
    {request : HqState σ → Except TdxError (List β) × HqState σ}
    (hrequest : ∀ s bars s', request s = (.ok bars, s') → P bars) (shouldRetryEmpty : Bool)
    {bars : List β} {s' : HqState σ} : ∀ {attempts : ℕ} {s : HqState σ},
      (0 < attempts ∨ P []) →
      env.attemptBars request shouldRetryEmpty attempts s = (.ok bars, s') → P bars
  | 0, s, hpos, h => by
    obtain rfl := Except.ok.inj (Prod.mk.inj h).1
    exact hpos.resolve_left (Nat.lt_irrefl 0)
  | attempts + 1, s, _, h => by
    rw [attemptBars] at h
    rcases hreq : request s with ⟨e | parsed, s₁⟩ <;> rw [hreq] at h
    · exact nomatch (Prod.mk.inj h).1
    · have hparsed := hrequest s parsed s₁ hreq
      simp only at h
      split at h
      · obtain rfl := Except.ok.inj (Prod.mk.inj h).1
        exact hparsed
      · rename_i hempty
        have hnil : parsed = [] := by
          by_contra hne
          exact hempty (by simp [hne])
        exact attemptBars_part hrequest shouldRetryEmpty (.inr (hnil ▸ hparsed)) h

/-- One K-line call gives part of the slice, if it gives bars. -/
lemma rawBars_part {parse : Bytes → Except TdxError (List β)} {category market : UInt8}
    {code : String}
    (h : AnswersSlices Enough env.trySendAndRecv parse category market code history)
    {start count : ℕ} (hstart : start ≤ 65535) (hcount : count ≤ 65535) {s s' : HqState σ}
    {bars : List β}
    (hraw : env.rawBars parse category (buildSecurityBarsPacket category market code start count)
      start s = (.ok bars, s')) : PartOf Enough history start count bars :=
  attemptBars_part (fun _ _ _ hreq => requestBars_part h hstart hcount hreq) _
    (.inl (by split <;> omega)) hraw

/-! ## The paging loop -/

/-- A page in front of the newest bars is the newest bars. -/
lemma slice_append_rtake (history : List β) (offset n : ℕ) :
    slice history offset n ++ history.rtake offset = history.rtake (offset + n) := by
  have h := slice_append history 0 offset n
  rwa [Nat.zero_add, slice_zero, slice_zero] at h

/-- **The paging loop gives the newest bars**, when every page that is given is part of the slice
asked for: at most as many as it was asked for, and all of them, if the pages have enough.

**Proof sketch.** Strong induction on what remains. The bars at hand are the newest ones up to the
offset. The loop goes on only with a full page, so that they are this again. Where it ends and pages
always are whole slices, there are no older bars. -/
theorem allPages_newest {page : ℕ → ℕ → HqState σ → Except TdxError (List β) × HqState σ}
    (hpage : ∀ o n s bars s', o ≤ 65535 → n ≤ 65535 → page o n s = (.ok bars, s') →
      PartOf Enough history o n bars)
    {offset remaining : ℕ} (hfit : offset + remaining ≤ 65535) {s s' : HqState σ} {result : List β}
    (hrun : allPages page offset remaining (history.rtake offset) s = (.ok result, s')) :
    (∃ k ≤ offset + remaining, result = history.rtake k) ∧
      ((∀ count n, Enough count n → count ≤ n) → result = history.rtake (offset + remaining)) := by
  induction remaining using Nat.strong_induction_on generalizing offset s with
  | h remaining ih =>
    have hmax : maxKlineCount = 800 := rfl
    rw [allPages] at hrun
    by_cases hr : 0 < remaining
    · simp only [if_pos hr] at hrun
      rcases hreq : page offset (min remaining maxKlineCount) s with ⟨e | bars, s₁⟩ <;>
        rw [hreq] at hrun
      · cases (Prod.mk.inj hrun).1
      · obtain ⟨n, hn, henough, rfl⟩ :=
          hpage offset (min remaining maxKlineCount) s bars s₁ (by omega) (by omega) hreq
        have hlen := length_slice history offset n
        -- a short page has all older bars, if pages are whole
        have hend (hall : ∀ count n, Enough count n → count ≤ n)
            (hshort : (slice history offset n).length < min remaining maxKlineCount) :
            history.length ≤ offset + (slice history offset n).length := by
          have := hall _ _ henough
          omega
        simp only [slice_append_rtake] at hrun
        split at hrun
        · rename_i hempty
          obtain rfl := Except.ok.inj (Prod.mk.inj hrun).1
          refine ⟨⟨offset, by omega, rfl⟩, fun hall => ?_⟩
          have hnil : (slice history offset n).length = 0 := by
            rw [List.isEmpty_iff.mp hempty, List.length_nil]
          have := hend hall (by omega)
          rw [rtake_of_le (by omega), rtake_of_le (by omega)]
        · split at hrun
          · rename_i hshort
            obtain rfl := Except.ok.inj (Prod.mk.inj hrun).1
            refine ⟨⟨offset + n, by omega, rfl⟩, fun hall => ?_⟩
            have := hend hall (by omega)
            rw [rtake_of_le (by omega), rtake_of_le (by omega)]
          · rename_i hfull
            have hcount : (slice history offset n).length % 65536 = n := by omega
            rw [hcount] at hrun
            have hrest := ih (remaining - n) (by omega) (by omega) hrun
            rwa [show offset + n + (remaining - n) = offset + remaining by omega] at hrest
    · obtain rfl : remaining = 0 := by omega
      rw [if_neg hr] at hrun
      obtain rfl := Except.ok.inj (Prod.mk.inj hrun).1
      exact ⟨⟨offset, le_rfl, rfl⟩, fun _ => rfl⟩

/-- The paging loop from the newest bar on. -/
lemma allPages_newest_zero {page : ℕ → ℕ → HqState σ → Except TdxError (List β) × HqState σ}
    (hpage : ∀ o n s bars s', o ≤ 65535 → n ≤ 65535 → page o n s = (.ok bars, s') →
      PartOf Enough history o n bars)
    {count : UInt16} {s s' : HqState σ} {result : List β}
    (hrun : allPages page 0 count.toNat [] s = (.ok result, s')) :
    (∃ k ≤ count.toNat, result = history.rtake k) ∧
      ((∀ count n, Enough count n → count ≤ n) → result = history.rtake count.toNat) := by
  have hcount := count.toNat_lt
  have hnone : history.rtake 0 = [] := by simp [List.rtake]
  rw [← hnone] at hrun
  have h := allPages_newest hpage (by omega) hrun
  rwa [Nat.zero_add] at h

/-- An unadjusted call gives part of the slice, if it gives bars. -/
lemma getSecurityBars_part {history : List SecurityBar} {category market : UInt8} {code : String}
    (h : AnswersSlices Enough env.trySendAndRecv (parseSecurityBars env.maxValidYear category)
      category market code history)
    {start count : ℕ} (hstart : start ≤ 65535) (hcount : count ≤ 65535) {s s' : HqState σ}
    {bars : List SecurityBar}
    (hcall : env.getSecurityBars category market code start count 0 s = (.ok bars, s')) :
    PartOf Enough history start count bars := by
  unfold getSecurityBars getSecurityBarsWith at hcall
  split at hcall
  · exact nomatch (Prod.mk.inj hcall).1
  · exact nomatch (Prod.mk.inj hcall).1
  · split at hcall
    · exact nomatch (Prod.mk.inj hcall).1
    · rename_i raw s₁ hraw
      rw [show raw = bars from Except.ok.inj (Prod.mk.inj hcall).1] at hraw
      exact rawBars_part h hstart hcount hraw

end HqEnv

/-- **The paged call gives no bars with a gap.** Tries of requests may fail, reconnects may lead to
any server, and servers may answer with any part of the slice asked for that has its newest bars, or
with nothing: if an unadjusted paged call for a security gives bars, they are the newest ones of the
history, at most as many as it was asked for. If every try that answers gives the whole slice, the
call gives all bars that it was asked for, or an error.

**Proof sketch.** One call gives part of the slice that it asks for, if it gives bars, however many
tries it takes. In the loop every page is such a part, and goes in front of a full one, which makes
the bars at hand the newest ones; a page that is not full is the last (`allPages_newest`). -/
theorem paging_without_gaps (env : HqEnv σ) (Enough : ℕ → ℕ → Prop) (category market : UInt8)
    (code : String) (count : UInt16) (history : List SecurityBar)
    (h : AnswersSlices Enough env.trySendAndRecv (parseSecurityBars env.maxValidYear category)
      category market code history)
    (s s' : HqState σ) (bars : List SecurityBar)
    (hrun : env.getSecurityBarsAll category market code count 0 s = (.ok bars, s')) :
    (∃ k ≤ count.toNat, bars = history.rtake k) ∧
      ((∀ count n, Enough count n → count ≤ n) → bars = history.rtake count.toNat) :=
  HqEnv.allPages_newest_zero
    (fun _ _ _ _ _ ho hn hcall => HqEnv.getSecurityBars_part h ho hn hcall) hrun

/-- A client whose every other try fails, and is tried again. -/
def flakyEnv (records : List KLineRecord) : HqEnv ℕ where
  trySendAndRecv packet w :=
    match BarsRequest.ofPacket packet with
    | none => (.error .disconnected, w + 1)
    | some request =>
      if w % 2 = 0 then (.error .disconnected, w + 1)
      else
        (.ok (encodeSecurityBars (UInt8.ofNat request.category)
          (slice records request.start request.count)), w + 1)
  autoRetry _ := true
  reconnectIfNeeded w := w
  reconnectToAnotherServer w := w
  getXdxrInfo _ _ w := (.ok [], w)
  fqContextTier := .mid
  maxValidYear := 2036

/-- Two of three bars, with one failure. -/
theorem paging_without_gaps_flaky :
    let records := (List.range 3).map dayRecord
    ∃ bars, ((flakyEnv records).getSecurityBarsAll 4 1 "600519" 2 0 ⟨0, []⟩).1 = .ok bars ∧
      bars = (barsOf 4 records).rtake 2 := by
  intro records
  have hanswers : AnswersSlices (fun count n => count ≤ n) (flakyEnv records).trySendAndRecv
      (parseSecurityBars 2036 4) 4 1 "600519" (barsOf 4 records) := by
    intro packet start count w body w' bars hpacket hsend hparse
    refine ⟨count, le_rfl, le_rfl, ?_⟩
    simp only [flakyEnv, hpacket] at hsend
    split at hsend
    · exact nomatch (Prod.mk.inj hsend).1
    · rw [← Except.ok.inj (Prod.mk.inj hsend).1] at hparse
      have hrecords : ∀ r ∈ records, r.Encodable 2036 4 := fun r hr =>
        manyDays_encodable r (List.map_subset _ (List.range_subset.mpr (by decide)) hr)
      exact Except.ok.inj (hparse.symm.trans (parse_slice hrecords (count_ofPacket hpacket)))
  have hok : ((flakyEnv records).getSecurityBarsAll 4 1 "600519" 2 0 ⟨0, []⟩).1.isOk = true := by
    decide +kernel
  rcases hrun : (flakyEnv records).getSecurityBarsAll 4 1 "600519" 2 0 ⟨0, []⟩ with ⟨e | bars, s'⟩
  · rw [hrun] at hok
    exact nomatch hok
  · exact ⟨bars, rfl, (paging_without_gaps (flakyEnv records) _ 4 1 "600519" 2 _ hanswers ⟨0, []⟩
      s' bars hrun).2 fun _ _ h => h⟩

end Tdxrs
