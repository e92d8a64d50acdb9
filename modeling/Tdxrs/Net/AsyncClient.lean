import Tdxrs.Net.Paging
import Tdxrs.Net.Pool
import Tdxrs.Net.SliceServer

set_option relaxedAutoImplicit false
set_option autoImplicit false

/-!
# K-line requests of the asynchronous client

`AsyncTdxHqClient` of `src/net/async_client.rs`, from the retries around one request to the paged
K-line call, compared with the synchronous client. What these functions use of the rest of the
client is the record `AsyncEnv`, as `HqEnv` is for the synchronous one. The asynchronous loop puts
each page behind the newer ones where the synchronous loop puts it in front of them, so that it is
the synchronous loop in a mirror.

## Main definitions

* `Tdxrs.AsyncEnv` — the rest of the client.
* `Tdxrs.AsyncEnv.getSecurityBars`, `Tdxrs.AsyncEnv.getSecurityBarsAll` — the K-line calls.
* `Tdxrs.SecurityBar.Before` — the order of bars in time.

## Main results

* `Tdxrs.AsyncEnv.appendPages_eq` — the loop is the synchronous one in a mirror.
* `Tdxrs.AsyncEnv.getSecurityBarsAll_raw` — the pages of the paged call, newest first.
* `Tdxrs.async_paging_iff` — when the two clients return the same bars.
-/

namespace Tdxrs

open Window

/-- What the K-line functions use of the rest of the client. -/
structure AsyncEnv (σ : Type) where
  /-- One try of a request over the channels of the connections. -/
  trySend : Bytes → σ → Except TdxError Bytes × σ
  isConnected : σ → Bool
  currentServer : σ → Option Server
  /-- A connect whose result is not looked at. -/
  connect : Server → σ → σ
  /-- The corporate actions of a stock. -/
  getXdxrInfo : UInt8 → String → σ → Except TdxError (List XdXrInfo) × σ
  fqContextTier : FqContextTier
  maxValidYear : ℕ

variable {σ τ β : Type}

namespace AsyncEnv

/-! ## One request -/

/-- A retry without a connection connects to the current server first. -/
def reconnectIfDown (env : AsyncEnv σ) (w : σ) : σ :=
  if env.isConnected w then w
  else
    match env.currentServer w with
    | some server => env.connect server w
    | none => w

/-- The tries of a failed request that are left. The last error is returned. -/
def retryLoop (env : AsyncEnv σ) (packet : Bytes) :
    ℕ → TdxError → σ → Except TdxError Bytes × σ
  | 0, lastErr, w => (.error lastErr, w)
  | left + 1, _, w =>
    match env.trySend packet (env.reconnectIfDown w) with
    | (.ok body, w) => (.ok body, w)
    | (.error e, w) => env.retryLoop packet left e w

/-- A request with its retries. -/
def sendAndRecv (env : AsyncEnv σ) (packet : Bytes) (w : σ) : Except TdxError Bytes × σ :=
  match env.trySend packet w with
  | (.ok body, w) => (.ok body, w)
  | (.error firstErr, w) => env.retryLoop packet retryCount firstErr w

/-! ## K-line calls -/

/-- The context fetch, with the page budget of the client's tier. -/
def fetchContextBarsForAdjust (env : AsyncEnv σ) (category market : UInt8) (code : String)
    (bars : List SecurityBar) (xdxr : List XdXrInfo) (w : σ) : List SecurityBar × σ :=
  HqEnv.fetchContextBarsForAdjustWithTier env.sendAndRecv
    (parseSecurityBars env.maxValidYear category) category market code bars xdxr
    env.fqContextTier w

/-- One K-line call. The code is not checked, and an empty answer is not tried again. -/
def getSecurityBars (env : AsyncEnv σ) (category market : UInt8) (code : String)
    (start count : ℕ) (fq : UInt8) (s : HqState σ) :
    Except TdxError (List SecurityBar) × HqState σ :=
  match env.sendAndRecv (buildSecurityBarsPacket category market code start count) s.world with
  | (.error e, w) => (.error e, ⟨w, s.starts ++ [start]⟩)
  | (.ok body, w) =>
    match parseSecurityBars env.maxValidYear category body with
    | .error e => (.error e, ⟨w, s.starts ++ [start]⟩)
    | .ok bars =>
      if fq ≠ 0 then
        match env.getXdxrInfo market code w with
        | (.error _, w) => (.ok bars, ⟨w, s.starts ++ [start]⟩)
        | (.ok xdxr, w) =>
          match env.fetchContextBarsForAdjust category market code bars xdxr w with
          | (older, w) =>
            (.ok (adjustSecurityBars sourceArithmetic bars older xdxr (HqEnv.fqType fq)),
              ⟨w, s.starts ++ [start]⟩)
      else (.ok bars, ⟨w, s.starts ++ [start]⟩)

/-- The pages of a paged call that are left, from `offset` on. Each page is older than the bars at
hand, but goes behind them; a short page is the last one. -/
def appendPages (page : ℕ → ℕ → HqState σ → Except TdxError (List β) × HqState σ)
    (offset remaining : ℕ) (all : List β) (s : HqState σ) :
    Except TdxError (List β) × HqState σ :=
  if 0 < remaining then
    let batch := min remaining maxKlineCount
    match page offset batch s with
    | (.error e, s) => (.error e, s)
    | (.ok bars, s) =>
      if bars.isEmpty then (.ok all, s)
      else
        -- the number of bars is counted in 16 bits
        let fetched := bars.length % 65536
        if fetched < batch then (.ok (all ++ bars), s)
        else appendPages page (offset + fetched) (remaining - fetched) (all ++ bars) s
  else (.ok all, s)
termination_by remaining
decreasing_by
  have : 0 < maxKlineCount := by decide
  omega

/-- The paged call. -/
def getSecurityBarsAll (env : AsyncEnv σ) (category market : UInt8) (code : String)
    (count : UInt16) (fq : UInt8) (s : HqState σ) :
    Except TdxError (List SecurityBar) × HqState σ :=
  appendPages (fun offset batch => env.getSecurityBars category market code offset batch fq) 0
    count.toNat [] s

/-! ## The loop in a mirror -/

/-- A result seen in a mirror: the list is reversed. -/
def mirror (x : Except TdxError (List β) × HqState σ) : Except TdxError (List β) × HqState σ :=
  (x.1.map List.reverse, x.2)

lemma mirror_ok (l : List β) (s : HqState σ) : mirror (.ok l, s) = (.ok l.reverse, s) := rfl

lemma mirror_error (e : TdxError) (s : HqState σ) :
    mirror (.error e, s) = ((.error e, s) : Except TdxError (List β) × HqState σ) := rfl

/-- **The loop is the synchronous one in a mirror**: where all pages are reversed and go in front,
the whole comes out reversed.

**Proof sketch.** Strong induction on the bars that are left. A page in the mirror is a page
reversed, so putting it in front of the reversed whole is putting it behind the whole; the two loops
look at the same lengths, and end or go on together. -/
lemma appendPages_eq (page : ℕ → ℕ → HqState σ → Except TdxError (List β) × HqState σ)
    (offset remaining : ℕ) (all : List β) (s : HqState σ) :
    appendPages page offset remaining all s =
      mirror
        (HqEnv.allPages (fun o n s => mirror (page o n s)) offset remaining all.reverse s) := by
  induction remaining using Nat.strong_induction_on generalizing offset all s with
  | h remaining ih =>
    have hmax : maxKlineCount = 800 := rfl
    rw [appendPages, HqEnv.allPages]
    by_cases hr : 0 < remaining
    · simp only [if_pos hr]
      rcases page offset (min remaining maxKlineCount) s with ⟨e | bars, s'⟩
      · simp only [mirror_error]
      · simp only [mirror_ok, List.isEmpty_reverse, List.length_reverse, ← List.reverse_append]
        split
        · rw [mirror_ok, List.reverse_reverse]
        · split
          · rw [mirror_ok, List.reverse_reverse]
          · exact ih _ (by omega) _ _ _
    · rw [if_neg hr, if_neg hr, mirror_ok, List.reverse_reverse]

/-- **The paging loop joins its pages newest first.** Where every page call succeeds with the page
`P o n`, which has as many bars as a slice of a history of `len` bars, the loop returns the pages
behind each other. -/
lemma appendPages_pages {I : HqState σ → Prop} {P : ℕ → ℕ → List β} {len : ℕ}
    {page : ℕ → ℕ → HqState σ → Except TdxError (List β) × HqState σ}
    (hlen : ∀ o n, (P o n).length = min n (len - o))
    (hpage : ∀ o n s, o ≤ 65535 → n ≤ 65535 → I s → ∃ s', page o n s = (.ok (P o n), s') ∧ I s')
    {remaining : ℕ} (hfit : 0 + remaining ≤ 65535) {s : HqState σ} (hs : I s) :
    ∃ s', appendPages page 0 remaining [] s =
      (.ok ((pages maxKlineCount 0 remaining).flatMap fun r => P r.1 r.2), s') ∧ I s' := by
  have hmirror : ∀ o n s, o ≤ 65535 → n ≤ 65535 → I s →
      ∃ s', mirror (page o n s) = (.ok (P o n).reverse, s') ∧ I s' := by
    intro o n s ho hn hs
    obtain ⟨s', hcall, hs'⟩ := hpage o n s ho hn hs
    exact ⟨s', by rw [hcall]; rfl, hs'⟩
  obtain ⟨s', hall, hs'⟩ := HqEnv.allPages_eq (P := fun o n => (P o n).reverse)
    (fun o n => (List.length_reverse).trans (hlen o n)) hmirror hfit [] hs
  refine ⟨s', ?_, hs'⟩
  rw [appendPages_eq, List.reverse_nil, hall, List.append_nil, mirror_ok, reverse_assemble]

/-- Where the first try succeeds there are no retries. -/
lemma sendAndRecv_ok {env : AsyncEnv σ} {packet body : Bytes} {w w' : σ}
    (h : env.trySend packet w = (.ok body, w')) :
    env.sendAndRecv packet w = (.ok body, w') := by
  rw [sendAndRecv, h]

/-- An unadjusted call returns the slice asked for. -/
lemma getSecurityBars_raw {env : AsyncEnv σ} {category market : UInt8} {code : String}
    {history : List SecurityBar}
    (h : ServesSlices env.trySend (parseSecurityBars env.maxValidYear category) category market
      code history)
    {start count : ℕ} (hstart : start ≤ 65535) (hcount : count ≤ 65535) (s : HqState σ) :
    ∃ s', env.getSecurityBars category market code start count 0 s =
      (.ok (slice history start count), s') := by
  obtain ⟨body, w, hsend, hparse⟩ := h.build hstart hcount s.world
  exact ⟨⟨w, s.starts ++ [start]⟩, by simp [getSecurityBars, sendAndRecv_ok hsend, hparse]⟩

/-- **The paged call returns its pages newest first.** -/
lemma getSecurityBarsAll_raw {env : AsyncEnv σ} {category market : UInt8} {code : String}
    {history : List SecurityBar}
    (h : ServesSlices env.trySend (parseSecurityBars env.maxValidYear category) category market
      code history) (count : UInt16) (s : HqState σ) :
    ∃ s', env.getSecurityBarsAll category market code count 0 s =
      (.ok (newestPages maxKlineCount history count.toNat), s') := by
  have hcount : 0 + count.toNat ≤ 65535 := by
    have := count.toNat_lt
    omega
  obtain ⟨s', hall, -⟩ := appendPages_pages (I := fun _ => True) (P := slice history)
    (length_slice history)
    (fun o n s ho hn _ => (getSecurityBars_raw h ho hn s).imp fun _ hs => ⟨hs, trivial⟩)
    hcount (s := s) trivial
  exact ⟨s', hall⟩

end AsyncEnv

/-! ## The two clients compared -/

/-- A bar is earlier than another one, by its date or within a day by its time. -/
def SecurityBar.Before (a b : SecurityBar) : Prop :=
  a.dateKey < b.dateKey ∨
    a.dateKey = b.dateKey ∧ a.hour * 60 + a.minute < b.hour * 60 + b.minute

/-- No bar is earlier than itself. -/
lemma SecurityBar.not_before_self (b : SecurityBar) : ¬ b.Before b := by
  unfold SecurityBar.Before
  omega

/-- The two paged calls with the same server: the synchronous client returns the newest bars, the
asynchronous one the same bars with the newest page first. -/
lemma paged_calls {sync : HqEnv σ} {async : AsyncEnv τ} {category market : UInt8} {code : String}
    (hcode : ValidStockCode code) {history : List SecurityBar}
    (hsync : ServesSlices sync.trySendAndRecv (parseSecurityBars sync.maxValidYear category)
      category market code history)
    (hasync : ServesSlices async.trySend (parseSecurityBars async.maxValidYear category)
      category market code history)
    (count : UInt16) (s : HqState σ) (t : HqState τ) :
    (sync.getSecurityBarsAll category market code count 0 s).1 = .ok (history.rtake count.toNat) ∧
      (async.getSecurityBarsAll category market code count 0 t).1 =
        .ok (newestPages maxKlineCount history count.toNat) := by
  have hcount : 0 + count.toNat ≤ 65535 := by
    have := count.toNat_lt
    omega
  obtain ⟨t', ht⟩ := AsyncEnv.getSecurityBarsAll_raw hasync count t
  obtain ⟨s', hs, -⟩ := HqEnv.allPages_eq (P := slice history) (length_slice history)
    (fun o n s' ho hn hs' => HqEnv.getSecurityBars_raw hcode hsync ho hn hs') hcount []
    (HqEnv.OffsetsFit.refl s)
  rw [HqEnv.assemble_slice_zero, List.append_nil] at hs
  exact ⟨congrArg Prod.fst hs, congrArg Prod.fst ht⟩

/-- **When the two clients return the same bars.** With the same server, whose history is
ascending, the asynchronous paged call returns what the synchronous one returns exactly when one
page holds it all: the bars asked for, or those there are, are at most 800.

**Proof sketch.** The synchronous call returns the newest bars, and the asynchronous one the same
bars with the newest page first (`paged_calls`). No bar of an ascending history is earlier than
itself, so the two lists agree only if there is one page (`newestPages_eq_iff`). -/
theorem async_paging_iff (sync : HqEnv σ) (async : AsyncEnv τ) (category market : UInt8)
    (code : String) (hcode : ValidStockCode code) (count : UInt16) (history : List SecurityBar)
    (hascending : history.Pairwise SecurityBar.Before)
    (hsync : ServesSlices sync.trySendAndRecv (parseSecurityBars sync.maxValidYear category)
      category market code history)
    (hasync : ServesSlices async.trySend (parseSecurityBars async.maxValidYear category)
      category market code history)
    (s : HqState σ) (t : HqState τ) :
    (async.getSecurityBarsAll category market code count 0 t).1 =
        (sync.getSecurityBarsAll category market code count 0 s).1 ↔
      count.toNat ≤ maxKlineCount ∨ history.length ≤ maxKlineCount := by
  obtain ⟨hs, ht⟩ := paged_calls hcode hsync hasync count s t
  rw [hs, ht, Except.ok.injEq]
  exact newestPages_eq_iff SecurityBar.not_before_self (by decide) hascending count.toNat

/-- An asynchronous client of the server of `sliceEnv`. -/
def asyncSliceEnv (records : List KLineRecord) : AsyncEnv Unit where
  trySend := (sliceEnv records (.ok []) fun _ => false).trySendAndRecv
  isConnected _ := true
  currentServer _ := none
  connect _ w := w
  getXdxrInfo _ _ w := (.ok [], w)
  fqContextTier := .mid
  maxValidYear := 2036

/-- The 801 days come one after the other. -/
lemma manyDays_before : (barsOf 4 manyDays).Pairwise SecurityBar.Before :=
  manyDays_strict.imp fun h => .inl h

/-- The newest 800 of 801 days are the same from both clients. -/
theorem async_paging_one_page :
    ((asyncSliceEnv manyDays).getSecurityBarsAll 4 1 "600519" 800 0 ⟨(), []⟩).1 =
      ((sliceEnv manyDays (.ok []) fun _ => false).getSecurityBarsAll 4 1 "600519" 800 0
        ⟨(), []⟩).1 :=
  (async_paging_iff _ (asyncSliceEnv manyDays) 4 1 "600519" ⟨by rfl, by decide +kernel⟩ 800
    (barsOf 4 manyDays) manyDays_before (sliceEnv_serves manyDays_encodable _ _ _)
    (sliceEnv_serves manyDays_encodable (.ok []) _ _) ⟨(), []⟩ ⟨(), []⟩).mpr (.inl le_rfl)

/-- **All 801 days come in another order from the asynchronous client.** -/
theorem async_paging_two_pages :
    ((asyncSliceEnv manyDays).getSecurityBarsAll 4 1 "600519" 801 0 ⟨(), []⟩).1 ≠
      ((sliceEnv manyDays (.ok []) fun _ => false).getSecurityBarsAll 4 1 "600519" 801 0
        ⟨(), []⟩).1 := by
  have hserves := sliceEnv_serves manyDays_encodable (.ok []) 1 "600519"
  have hcode : ValidStockCode "600519" := ⟨by rfl, by decide +kernel⟩
  have hasync : ServesSlices (asyncSliceEnv manyDays).trySend
      (parseSecurityBars (asyncSliceEnv manyDays).maxValidYear 4) 4 1 "600519"
      (barsOf 4 manyDays) := hserves
  obtain ⟨hs, ht⟩ := paged_calls hcode hserves hasync 801 ⟨(), []⟩ ⟨(), []⟩
  rw [hs, ht, Ne, Except.ok.injEq, newestPages_eq_iff SecurityBar.not_before_self (by decide)
    manyDays_before, length_manyDays]
  decide

end Tdxrs
