import Tdxrs.Library.Program
import Tdxrs.Net.HqClient
import Tdxrs.Protocol.Quotes

set_option relaxedAutoImplicit false
set_option autoImplicit false

/-!
# Requests of the synchronous client as programs

`get_security_bars` and `get_security_quotes` of `TdxHqClient` in `src/net/client.rs`, with the
retries of a request and the K-lines that are fetched for an adjustment, as programs over what they
use of the rest of the client: one try of a request, the reconnects, and the setting `auto_retry`.
A program can be interleaved with the heartbeat, which moves the client to another server at any
time. Executed in one go, it is the function of `Tdxrs.Net.HqClient`.

## Main definitions

* `Tdxrs.HqOp` — the operations.
* `Tdxrs.HqProgram.sendAndRecv` — a request with its retries.
* `Tdxrs.HqProgram.getSecurityBars`, `Tdxrs.HqProgram.getSecurityQuotes` — the calls.

## Main results

* `Tdxrs.HqProgram.exec_getSecurityBars` — executed by the handler of an `HqEnv`, the program of a
  K-line call is `HqEnv.getSecurityBars`.
-/

namespace Tdxrs

/-- What the requests use of the rest of the client. -/
inductive HqOp where
  | trySendAndRecv (packet : Bytes)
  | autoRetry
  | reconnectIfNeeded
  | reconnectToAnotherServer
deriving DecidableEq, Repr

/-- What the operations answer. -/
def HqOp.Ans : HqOp → Type
  | .trySendAndRecv _ => Except TdxError Bytes
  | .autoRetry => Bool
  | .reconnectIfNeeded | .reconnectToAnotherServer => Unit

/-- Programs of the client. -/
abbrev HqProgram := Program HqOp HqOp.Ans

/-- The settings of the client that the requests use, with the parser of corporate actions. -/
structure HqSettings where
  parseXdXrInfo : Bytes → Except TdxError (List XdXrInfo)
  fqContextTier : FqContextTier
  maxValidYear : ℕ

namespace HqProgram

/-- One try of a request over the connection pool. -/
def trySendAndRecv (packet : Bytes) : HqProgram (Except TdxError Bytes) :=
  .perform (HqOp.trySendAndRecv packet)

/-- The setting `auto_retry`. -/
def autoRetry : HqProgram Bool := .perform HqOp.autoRetry

/-- Connects again if the connection has been lost. -/
def reconnectIfNeeded : HqProgram Unit := .perform HqOp.reconnectIfNeeded

/-- Connects to another server. -/
def reconnectToAnotherServer : HqProgram Unit :=
  .perform HqOp.reconnectToAnotherServer

/-! ## One request -/

/-- The tries of a failed request that are left. -/
def retryLoop (packet : Bytes) : ℕ → HqProgram (Except TdxError Bytes)
  | 0 => pure (.error (ErrorCode.retryExhausted.err s!"{retryCount + 1} attempts"))
  | left + 1 => do
    reconnectIfNeeded
    match ← trySendAndRecv packet with
    | .ok body => pure (.ok body)
    | .error _ => retryLoop packet left

/-- A request with its retries. -/
def sendAndRecv (packet : Bytes) : HqProgram (Except TdxError Bytes) := do
  match ← trySendAndRecv packet with
  | .ok body => pure (.ok body)
  | .error e =>
    let retry ← autoRetry
    if ¬ retry ∨ ¬ isRetryableError e then pure (.error e)
    else retryLoop packet retryCount

/-- A request whose answer is parsed. -/
def requestParsed {β : Type} (parse : Bytes → Except TdxError β) (packet : Bytes) :
    HqProgram (Except TdxError β) := do
  match ← sendAndRecv packet with
  | .error e => pure (.error e)
  | .ok body => pure (parse body)

/-! ## K-line calls -/

/-- The attempts at a K-line call that are left. An empty answer to a daily or longer category is
tried again on another server. -/
def attemptBars {β : Type} (request : HqProgram (Except TdxError (List β)))
    (shouldRetryEmpty : Bool) : ℕ → HqProgram (Except TdxError (List β))
  | 0 => pure (.ok [])
  | left + 1 => do
    match ← request with
    | .error e => pure (.error e)
    | .ok parsed =>
      if !parsed.isEmpty || !shouldRetryEmpty then pure (.ok parsed)
      else do
        if 0 < left then reconnectToAnotherServer
        attemptBars request shouldRetryEmpty left

/-- The packet of a request for corporate actions. -/
def buildXdXrInfoPacket (market : UInt8) (codeBuf : Bytes) : Bytes :=
  [0x0c, 0x1f, 0x18, 0x76, 0x00, 0x01, 0x0b, 0x00, 0x0b, 0x00, 0x0f, 0x00, 0x01, 0x00] ++
    market :: codeBuf

variable (settings : HqSettings)

/-- The corporate actions of a stock. -/
def getXdXrInfo (market : UInt8) (code : String) : HqProgram (Except TdxError (List XdXrInfo)) :=
  match codeBytesStrict code with
  | .error e => pure (.error e)
  | .ok codeBuf => requestParsed settings.parseXdXrInfo (buildXdXrInfoPacket market codeBuf)

/-- The pages of context that are left to fetch, from `offset` on; a failed or empty page ends
them, and so does one that reaches back to the date `earliest`. -/
def fetchContextPages (category market : UInt8) (code : String) (earliest : ℕ) :
    ℕ → ℕ → List SecurityBar → HqProgram (List SecurityBar)
  | 0, _, context => pure context
  | left + 1, offset, context => do
    match ← sendAndRecv (buildSecurityBarsPacket category market code offset maxKlineCount) with
    | .error _ => pure context
    | .ok body =>
      match parseSecurityBars settings.maxValidYear category body with
      | .error _ => pure context
      | .ok [] => pure context
      | .ok (first :: batch) =>
        let lenBefore := context.length
        let context := first :: batch ++ context
        if first.dateKey ≤ earliest then pure context
        else if context.length = lenBefore then pure context
        else fetchContextPages category market code earliest left (offset + maxKlineCount) context

/-- The context fetch for an adjustment, with the page budget of the tier. -/
def fetchContextBarsForAdjust (category market : UInt8) (code : String) (bars : List SecurityBar)
    (xdxr : List XdXrInfo) : HqProgram (List SecurityBar) :=
  match bars, HqEnv.earliestEvent xdxr with
  | first :: _, some earliest =>
    if first.dateKey ≤ earliest then pure []
    else
      fetchContextPages settings category market code earliest settings.fqContextTier.pages
        maxKlineCount []
  | _, _ => pure []

/-- The bars of a call after the client-side adjustment: without corporate actions at hand they
stay as they are. -/
def adjustFetched (category market : UInt8) (code : String) (fq : UInt8)
    (bars : List SecurityBar) : HqProgram (List SecurityBar) :=
  if fq ≠ 0 ∧ ¬ bars.isEmpty then do
    match ← getXdXrInfo settings market code with
    | .error _ => pure bars
    | .ok xdxr =>
      let older ← fetchContextBarsForAdjust settings category market code bars xdxr
      pure (adjustSecurityBars sourceArithmetic bars older xdxr (HqEnv.fqType fq))
  else pure bars

/-- One K-line call for a security. -/
def getSecurityBars (category market : UInt8) (code : String) (start count : ℕ) (fq : UInt8) :
    HqProgram (Except TdxError (List SecurityBar)) :=
  match HqEnv.checkNotBlockCode code, codeBytesStrict code with
  | .error e, _ => pure (.error e)
  | .ok _, .error e => pure (.error e)
  | .ok _, .ok _ => do
    let request := requestParsed (parseSecurityBars settings.maxValidYear category)
      (buildSecurityBarsPacket category market code start count)
    match ← attemptBars request (4 ≤ category) (if 4 ≤ category then 3 else 1) with
    | .error e => pure (.error e)
    | .ok bars => do
      let bars ← adjustFetched settings category market code fq bars
      pure (.ok bars)

/-! ## Calls for quotes -/

/-- The check of the codes of a call for quotes. -/
def checkCodes : List (UInt8 × String) → Except TdxError Unit
  | [] => .ok ()
  | (_, code) :: stocks =>
    match HqEnv.checkNotBlockCode code, codeBytesStrict code with
    | .error e, _ => .error e
    | .ok _, .error e => .error e
    | .ok _, .ok _ => checkCodes stocks

/-- The packet of a request for quotes. -/
def buildSecurityQuotesPacket (stocks : List (UInt8 × String)) : Bytes :=
  LittleEndian.toLE 2 0x010C ++ LittleEndian.toLE 4 0x02006320 ++
    LittleEndian.toLE 2 (stocks.length * 7 + 12) ++ LittleEndian.toLE 2 (stocks.length * 7 + 12) ++
    LittleEndian.toLE 4 cmdSecurityQuotes ++ LittleEndian.toLE 4 0 ++ LittleEndian.toLE 2 0 ++
    LittleEndian.toLE 2 stocks.length ++ stocks.flatMap fun stock => stock.1 :: codeBytes stock.2

/-- One request for quotes. -/
def getSecurityQuotesBatch (stocks : List (UInt8 × String)) :
    HqProgram (Except TdxError (List SecurityQuote)) := do
  match ← requestParsed parseSecurityQuotes (buildSecurityQuotesPacket stocks) with
  | .error e => pure (.error e)
  | .ok quotes => pure (.ok (filterQuotesByRequest stocks quotes))

/-- The requests for quotes that are left; the first error ends them. -/
def batchesLeft : List (List (UInt8 × String)) → List SecurityQuote →
    HqProgram (Except TdxError (List SecurityQuote))
  | [], result => pure (.ok result)
  | chunk :: chunks, result => do
    match ← getSecurityQuotesBatch chunk with
    | .error e => pure (.error e)
    | .ok quotes => batchesLeft chunks (result ++ quotes)

/-- A list in pieces of `size` entries, the last of which may be shorter. -/
def chunks {α : Type} (size : ℕ) (l : List α) : List (List α) :=
  if _ : l = [] ∨ size = 0 then [] else l.take size :: chunks size (l.drop size)
termination_by l.length
decreasing_by
  next hmore =>
  have hlength := List.length_pos_iff.mpr (not_or.mp hmore).1
  have hsize := Nat.pos_of_ne_zero (not_or.mp hmore).2
  rw [List.length_drop]
  omega

/-- The pieces of a list that is not empty. -/
lemma chunks_eq {α : Type} {size : ℕ} {l : List α} (hl : l ≠ []) (hsize : size ≠ 0) :
    chunks size l = l.take size :: chunks size (l.drop size) := by
  rw [chunks, dif_neg (not_or.mpr ⟨hl, hsize⟩)]

/-- A call for quotes, in requests of at most 60 securities. -/
def getSecurityQuotes (stocks : List (UInt8 × String)) :
    HqProgram (Except TdxError (List SecurityQuote)) :=
  match checkCodes stocks with
  | .error e => pure (.error e)
  | .ok _ =>
    if stocks.length ≤ maxQuotesCount then getSecurityQuotesBatch stocks
    else batchesLeft (chunks maxQuotesCount stocks) []

/-! ## Execution in one go -/

section Exec

variable {σ : Type} (env : HqEnv σ)

/-- What the rest of the client makes of an operation when nothing comes in between. -/
def handle : (op : HqOp) → σ → op.Ans × σ
  | .trySendAndRecv packet, w => env.trySendAndRecv packet w
  | .autoRetry, w => (env.autoRetry w, w)
  | .reconnectIfNeeded, w => ((), env.reconnectIfNeeded w)
  | .reconnectToAnotherServer, w => ((), env.reconnectToAnotherServer w)

lemma exec_trySendAndRecv (packet : Bytes) (w : σ) :
    (trySendAndRecv packet).exec (handle env) w = env.trySendAndRecv packet w := rfl

lemma exec_reconnectIfNeeded (w : σ) :
    reconnectIfNeeded.exec (handle env) w = ((), env.reconnectIfNeeded w) := rfl

/-- The retries of a request. -/
lemma exec_retryLoop (packet : Bytes) (left : ℕ) (w : σ) :
    (retryLoop packet left).exec (handle env) w = env.retryLoop packet left w := by
  induction left generalizing w with
  | zero => rfl
  | succ left ih =>
    rw [retryLoop, HqEnv.retryLoop, Program.exec_bind, exec_reconnectIfNeeded, Program.exec_bind,
      exec_trySendAndRecv]
    rcases env.trySendAndRecv packet (env.reconnectIfNeeded w) with ⟨_ | body, w'⟩
    · exact ih w'
    · rfl

/-- A request with its retries.

**Proof sketch.** A success is returned; after a failure both sides decide alike whether to try
again, and the loops of retries agree. -/
lemma exec_sendAndRecv (packet : Bytes) (w : σ) :
    (sendAndRecv packet).exec (handle env) w = env.sendAndRecvLimited packet w := by
  rw [sendAndRecv, HqEnv.sendAndRecvLimited, Program.exec_bind, exec_trySendAndRecv]
  rcases env.trySendAndRecv packet w with ⟨e | body, w'⟩
  · show Program.exec (handle env) (if ¬ env.autoRetry w' ∨ ¬ isRetryableError e then
        pure (.error e) else retryLoop packet retryCount) w' =
      if ¬ env.autoRetry w' ∨ ¬ isRetryableError e then (.error e, w')
      else env.retryLoop packet retryCount w'
    by_cases hgive : ¬ env.autoRetry w' ∨ ¬ isRetryableError e
    · rw [if_pos hgive, if_pos hgive]
      rfl
    · rw [if_neg hgive, if_neg hgive]
      exact exec_retryLoop env packet retryCount w'
  · rfl

/-- A K-line request whose answer is parsed. -/
lemma exec_requestParsed {β : Type} (parse : Bytes → Except TdxError (List β)) (packet : Bytes)
    (start : ℕ) (s : HqState σ) :
    (requestParsed parse packet).exec (handle env) s.world =
      (env.requestBars parse packet start s).map id HqState.world := by
  rw [requestParsed, HqEnv.requestBars, Program.exec_bind, exec_sendAndRecv]
  rcases env.sendAndRecvLimited packet s.world with ⟨_ | body, w'⟩ <;> rfl

/-- The attempts at a K-line call, when the requests agree.

**Proof sketch.** Induction on the attempts that are left: a request does the same in both, and both
ask again under the same conditions, on another server except for the last time. -/
lemma exec_attemptBars {β : Type} {request : HqProgram (Except TdxError (List β))}
    {request' : HqState σ → Except TdxError (List β) × HqState σ}
    (h : ∀ s, request.exec (handle env) s.world = (request' s).map id HqState.world)
    (shouldRetryEmpty : Bool) (left : ℕ) (s : HqState σ) :
    (attemptBars request shouldRetryEmpty left).exec (handle env) s.world =
      (env.attemptBars request' shouldRetryEmpty left s).map id HqState.world := by
  induction left generalizing s with
  | zero => rfl
  | succ left ih =>
    rw [attemptBars, HqEnv.attemptBars, Program.exec_bind, h s]
    rcases request' s with ⟨e | parsed, s'⟩
    · rfl
    · simp only [Prod.map, id]
      by_cases hdone : (!parsed.isEmpty || !shouldRetryEmpty) = true
      · rw [if_pos hdone, if_pos hdone]
        rfl
      · rw [if_neg hdone, if_neg hdone]
        by_cases hleft : 0 < left
        · rw [if_pos hleft, if_pos hleft]
          exact ih { s' with world := env.reconnectToAnotherServer s'.world }
        · rw [if_neg hleft, if_neg hleft]
          exact ih s'

/-- The pages of context.

**Proof sketch.** Induction on the pages that are left: both ask for the same page and look at the
same bars. -/
lemma exec_fetchContextPages (category market : UInt8) (code : String) (earliest left offset : ℕ)
    (context : List SecurityBar) (w : σ) :
    (fetchContextPages settings category market code earliest left offset context).exec
        (handle env) w =
      HqEnv.fetchContextPages env.sendAndRecvLimited
        (parseSecurityBars settings.maxValidYear category) category market code earliest left
        offset context w := by
  induction left generalizing offset context w with
  | zero => rfl
  | succ left ih =>
    rw [fetchContextPages, HqEnv.fetchContextPages, Program.exec_bind, exec_sendAndRecv]
    rcases env.sendAndRecvLimited _ w with ⟨e | body, w'⟩
    · rfl
    · rcases hparse : parseSecurityBars settings.maxValidYear category body with
        _ | _ | ⟨first, batch⟩
      · simp only [hparse]
        rfl
      · simp only [hparse]
        rfl
      · simp only [hparse]
        by_cases hreached : first.dateKey ≤ earliest
        · rw [if_pos hreached, if_pos hreached]
          rfl
        · rw [if_neg hreached, if_neg hreached]
          by_cases hsame : (first :: batch ++ context).length = context.length
          · rw [if_pos hsame, if_pos hsame]
            rfl
          · rw [if_neg hsame, if_neg hsame]
            exact ih _ _ w'

/-- The context of an adjustment.

**Proof sketch.** With no bars, no event, or a first bar as old as the earliest event nothing is
fetched on either side; otherwise the loops over the pages agree. -/
lemma exec_fetchContextBarsForAdjust (htier : env.fqContextTier = settings.fqContextTier)
    (hyear : env.maxValidYear = settings.maxValidYear) (category market : UInt8) (code : String)
    (bars : List SecurityBar) (xdxr : List XdXrInfo) (w : σ) :
    (fetchContextBarsForAdjust settings category market code bars xdxr).exec (handle env) w =
      env.fetchContextBarsForAdjust category market code bars xdxr w := by
  rw [HqEnv.fetchContextBarsForAdjust, HqEnv.fetchContextBarsForAdjustWithTier, htier, hyear]
  unfold fetchContextBarsForAdjust HqEnv.fetchContextBars
  rcases bars with _ | ⟨first, rest⟩
  · rfl
  · rcases HqEnv.earliestEvent xdxr with _ | earliest
    · rfl
    · by_cases hreached : first.dateKey ≤ earliest
      · simp only [if_pos hreached]
        rfl
      · simp only [if_neg hreached]
        exact exec_fetchContextPages settings env category market code earliest _ _ _ w

/-- The adjustment of the bars of a call. -/
lemma exec_adjustFetched (htier : env.fqContextTier = settings.fqContextTier)
    (hyear : env.maxValidYear = settings.maxValidYear)
    (hxdxr : ∀ market code w,
      (getXdXrInfo settings market code).exec (handle env) w = env.getXdxrInfo market code w)
    (category market : UInt8) (code : String) (fq : UInt8) (bars : List SecurityBar) (w : σ) :
    (adjustFetched settings category market code fq bars).exec (handle env) w =
      env.adjustFetched sourceArithmetic (env.fetchContextBarsForAdjust category market code)
        market code fq bars w := by
  unfold adjustFetched HqEnv.adjustFetched
  by_cases hfq : fq ≠ 0 ∧ ¬ bars.isEmpty
  · rw [if_pos hfq, if_pos hfq, Program.exec_bind, hxdxr]
    rcases env.getXdxrInfo market code w with ⟨_ | xdxr, w'⟩
    · rfl
    · simp only [Program.exec_bind,
        exec_fetchContextBarsForAdjust settings env htier hyear category market code bars xdxr w']
      rfl
  · rw [if_neg hfq, if_neg hfq]
    rfl

/-- **A K-line call executed in one go** is the function of the client, if the corporate actions
come from the same client.

**Proof sketch.** The checks come first in both. The attempts agree (`exec_attemptBars`), and so
does the adjustment of what they return (`exec_adjustFetched`). -/
theorem exec_getSecurityBars (htier : env.fqContextTier = settings.fqContextTier)
    (hyear : env.maxValidYear = settings.maxValidYear)
    (hxdxr : ∀ market code w,
      (getXdXrInfo settings market code).exec (handle env) w = env.getXdxrInfo market code w)
    (category market : UInt8) (code : String) (start count : ℕ) (fq : UInt8) (s : HqState σ) :
    (getSecurityBars settings category market code start count fq).exec (handle env) s.world =
      (env.getSecurityBars category market code start count fq s).map id HqState.world := by
  unfold getSecurityBars HqEnv.getSecurityBars HqEnv.getSecurityBarsWith
  rcases HqEnv.checkNotBlockCode code with e | _
  · rfl
  rcases codeBytesStrict code with e | _
  · rfl
  have hraw := exec_attemptBars env (fun s => exec_requestParsed env
    (parseSecurityBars env.maxValidYear category)
    (buildSecurityBarsPacket category market code start count) start s) (4 ≤ category)
    (if 4 ≤ category then 3 else 1) s
  simp only [Program.exec_bind, HqEnv.rawBars, ← hyear, hraw]
  rcases env.attemptBars _ _ _ s with ⟨e | bars, s'⟩
  · rfl
  · simp only [Prod.map, id, Program.exec_bind,
      exec_adjustFetched settings env htier hyear hxdxr category market code fq bars s'.world]
    rfl

end Exec

end HqProgram

end Tdxrs
