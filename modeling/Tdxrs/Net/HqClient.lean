import Tdxrs.Library.Window
import Tdxrs.Net.KLineRequest
import Tdxrs.Protocol.Adjuster
import Tdxrs.Protocol.Parsers

set_option relaxedAutoImplicit false
set_option autoImplicit false

/-!
# K-line requests of the synchronous client

`TdxHqClient` of `src/net/client.rs`, from the retries around one request to the paged and
adjusted K-line calls, with the context fetch of `src/net/utils.rs`.

What these functions use of the rest of the client is the record `HqEnv`, over a world `σ` that
each operation may change: one try of a request (`try_send_and_recv`), the reconnects between
tries, the list of corporate actions and the settings. Errors are values, and a function returns
its result with the world after it, so that each `?`, `break` and `if let` of the source is a
`match`.

## Main definitions

* `Tdxrs.HqEnv` — the rest of the client.
* `Tdxrs.HqEnv.sendAndRecvLimited` — a request with its retries.
* `Tdxrs.HqEnv.fetchContextBarsForAdjust` — older bars for the factors of early events.
* `Tdxrs.HqEnv.getSecurityBars`, `Tdxrs.HqEnv.getIndexBars` — one K-line call.
* `Tdxrs.HqEnv.getSecurityBarsAll`, `Tdxrs.HqEnv.getIndexBarsAll` — the paged calls.
-/

namespace Tdxrs

/-- How many pages of context are fetched at most. -/
inductive FqContextTier where
  | low
  | mid
  | high
deriving DecidableEq, Repr

/-- The page budget of a tier. -/
def FqContextTier.pages : FqContextTier → ℕ
  | .low => 3
  | .mid => 6
  | .high => 9

/-- What the K-line functions use of the rest of the client. -/
structure HqEnv (σ : Type) where
  /-- One try of a request over the connection pool. -/
  trySendAndRecv : Bytes → σ → Except TdxError Bytes × σ
  autoRetry : σ → Bool
  reconnectIfNeeded : σ → σ
  reconnectToAnotherServer : σ → σ
  /-- The corporate actions of a stock. -/
  getXdxrInfo : UInt8 → String → σ → Except TdxError (List XdXrInfo) × σ
  fqContextTier : FqContextTier
  maxValidYear : ℕ

/-- The world of a client. -/
structure HqState (σ : Type) where
  world : σ
  /-- Ghost: the `start` arguments of the K-line requests so far. -/
  starts : List ℕ

variable {σ : Type}

namespace HqEnv

/-! ## One request -/

/-- The tries of a failed request that are left. -/
def retryLoop (env : HqEnv σ) (packet : Bytes) : ℕ → σ → Except TdxError Bytes × σ
  | 0, w => (.error (ErrorCode.retryExhausted.err s!"{retryCount + 1} attempts"), w)
  | left + 1, w =>
    match env.trySendAndRecv packet (env.reconnectIfNeeded w) with
    | (.ok body, w) => (.ok body, w)
    | (.error _, w) => env.retryLoop packet left w

/-- A request with its retries. -/
def sendAndRecvLimited (env : HqEnv σ) (packet : Bytes) (w : σ) : Except TdxError Bytes × σ :=
  match env.trySendAndRecv packet w with
  | (.ok body, w) => (.ok body, w)
  | (.error e, w) =>
    if ¬ env.autoRetry w ∨ ¬ isRetryableError e then (.error e, w)
    else env.retryLoop packet retryCount w

/-- The K-line request at `start` whose answer is parsed. -/
def requestBars {β : Type} (env : HqEnv σ) (parse : Bytes → Except TdxError (List β))
    (packet : Bytes) (start : ℕ) (s : HqState σ) : Except TdxError (List β) × HqState σ :=
  match env.sendAndRecvLimited packet s.world with
  | (.error e, w) => (.error e, ⟨w, s.starts ++ [start]⟩)
  | (.ok body, w) => (parse body, ⟨w, s.starts ++ [start]⟩)

/-- The attempts at a K-line call that are left. An empty answer to a daily or longer category is
tried again on another server. -/
def attemptBars {β : Type} (env : HqEnv σ)
    (request : HqState σ → Except TdxError (List β) × HqState σ) (shouldRetryEmpty : Bool) :
    ℕ → HqState σ → Except TdxError (List β) × HqState σ
  | 0, s => (.ok [], s)
  | left + 1, s =>
    match request s with
    | (.error e, s) => (.error e, s)
    | (.ok parsed, s) =>
      if !parsed.isEmpty || !shouldRetryEmpty then (.ok parsed, s)
      else
        env.attemptBars request shouldRetryEmpty left
          (if 0 < left then { s with world := env.reconnectToAnotherServer s.world } else s)

/-- The bars of one K-line call as the server has them. -/
def rawBars {β : Type} (env : HqEnv σ) (parse : Bytes → Except TdxError (List β))
    (category : UInt8) (packet : Bytes) (start : ℕ) (s : HqState σ) :
    Except TdxError (List β) × HqState σ :=
  env.attemptBars (env.requestBars parse packet start) (4 ≤ category)
    (if 4 ≤ category then 3 else 1) s

/-! ## Context for the factors of early events -/

/-- The date of the earliest event of category 1. -/
def earliestEvent (xdxr : List XdXrInfo) : Option ℕ :=
  ((xdxr.filter fun x => x.category = 1).map XdXrInfo.dateKey).min?

/-- The pages of context that are left to fetch, from `offset` on; a failed or empty page ends
them, and so does one that reaches back to the date `earliest`. -/
def fetchContextPages (send : Bytes → σ → Except TdxError Bytes × σ)
    (parse : Bytes → Except TdxError (List SecurityBar)) (category market : UInt8)
    (code : String) (earliest : ℕ) :
    ℕ → ℕ → List SecurityBar → σ → List SecurityBar × σ
  | 0, _, context, w => (context, w)
  | left + 1, offset, context, w =>
    match send (buildSecurityBarsPacket category market code offset maxKlineCount) w with
    | (.error _, w) => (context, w)
    | (.ok body, w) =>
      match parse body with
      | .error _ => (context, w)
      | .ok [] => (context, w)
      | .ok (first :: batch) =>
        let lenBefore := context.length
        let context := first :: batch ++ context
        if first.dateKey ≤ earliest then (context, w)
        else if context.length = lenBefore then (context, w)
        else
          fetchContextPages send parse category market code earliest left
            (offset + maxKlineCount) context w

/-- Older bars for the factors of events before the first bar, at most `maxPages` pages. -/
def fetchContextBars (send : Bytes → σ → Except TdxError Bytes × σ)
    (parse : Bytes → Except TdxError (List SecurityBar)) (category market : UInt8)
    (code : String) (bars : List SecurityBar) (xdxr : List XdXrInfo) (maxPages : ℕ) (w : σ) :
    List SecurityBar × σ :=
  match bars, earliestEvent xdxr with
  | first :: _, some earliest =>
    if first.dateKey ≤ earliest then ([], w)
    else fetchContextPages send parse category market code earliest maxPages maxKlineCount [] w
  | _, _ => ([], w)

/-- The context fetch for an adjustment, with the page budget of a tier. -/
def fetchContextBarsForAdjustWithTier (send : Bytes → σ → Except TdxError Bytes × σ)
    (parse : Bytes → Except TdxError (List SecurityBar)) (category market : UInt8)
    (code : String) (bars : List SecurityBar) (xdxr : List XdXrInfo) (tier : FqContextTier)
    (w : σ) : List SecurityBar × σ :=
  fetchContextBars send parse category market code bars xdxr tier.pages w

/-- The context fetch for the list of factors is the same with a budget of 30 pages. -/
def fetchContextForFactors (env : HqEnv σ) (category market : UInt8) (code : String)
    (bars : List SecurityBar) (xdxr : List XdXrInfo) (w : σ) :
    Except TdxError (List SecurityBar) × σ :=
  let (context, w) := fetchContextBars env.sendAndRecvLimited
    (parseSecurityBars env.maxValidYear category) category market code bars xdxr 30 w
  (.ok context, w)

/-- The context fetch of the client, with its own requests and tier. -/
def fetchContextBarsForAdjust (env : HqEnv σ) (category market : UInt8) (code : String)
    (bars : List SecurityBar) (xdxr : List XdXrInfo) (w : σ) : List SecurityBar × σ :=
  fetchContextBarsForAdjustWithTier env.sendAndRecvLimited
    (parseSecurityBars env.maxValidYear category) category market code bars xdxr
    env.fqContextTier w

/-! ## K-line calls -/

/-- A way to get older bars for a page of bars and a list of corporate actions. -/
abbrev ContextFetch (σ : Type) := List SecurityBar → List XdXrInfo → σ → List SecurityBar × σ

/-- A block code is an error in the general client. -/
def checkNotBlockCode (code : String) : Except TdxError Unit :=
  if isBlockCode code then .error (ErrorCode.blockCodeInGeneralClient.err s!"code={code}")
  else .ok ()

/-- The adjustment that a K-line call asks for. -/
def fqType (fq : UInt8) : FqType := if fq = 2 then .hfq else .qfq

/-- The bars of a call after the client-side adjustment: without corporate actions at hand they
stay as they are. -/
def adjustFetched (env : HqEnv σ) (A : Arithmetic) (context : ContextFetch σ)
    (market : UInt8) (code : String) (fq : UInt8) (bars : List SecurityBar) (w : σ) :
    List SecurityBar × σ :=
  if fq ≠ 0 ∧ ¬ bars.isEmpty then
    match env.getXdxrInfo market code w with
    | (.error _, w) => (bars, w)
    | (.ok xdxr, w) =>
      match context bars xdxr w with
      | (older, w) => (adjustSecurityBars A bars older xdxr (fqType fq), w)
  else (bars, w)

/-- One K-line call for a security, with a given arithmetic and a given source of context. -/
def getSecurityBarsWith (env : HqEnv σ) (A : Arithmetic) (context : ContextFetch σ)
    (category market : UInt8) (code : String) (start count : ℕ) (fq : UInt8) (s : HqState σ) :
    Except TdxError (List SecurityBar) × HqState σ :=
  match checkNotBlockCode code, codeBytesStrict code with
  | .error e, _ => (.error e, s)
  | .ok _, .error e => (.error e, s)
  | .ok _, .ok _ =>
    match env.rawBars (parseSecurityBars env.maxValidYear category) category
        (buildSecurityBarsPacket category market code start count) start s with
    | (.error e, s) => (.error e, s)
    | (.ok bars, s) =>
      match env.adjustFetched A context market code fq bars s.world with
      | (bars, w) => (.ok bars, { s with world := w })

/-- One K-line call for a security. -/
def getSecurityBars (env : HqEnv σ) (category market : UInt8) (code : String)
    (start count : ℕ) (fq : UInt8) (s : HqState σ) :
    Except TdxError (List SecurityBar) × HqState σ :=
  env.getSecurityBarsWith sourceArithmetic (env.fetchContextBarsForAdjust category market code)
    category market code start count fq s

/-- One K-line call for an index. The adjustment asked for is ignored, and the code is checked
for blocks only. -/
def getIndexBars (env : HqEnv σ) (category market : UInt8) (code : String) (start count : ℕ)
    (_fq : UInt8) (s : HqState σ) : Except TdxError (List IndexBar) × HqState σ :=
  match checkNotBlockCode code with
  | .error e => (.error e, s)
  | .ok _ =>
    env.rawBars (parseIndexBars env.maxValidYear category) category
      (buildIndexBarsPacket category market code start count) start s

/-! ## Paged calls -/

/-- The pages of a paged call that are left, from `offset` on. Each page is older than the bars
at hand and goes in front of them; a short page is the last one. -/
def allPages {β : Type} (page : ℕ → ℕ → HqState σ → Except TdxError (List β) × HqState σ)
    (offset remaining : ℕ) (all : List β) (s : HqState σ) :
    Except TdxError (List β) × HqState σ :=
  if 0 < remaining then
    let batch := min remaining maxKlineCount
    match page offset batch s with
    | (.error e, s) => (.error e, s)
    | (.ok bars, s) =>
      if bars.isEmpty then (.ok all, s)
      else
        -- the number of bars is counted in 16 bits
        let fetched := bars.length % 65536
        if fetched < batch then (.ok (bars ++ all), s)
        else allPages page (offset + fetched) (remaining - fetched) (bars ++ all) s
  else (.ok all, s)
termination_by remaining
decreasing_by
  have : 0 < maxKlineCount := by decide
  omega

/-- The paged call for a security, with a given arithmetic and a given source of context. -/
def getSecurityBarsAllWith (env : HqEnv σ) (A : Arithmetic) (context : ContextFetch σ)
    (category market : UInt8) (code : String) (count : UInt16) (fq : UInt8) (s : HqState σ) :
    Except TdxError (List SecurityBar) × HqState σ :=
  allPages (fun offset batch =>
    env.getSecurityBarsWith A context category market code offset batch fq) 0 count.toNat [] s

/-- The paged call for a security. -/
def getSecurityBarsAll (env : HqEnv σ) (category market : UInt8) (code : String)
    (count : UInt16) (fq : UInt8) (s : HqState σ) :
    Except TdxError (List SecurityBar) × HqState σ :=
  env.getSecurityBarsAllWith sourceArithmetic
    (env.fetchContextBarsForAdjust category market code) category market code count fq s

/-- The paged call for an index. -/
def getIndexBarsAll (env : HqEnv σ) (category market : UInt8) (code : String) (count : UInt16)
    (fq : UInt8) (s : HqState σ) : Except TdxError (List IndexBar) × HqState σ :=
  allPages (fun offset batch => env.getIndexBars category market code offset batch fq) 0
    count.toNat [] s

end HqEnv

end Tdxrs
