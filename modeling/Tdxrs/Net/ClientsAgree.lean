import Tdxrs.Net.BarsCalls
import Tdxrs.Net.HqProgram
import Tdxrs.Protocol.XdXrRoundTrip

set_option relaxedAutoImplicit false
set_option autoImplicit false

/-!
# K-lines from three clients

The K-line calls of `TdxHqClient`, `TdxDirectClient` and `AsyncTdxHqClient` are written three times:
with retries and reconnects over a pool, over a connection for each request, and over channels to
tasks. The first checks the code and asks another server again where there are no bars; the third
checks nothing. Over servers that answer requests alike, they are nevertheless one function: the one
of the plainest client, with the requests for corporate actions and for older bars that an
adjustment needs.

## Main definitions

* `Tdxrs.AnsweredBy` — requests that are answered by a function of their packets.
* `Tdxrs.AnsweredAlike` — three clients with the same settings whose requests are answered alike.
* `Tdxrs.HqEnv.requestXdxrInfo`, `Tdxrs.requestXdxrInfo` — the requests for corporate actions.
* `Tdxrs.answeredBars` — the bars of a call by what is answered.

## Main results

* `Tdxrs.answeredAlike_of_requests` — clients that ask for the corporate actions know the same of
  them.
* `Tdxrs.clients_agree` — the three clients return the same.
-/

namespace Tdxrs

variable {σ τ υ β : Type}

/-! ## Servers that answer alike -/

/-- In every world a request gets an answer, with its retries, and the answer is a function of the
packet. -/
def AnsweredBy (send : Bytes → σ → Except TdxError Bytes × σ) (answer : Bytes → Bytes) : Prop :=
  ∀ packet w, ∃ w', send packet w = (.ok (answer packet), w')

/-- What can be known of the corporate actions of a stock is the same in every world. -/
def ActionsAre (getXdxrInfo : UInt8 → String → σ → Except TdxError (List XdXrInfo) × σ)
    (market : UInt8) (code : String) (xdxr : Except TdxError (List XdXrInfo)) : Prop :=
  ∀ w, ∃ w', getXdxrInfo market code w = (xdxr, w')

/-- Three clients with the same settings whose requests are answered alike. -/
structure AnsweredAlike (sync : HqEnv σ) (direct : DirectEnv τ) (async : AsyncEnv υ)
    (answer : Bytes → Bytes) (market : UInt8) (code : String)
    (xdxr : Except TdxError (List XdXrInfo)) : Prop where
  syncRequests : AnsweredBy sync.sendAndRecvLimited answer
  directRequests : AnsweredBy direct.sendAndRecv answer
  asyncRequests : AnsweredBy async.sendAndRecv answer
  syncActions : ActionsAre sync.getXdxrInfo market code xdxr
  directActions : ActionsAre direct.getXdxrInfo market code xdxr
  asyncActions : ActionsAre async.getXdxrInfo market code xdxr
  tiers : sync.fqContextTier = direct.fqContextTier ∧ async.fqContextTier = direct.fqContextTier
  years : sync.maxValidYear = direct.maxValidYear ∧ async.maxValidYear = direct.maxValidYear

/-- The corporate actions of a stock, as the direct and the asynchronous client ask for them. -/
def requestXdxrInfo (send : Bytes → σ → Except TdxError Bytes × σ)
    (parse : Bytes → Except TdxError (List XdXrInfo)) (market : UInt8) (code : String) (w : σ) :
    Except TdxError (List XdXrInfo) × σ :=
  match send (HqProgram.buildXdXrInfoPacket market (codeBytes code)) w with
  | (.error e, w) => (.error e, w)
  | (.ok body, w) => (parse body, w)

/-- The corporate actions of a stock, as the synchronous client asks for them. The code is checked
first. -/
def HqEnv.requestXdxrInfo (env : HqEnv σ) (parse : Bytes → Except TdxError (List XdXrInfo))
    (market : UInt8) (code : String) (w : σ) : Except TdxError (List XdXrInfo) × σ :=
  match codeBytesStrict code with
  | .error e => (.error e, w)
  | .ok codeBuf =>
    match env.sendAndRecvLimited (HqProgram.buildXdXrInfoPacket market codeBuf) w with
    | (.error e, w) => (.error e, w)
    | (.ok body, w) => (parse body, w)

/-- Requests that are answered at once. -/
def answerAtOnce (answer : Bytes → Bytes) (packet : Bytes) (w : Unit) :
    Except TdxError Bytes × Unit := (.ok (answer packet), w)

/-- Bars after the adjustment that is asked for, by what requests are answered. -/
def adjustedBars (answer : Bytes → Bytes) (xdxr : Except TdxError (List XdXrInfo))
    (tier : FqContextTier) (parse : Bytes → Except TdxError (List SecurityBar))
    (category market : UInt8) (code : String) (fq : UInt8) (bars : List SecurityBar) :
    List SecurityBar :=
  match xdxr with
  | .error _ => bars
  | .ok xdxr =>
    if fq ≠ 0 then
      let older := (HqEnv.fetchContextBarsForAdjustWithTier (answerAtOnce answer) parse category
        market code bars xdxr tier ()).1
      adjustSecurityBars sourceArithmetic bars older xdxr (HqEnv.fqType fq)
    else bars

/-- The bars of a call, by what its requests are answered. -/
def answeredBars (answer : Bytes → Bytes) (xdxr : Except TdxError (List XdXrInfo))
    (tier : FqContextTier) (parse : Bytes → Except TdxError (List SecurityBar))
    (category market : UInt8) (code : String) (start count : ℕ) (fq : UInt8) :
    Except TdxError (List SecurityBar) :=
  (parse (answer (buildSecurityBarsPacket category market code start count))).map
    (adjustedBars answer xdxr tier parse category market code fq)

/-! ## Corporate actions -/

/-- A request for corporate actions that is answered. -/
lemma actionsAre_request {send : Bytes → σ → Except TdxError Bytes × σ} {answer : Bytes → Bytes}
    (hsend : AnsweredBy send answer) (parse : Bytes → Except TdxError (List XdXrInfo))
    (market : UInt8) (code : String) :
    ActionsAre (requestXdxrInfo send parse) market code
      (parse (answer (HqProgram.buildXdXrInfoPacket market (codeBytes code)))) := by
  intro w
  obtain ⟨w', hw'⟩ := hsend (HqProgram.buildXdXrInfoPacket market (codeBytes code)) w
  exact ⟨w', by rw [requestXdxrInfo, hw']⟩

/-- A code that the strict check lets through. -/
lemma ValidStockCode.six {code : String} (h : ValidStockCode code) : SixAlphanumerics code := by
  rcases codeBytesStrict_eq code with ⟨hsix, -⟩ | ⟨-, e, hcode⟩
  · exact hsix
  · cases hcode.symm.trans h.1

/-- For a code that is accepted, the synchronous client asks like the others. -/
lemma HqEnv.requestXdxrInfo_eq {env : HqEnv σ} {parse : Bytes → Except TdxError (List XdXrInfo)}
    {market : UInt8} {code : String} (hcode : ValidStockCode code) :
    env.requestXdxrInfo parse market code =
      Tdxrs.requestXdxrInfo env.sendAndRecvLimited parse market code := by
  funext w
  rw [requestXdxrInfo, Tdxrs.requestXdxrInfo, hcode.1, hcode.six.codeBytes_eq]

/-- **Clients that ask for the corporate actions know the same of them**, as soon as their requests
are answered alike and the code is accepted: what is made of the answer, `parse_xdxr_info` with the
amounts as exact numbers, is the same for all three.

**Proof sketch.** Each client sends the packet for the corporate actions once and parses the answer,
which is the same function of the packet for all three. -/
theorem answeredAlike_of_requests {sync : HqEnv σ} {direct : DirectEnv τ} {async : AsyncEnv υ}
    {answer : Bytes → Bytes} {market : UInt8} {code : String}
    {parse : Bytes → Except TdxError (List XdXrInfo)}
    (hsync : AnsweredBy sync.sendAndRecvLimited answer)
    (hdirect : AnsweredBy direct.sendAndRecv answer) (hasync : AnsweredBy async.sendAndRecv answer)
    (hsyncActions : sync.getXdxrInfo = sync.requestXdxrInfo parse)
    (hdirectActions : direct.getXdxrInfo = requestXdxrInfo direct.sendAndRecv parse)
    (hasyncActions : async.getXdxrInfo = requestXdxrInfo async.sendAndRecv parse)
    (htiers : sync.fqContextTier = direct.fqContextTier ∧
      async.fqContextTier = direct.fqContextTier)
    (hyears : sync.maxValidYear = direct.maxValidYear ∧ async.maxValidYear = direct.maxValidYear)
    (hcode : ValidStockCode code) :
    AnsweredAlike sync direct async answer market code
      (parse (answer (HqProgram.buildXdXrInfoPacket market (codeBytes code)))) where
  syncRequests := hsync
  directRequests := hdirect
  asyncRequests := hasync
  syncActions := by
    intro w
    obtain ⟨w', hw'⟩ := actionsAre_request hsync parse market code w
    exact ⟨w', by rw [hsyncActions, HqEnv.requestXdxrInfo_eq hcode, hw']⟩
  directActions := hdirectActions ▸ actionsAre_request hdirect parse market code
  asyncActions := hasyncActions ▸ actionsAre_request hasync parse market code
  tiers := htiers
  years := hyears

/-! ## What each call returns -/

variable {answer : Bytes → Bytes} {xdxr : Except TdxError (List XdXrInfo)}
  {category market : UInt8} {code : String}

/-- The pages of context depend on the answers alone.

**Proof sketch.** Induction on the pages that are left: each page is the answer to a packet,
whatever the state is, and both loops then look at the same bars. -/
lemma fetchContextPages_answered {send : Bytes → σ → Except TdxError Bytes × σ}
    (hsend : AnsweredBy send answer) (parse : Bytes → Except TdxError (List SecurityBar))
    (earliest left offset : ℕ) (context : List SecurityBar) (w : σ) :
    (HqEnv.fetchContextPages send parse category market code earliest left offset context w).1 =
      (HqEnv.fetchContextPages (answerAtOnce answer) parse category market code earliest left offset
        context ()).1 := by
  induction left generalizing offset context w with
  | zero => rfl
  | succ left ih =>
    obtain ⟨w', hw'⟩ := hsend (buildSecurityBarsPacket category market code offset maxKlineCount) w
    rw [HqEnv.fetchContextPages, HqEnv.fetchContextPages, hw', answerAtOnce]
    dsimp only
    split
    · rfl
    · rfl
    · split
      · rfl
      · split
        · rfl
        · exact ih _ _ _

/-- The context of an adjustment depends on the answers alone. -/
lemma fetchContext_answered {send : Bytes → σ → Except TdxError Bytes × σ}
    (hsend : AnsweredBy send answer) (parse : Bytes → Except TdxError (List SecurityBar))
    (bars : List SecurityBar) (xdxr : List XdXrInfo) (tier : FqContextTier) (w : σ) :
    (HqEnv.fetchContextBarsForAdjustWithTier send parse category market code bars xdxr tier w).1 =
      (HqEnv.fetchContextBarsForAdjustWithTier (answerAtOnce answer) parse category market code bars
        xdxr tier ()).1 := by
  unfold HqEnv.fetchContextBarsForAdjustWithTier HqEnv.fetchContextBars
  split
  · split
    · rfl
    · exact fetchContextPages_answered hsend parse _ _ _ _ _
  · rfl

/-- The code passes both checks. -/
lemma ValidStockCode.checkNotBlockCode_eq (h : ValidStockCode code) :
    HqEnv.checkNotBlockCode code = .ok () := by
  rw [HqEnv.checkNotBlockCode, h.2]
  rfl

/-- The plainest client.

**Proof sketch.** The code is accepted, and then the bars, the corporate actions and the context are
what the answers say, in this order and in every state. -/
lemma DirectEnv.getSecurityBars_answered {env : DirectEnv σ}
    (hsend : AnsweredBy env.sendAndRecv answer)
    (hactions : ActionsAre env.getXdxrInfo market code xdxr) (hcode : ValidStockCode code)
    (start count : ℕ) (fq : UInt8) (w : σ) :
    (env.getSecurityBars category market code start count fq w).1 =
      answeredBars answer xdxr env.fqContextTier (parseSecurityBars env.maxValidYear category)
        category market code start count fq := by
  obtain ⟨w₁, hw₁⟩ := hsend (buildSecurityBarsPacket category market code start count) w
  obtain ⟨w₂, hw₂⟩ := hactions w₁
  unfold getSecurityBars answeredBars
  rw [hcode.checkNotBlockCode_eq, hw₁]
  dsimp only
  rcases parseSecurityBars env.maxValidYear category _ with e | bars
  · rfl
  · rw [hw₂]
    rcases xdxr with e | xdxr
    · dsimp only
      split <;> rfl
    · dsimp only [Except.map, adjustedBars]
      rw [fetchContext_answered hsend]
      split <;> rfl

/-- The asynchronous client.

**Proof sketch.** As for the plainest client, without a check of the code. -/
lemma AsyncEnv.getSecurityBars_answered {env : AsyncEnv σ}
    (hsend : AnsweredBy env.sendAndRecv answer)
    (hactions : ActionsAre env.getXdxrInfo market code xdxr) (start count : ℕ) (fq : UInt8)
    (s : HqState σ) :
    (env.getSecurityBars category market code start count fq s).1 =
      answeredBars answer xdxr env.fqContextTier (parseSecurityBars env.maxValidYear category)
        category market code start count fq := by
  obtain ⟨w₁, hw₁⟩ := hsend (buildSecurityBarsPacket category market code start count) s.world
  obtain ⟨w₂, hw₂⟩ := hactions w₁
  unfold getSecurityBars answeredBars
  rw [hw₁]
  dsimp only
  rcases parseSecurityBars env.maxValidYear category _ with e | bars
  · rfl
  · rw [hw₂]
    rcases xdxr with e | xdxr
    · dsimp only
      split <;> rfl
    · dsimp only [Except.map, adjustedBars, fetchContextBarsForAdjust]
      rw [fetchContext_answered hsend]
      split <;> rfl

namespace HqEnv

variable {env : HqEnv σ}

/-- Where each attempt returns the same, all attempts together do. An empty answer is asked for
again, and is returned in the end.

**Proof sketch.** Induction on the attempts. An attempt that is not repeated is returned; one that
is was empty, so the result is the empty list, and so it is after the last attempt. -/
lemma attemptBars_answered {request : HqState σ → Except TdxError (List β) × HqState σ}
    {result : Except TdxError (List β)} (hrequest : ∀ s, (request s).1 = result)
    (shouldRetryEmpty : Bool) {attempts : ℕ} (hpos : 0 < attempts ∨ result = .ok [])
    (s : HqState σ) : (env.attemptBars request shouldRetryEmpty attempts s).1 = result := by
  induction attempts generalizing s with
  | zero => exact (hpos.resolve_left (Nat.lt_irrefl 0)).symm
  | succ attempts ih =>
    have hreq := hrequest s
    rw [attemptBars]
    rcases hrun : request s with ⟨e | parsed, s'⟩ <;> rw [hrun] at hreq
    · exact hreq
    · dsimp only
      split
      · exact hreq
      · rename_i hempty
        have hnil : parsed = [] := by
          by_contra hne
          exact hempty (by simp [hne])
        exact ih (.inr (hreq.symm.trans (congrArg Except.ok hnil))) _

/-- One K-line request, with its attempts. -/
lemma rawBars_answered (hsend : AnsweredBy env.sendAndRecvLimited answer)
    (parse : Bytes → Except TdxError (List β)) (packet : Bytes) (start : ℕ) (s : HqState σ) :
    (env.rawBars parse category packet start s).1 = parse (answer packet) := by
  refine attemptBars_answered (fun s => ?_) _ (.inl (by split <;> omega)) s
  obtain ⟨w, hw⟩ := hsend packet s.world
  rw [requestBars, hw]

/-- The adjustment of bars; there is none without bars.

**Proof sketch.** Corporate actions and context are what the answers say. The client does not adjust
an empty list, and adjusting one gives an empty list. -/
lemma adjustFetched_answered (hsend : AnsweredBy env.sendAndRecvLimited answer)
    (hactions : ActionsAre env.getXdxrInfo market code xdxr) (fq : UInt8) (bars : List SecurityBar)
    (w : σ) :
    (env.adjustFetched sourceArithmetic (env.fetchContextBarsForAdjust category market code) market
        code fq bars w).1 =
      adjustedBars answer xdxr env.fqContextTier (parseSecurityBars env.maxValidYear category)
        category market code fq bars := by
  obtain ⟨w', hw'⟩ := hactions w
  unfold adjustFetched adjustedBars
  rw [hw']
  rcases xdxr with e | xdxr
  · dsimp only
    split <;> rfl
  · dsimp only [fetchContextBarsForAdjust]
    rw [fetchContext_answered hsend]
    by_cases hfq : fq ≠ 0
    · cases bars with
      | nil =>
        rw [if_neg (fun h => h.2 rfl), if_pos hfq, adjustSecurityBars, if_pos (.inr (.inl rfl))]
      | cons first bars => rw [if_pos ⟨hfq, Bool.false_ne_true⟩, if_pos hfq]
    · rw [if_neg (fun h => hfq h.1), if_neg hfq]

/-- The synchronous client. -/
lemma getSecurityBars_answered (hsend : AnsweredBy env.sendAndRecvLimited answer)
    (hactions : ActionsAre env.getXdxrInfo market code xdxr) (hcode : ValidStockCode code)
    (start count : ℕ) (fq : UInt8) (s : HqState σ) :
    (env.getSecurityBars category market code start count fq s).1 =
      answeredBars answer xdxr env.fqContextTier (parseSecurityBars env.maxValidYear category)
        category market code start count fq := by
  have hraw : (env.rawBars (parseSecurityBars env.maxValidYear category) category
      (buildSecurityBarsPacket category market code start count) start s).1 = _ :=
    rawBars_answered hsend _ _ start s
  unfold getSecurityBars getSecurityBarsWith answeredBars
  rw [hcode.checkNotBlockCode_eq, hcode.1, ← hraw]
  dsimp only
  rcases env.rawBars _ category _ start s with ⟨e | bars, s₁⟩
  · rfl
  · exact congrArg Except.ok (adjustFetched_answered hsend hactions fq bars s₁.world)

end HqEnv

/-- **The three clients return the same.** If they have the same settings and every request of
theirs gets an answer, at last with its retries, that is a function of the packet, then for a code
that is a stock code, and for any category, market, window and adjustment, the calls for a security
return the same bars or the same error, whatever the requests for corporate actions and for older
bars do in between; and so do the calls for an index.

**Proof sketch.** Each call for a security is `answeredBars`. An empty answer, which only one client
asks for again, is the same empty answer each time; and without bars, where only one client skips
the adjustment, it does nothing. -/
theorem clients_agree (sync : HqEnv σ) (direct : DirectEnv τ) (async : AsyncEnv υ)
    (answer : Bytes → Bytes) (category market : UInt8) (code : String)
    (xdxr : Except TdxError (List XdXrInfo))
    (halike : AnsweredAlike sync direct async answer market code xdxr)
    (hcode : ValidStockCode code) (start count : ℕ) (fq : UInt8) (s : HqState σ) (w : τ)
    (t : HqState υ) :
    let bars := answeredBars answer xdxr direct.fqContextTier
      (parseSecurityBars direct.maxValidYear category) category market code start count fq
    let indexBars := parseIndexBars direct.maxValidYear category
      (answer (buildIndexBarsPacket category market code start count))
    ((sync.getSecurityBars category market code start count fq s).1 = bars ∧
      (direct.getSecurityBars category market code start count fq w).1 = bars ∧
      (async.getSecurityBars category market code start count fq t).1 = bars) ∧
    (sync.getIndexBars category market code start count fq s).1 = indexBars ∧
      (direct.getIndexBars category market code start count fq w).1 = indexBars ∧
      (async.getIndexBars category market code start count fq t.world).1 = indexBars := by
  intro bars indexBars
  obtain ⟨hsyncTier, hasyncTier⟩ := halike.tiers
  obtain ⟨hsyncYear, hasyncYear⟩ := halike.years
  refine ⟨⟨?_, ?_, ?_⟩, ?_, ?_, ?_⟩
  · rw [HqEnv.getSecurityBars_answered halike.syncRequests halike.syncActions hcode, hsyncTier,
      hsyncYear]
  · exact DirectEnv.getSecurityBars_answered halike.directRequests halike.directActions hcode _ _ _
      _
  · rw [AsyncEnv.getSecurityBars_answered halike.asyncRequests halike.asyncActions, hasyncTier,
      hasyncYear]
  · rw [HqEnv.getIndexBars, hcode.checkNotBlockCode_eq, hsyncYear]
    exact HqEnv.rawBars_answered halike.syncRequests _ _ start s
  · obtain ⟨w', hw'⟩ :=
      halike.directRequests (buildIndexBarsPacket category market code start count) w
    rw [DirectEnv.getIndexBars, hcode.checkNotBlockCode_eq, hw']
  · obtain ⟨w', hw'⟩ :=
      halike.asyncRequests (buildIndexBarsPacket category market code start count) t.world
    rw [AsyncEnv.getIndexBars, hw', hasyncYear]

/-! ## Three days -/

/-- An amount that is a number. -/
def exactAmount : Option Single → Option ℚ
  | some (.finite q) => some q
  | _ => none

/-- The corporate actions of an answer whose amounts are all numbers. -/
def parseExactActions (body : Bytes) : Except TdxError (List XdXrInfo) :=
  (parseXdXrInfo body).map (List.map fun r => ⟨r.year, r.month, r.day, r.category,
    exactAmount r.fenhong, exactAmount r.peigujia, exactAmount r.songzhuangu,
    exactAmount r.peigu⟩)

/-- A dividend of 10 on the second day. -/
def dividendWire : XdXrWire where
  skipped := [0, 0, 0, 0, 0, 0, 0, 0]
  year := 1990
  month := 1
  day := 2
  category := 1
  payload := [0, 0, 0x20, 0x41, 0, 0, 0, 0, 0, 0, 0, 0, 0, 0, 0, 0]
  skipped_length := rfl
  date_fits := by decide
  payload_length := rfl

/-- A server with three days and a dividend. -/
def answerDays (packet : Bytes) : Bytes :=
  if packet = HqProgram.buildXdXrInfoPacket 1 (asBytes "600519") then
    encodeXdXrInfo [0, 0, 0, 0, 0, 0, 0, 0, 0] [dividendWire]
  else
    match BarsRequest.ofPacket packet with
    | none => []
    | some request =>
      encodeSecurityBars (UInt8.ofNat request.category)
        (Window.slice ((List.range 3).map dayRecord) request.start request.count)

/-- A client whose every other try fails, and is tried again. -/
def flakyRequests : HqEnv ℕ where
  trySendAndRecv packet w :=
    (if w % 2 = 0 then .error .disconnected else .ok (answerDays packet), w + 1)
  autoRetry _ := true
  reconnectIfNeeded w := w
  reconnectToAnotherServer w := w
  getXdxrInfo _ _ w := (.ok [], w)
  fqContextTier := .mid
  maxValidYear := 2036

/-- The same client, which asks for the corporate actions. -/
def flakySync : HqEnv ℕ :=
  { flakyRequests with getXdxrInfo := flakyRequests.requestXdxrInfo parseExactActions }

def plainDirect : DirectEnv Unit where
  sendAndRecv := answerAtOnce answerDays
  getXdxrInfo := requestXdxrInfo (answerAtOnce answerDays) parseExactActions
  fqContextTier := .mid
  maxValidYear := 2036

def plainRequests : AsyncEnv Unit where
  trySend := answerAtOnce answerDays
  isConnected _ := true
  currentServer _ := none
  connect _ w := w
  getXdxrInfo _ _ w := (.ok [], w)
  fqContextTier := .mid
  maxValidYear := 2036

/-- The asynchronous client, which asks for the corporate actions. -/
def plainAsync : AsyncEnv Unit :=
  { plainRequests with getXdxrInfo := requestXdxrInfo plainRequests.sendAndRecv parseExactActions }

lemma flakySync_answered : AnsweredBy flakySync.sendAndRecvLimited answerDays := by
  intro packet w
  by_cases hw : w % 2 = 0
  · have hnext : (w + 1) % 2 ≠ 0 := by omega
    exact ⟨w + 2, by simp [HqEnv.sendAndRecvLimited, HqEnv.retryLoop, flakySync, flakyRequests, hw,
      hnext, retryCount, isRetryableError]⟩
  · exact ⟨w + 1, by simp [HqEnv.sendAndRecvLimited, flakySync, flakyRequests, hw]⟩

lemma answeredAlike_days : AnsweredAlike flakySync plainDirect plainAsync answerDays 1 "600519"
    (parseExactActions (answerDays (HqProgram.buildXdXrInfoPacket 1 (codeBytes "600519")))) :=
  answeredAlike_of_requests flakySync_answered (fun _ w => ⟨w, rfl⟩) (fun _ w => ⟨w, rfl⟩) rfl rfl
    rfl ⟨rfl, rfl⟩ ⟨rfl, rfl⟩ ⟨by rfl, by decide +kernel⟩

/-- The three days, adjusted for a dividend, from a client that tries twice and from one that tries
once. -/
theorem clients_agree_days :
    (flakySync.getSecurityBars 4 1 "600519" 0 3 1 ⟨0, []⟩).1 =
        (plainDirect.getSecurityBars 4 1 "600519" 0 3 1 ()).1 ∧
      (plainDirect.getSecurityBars 4 1 "600519" 0 3 1 ()).1 =
        (plainAsync.getSecurityBars 4 1 "600519" 0 3 1 ⟨(), []⟩).1 ∧
      ((plainDirect.getSecurityBars 4 1 "600519" 0 3 1 ()).1.map fun bars =>
        bars.map SecurityBar.close) = .ok [9, 20, 20] := by
  have h := (clients_agree flakySync plainDirect plainAsync answerDays 4 1 "600519" _
    answeredAlike_days ⟨by rfl, by decide +kernel⟩ 0 3 1 ⟨0, []⟩ () ⟨(), []⟩).1
  exact ⟨h.1.trans h.2.1.symm, h.2.1.trans h.2.2.symm, by decide +kernel⟩

end Tdxrs
