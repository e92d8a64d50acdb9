import Tdxrs.Net.AsyncClient

set_option relaxedAutoImplicit false
set_option autoImplicit false

/-!
# What the K-line calls send

Three clients have K-line calls for securities and for indices: `TdxHqClient`, `TdxDirectClient`,
which opens a connection for every request, and `AsyncTdxHqClient`. All six build the packet with
one function, which fills up or cuts off the code and keeps 16 bits of the start; what stands in
front of it differs from call to call. A call should either be refused, with nothing sent, or send
the request that it was asked for.

What a call hands to its transport is recorded in a log that the world carries along, `sent`: each
try of a request adds its packet.

## Main definitions

* `Tdxrs.DirectEnv` — the client without a pool, with its K-line calls.
* `Tdxrs.KLineSite` — the six calls.
* `Tdxrs.CarriesRequest` — a packet is the request that was asked for.
* `Tdxrs.CallFaithful` — a call is refused or begins with that packet.

## Main results

* `Tdxrs.carriesRequest_build_iff` — when the packet of the clients is the request.
* `Tdxrs.KLineSite.call_hands` — a call that is not refused sends that packet first.
* `Tdxrs.kline_calls_faithful_iff` — when a call is faithful.
-/

namespace Tdxrs

variable {σ β : Type}

/-! ## The calls -/

/-- What the K-line calls of `TdxDirectClient` use of the rest of the client. -/
structure DirectEnv (σ : Type) where
  /-- A request over a new connection. -/
  sendAndRecv : Bytes → σ → Except TdxError Bytes × σ
  /-- The corporate actions of a stock. -/
  getXdxrInfo : UInt8 → String → σ → Except TdxError (List XdXrInfo) × σ
  fqContextTier : FqContextTier
  maxValidYear : ℕ

namespace DirectEnv

/-- One K-line call for a security. The code is checked for blocks only. -/
def getSecurityBars (env : DirectEnv σ) (category market : UInt8) (code : String)
    (start count : ℕ) (fq : UInt8) (w : σ) : Except TdxError (List SecurityBar) × σ :=
  match HqEnv.checkNotBlockCode code with
  | .error e => (.error e, w)
  | .ok _ =>
    match env.sendAndRecv (buildSecurityBarsPacket category market code start count) w with
    | (.error e, w) => (.error e, w)
    | (.ok body, w) =>
      match parseSecurityBars env.maxValidYear category body with
      | .error e => (.error e, w)
      | .ok bars =>
        if fq ≠ 0 then
          match env.getXdxrInfo market code w with
          | (.error _, w) => (.ok bars, w)
          | (.ok xdxr, w) =>
            match HqEnv.fetchContextBarsForAdjustWithTier env.sendAndRecv
                (parseSecurityBars env.maxValidYear category) category market code bars xdxr
                env.fqContextTier w with
            | (older, w) =>
              (.ok (adjustSecurityBars sourceArithmetic bars older xdxr (HqEnv.fqType fq)), w)
        else (.ok bars, w)

/-- One K-line call for an index. -/
def getIndexBars (env : DirectEnv σ) (category market : UInt8) (code : String) (start count : ℕ)
    (_fq : UInt8) (w : σ) : Except TdxError (List IndexBar) × σ :=
  match HqEnv.checkNotBlockCode code with
  | .error e => (.error e, w)
  | .ok _ =>
    match env.sendAndRecv (buildIndexBarsPacket category market code start count) w with
    | (.error e, w) => (.error e, w)
    | (.ok body, w) => (parseIndexBars env.maxValidYear category body, w)

end DirectEnv

/-- One K-line call of the asynchronous client for an index. The code is not checked. -/
def AsyncEnv.getIndexBars (env : AsyncEnv σ) (category market : UInt8) (code : String)
    (start count : ℕ) (_fq : UInt8) (w : σ) : Except TdxError (List IndexBar) × σ :=
  match env.sendAndRecv (buildIndexBarsPacket category market code start count) w with
  | (.error e, w) => (.error e, w)
  | (.ok body, w) => (parseIndexBars env.maxValidYear category body, w)

/-! ## Requests and packets -/

/-- A code is six ASCII alphanumerics. -/
def SixAlphanumerics (code : String) : Prop :=
  (asBytes code).length = 6 ∧ (asBytes code).all isAsciiAlphanumeric = true

instance (code : String) : Decidable (SixAlphanumerics code) :=
  inferInstanceAs (Decidable (_ ∧ _))

/-- A packet of 38 bytes carries exactly the request that was asked for, with a code of six ASCII
alphanumerics. -/
def CarriesRequest (category market : UInt8) (code : String) (start : UInt32) (count : UInt16)
    (packet : Bytes) : Prop :=
  packet.length = 38 ∧ SixAlphanumerics code ∧
    BarsRequest.ofPacket packet =
      some ⟨category.toNat, market.toNat, asBytes code, start.toNat, count.toNat⟩

/-- A call that started with `sent w` on record is an error without a packet, or its first packet is
as it should be. -/
def CallFaithful (sent : σ → List Bytes) (carries : Bytes → Prop) (w : σ)
    (result : Except TdxError β × σ) : Prop :=
  ((∃ e, result.1 = .error e) ∧ sent result.2 = sent w) ∨
    ∃ packet rest, sent result.2 = sent w ++ packet :: rest ∧ carries packet

/-- The strict check lets through what it is meant to. -/
lemma codeBytesStrict_eq (code : String) :
    (SixAlphanumerics code ∧ codeBytesStrict code = .ok (asBytes code)) ∨
      (¬ SixAlphanumerics code ∧ ∃ e, codeBytesStrict code = .error e) := by
  unfold codeBytesStrict SixAlphanumerics
  split
  · rename_i h
    exact .inr ⟨fun hsix => h.elim (absurd hsix.1) (absurd hsix.2), _, rfl⟩
  · rename_i h
    exact .inl ⟨by simpa only [not_or, not_not] using h, rfl⟩

/-- Six bytes are neither filled up nor cut off. -/
lemma SixAlphanumerics.codeBytes_eq {code : String} (h : SixAlphanumerics code) :
    codeBytes code = asBytes code := by
  rw [codeBytes, List.take_of_length_le h.1.le, List.rightpad, h.1]
  exact List.append_nil _

/-- **When the packet of the clients is the request**: for a start of 16 bits and a code of six
ASCII alphanumerics. -/
lemma carriesRequest_build_iff (category market : UInt8) (code : String) (start : UInt32)
    (count : UInt16) :
    CarriesRequest category market code start count
        (buildSecurityBarsPacket category market code start.toNat count.toNat) ↔
      start.toNat < 65536 ∧ SixAlphanumerics code := by
  have hcount : count.toNat % 65536 = count.toNat := Nat.mod_eq_of_lt count.toNat_lt
  have hlen :
      (buildSecurityBarsPacket category market code start.toNat count.toNat).length = 38 := by
    simp [buildSecurityBarsPacket]
  rw [CarriesRequest, ofPacket_build, hcount, Option.some.injEq, BarsRequest.mk.injEq]
  constructor
  · rintro ⟨-, hsix, -, -, -, hstart, -⟩
    exact ⟨by omega, hsix⟩
  · rintro ⟨hstart, hsix⟩
    exact ⟨hlen, hsix, rfl, rfl, hsix.codeBytes_eq, Nat.mod_eq_of_lt hstart, rfl⟩

/-- Where something is sent, the first packet decides. -/
lemma callFaithful_iff {sent : σ → List Bytes} {carries : Bytes → Prop} {w : σ}
    {result : Except TdxError β × σ} {packet : Bytes}
    (h : sent w ++ [packet] <+: sent result.2) :
    CallFaithful sent carries w result ↔ carries packet := by
  obtain ⟨rest, hrest⟩ := h
  rw [List.append_assoc, List.singleton_append] at hrest
  rw [CallFaithful, ← hrest]
  constructor
  · rintro (⟨-, hnone⟩ | ⟨packet', rest', hsent, hcarries⟩)
    · exact absurd (List.append_right_eq_self.mp hnone) (List.cons_ne_nil _ _)
    · obtain ⟨rfl, -⟩ := List.cons.inj (List.append_cancel_left hsent)
      exact hcarries
  · exact fun hcarries => .inr ⟨packet, rest, rfl, hcarries⟩

/-! ## Records of what is sent -/

/-- A way to send requests puts every packet on record. -/
def Hands (sent : σ → List Bytes) (send : Bytes → σ → Except TdxError Bytes × σ) : Prop :=
  ∀ packet w, sent w ++ [packet] <+: sent (send packet w).2

/-- The packets of the synchronous client are on record. -/
structure HqEnv.Records (env : HqEnv σ) (sent : σ → List Bytes) : Prop where
  trySendAndRecv : Hands sent env.trySendAndRecv
  reconnectIfNeeded : ∀ w, sent (env.reconnectIfNeeded w) = sent w
  reconnectToAnotherServer : ∀ w, sent (env.reconnectToAnotherServer w) = sent w
  getXdxrInfo : ∀ market code w, sent w <+: sent (env.getXdxrInfo market code w).2

/-- The packets of the client without a pool are on record. -/
structure DirectEnv.Records (env : DirectEnv σ) (sent : σ → List Bytes) : Prop where
  sendAndRecv : Hands sent env.sendAndRecv
  getXdxrInfo : ∀ market code w, sent w <+: sent (env.getXdxrInfo market code w).2

/-- The packets of the asynchronous client are on record. -/
structure AsyncEnv.Records (env : AsyncEnv σ) (sent : σ → List Bytes) : Prop where
  trySend : Hands sent env.trySend
  connect : ∀ server w, sent (env.connect server w) = sent w
  getXdxrInfo : ∀ market code w, sent w <+: sent (env.getXdxrInfo market code w).2

variable {sent : σ → List Bytes}

/-- What was on record stays there. -/
lemma Hands.grows {send : Bytes → σ → Except TdxError Bytes × σ} (h : Hands sent send)
    (packet : Bytes) (w : σ) : sent w <+: sent (send packet w).2 :=
  (List.prefix_append _ _).trans (h packet w)

/-- The context fetch only adds to the record.

**Proof sketch.** Induction on the pages that are left: each begins with a packet that is handed
over, and every branch then ends the loop or goes on. -/
lemma fetchContextPages_grows {send : Bytes → σ → Except TdxError Bytes × σ} (h : Hands sent send)
    (parse : Bytes → Except TdxError (List SecurityBar)) (category market : UInt8) (code : String)
    (earliest left offset : ℕ) (context : List SecurityBar) (w : σ) :
    sent w <+: sent (HqEnv.fetchContextPages send parse category market code earliest left offset
      context w).2 := by
  induction left generalizing offset context w with
  | zero => exact List.prefix_rfl
  | succ left ih =>
    have hgrows := h.grows (buildSecurityBarsPacket category market code offset maxKlineCount) w
    rw [HqEnv.fetchContextPages]
    rcases hsend : send (buildSecurityBarsPacket category market code offset maxKlineCount) w with
      ⟨e | body, w'⟩ <;> rw [hsend] at hgrows
    · exact hgrows
    · rcases hparse : parse body with e | _ | ⟨first, batch⟩ <;> simp only [hparse]
      · exact hgrows
      · exact hgrows
      · split
        · exact hgrows
        · split
          · exact hgrows
          · exact hgrows.trans (ih _ _ _)

lemma fetchContextBars_grows {send : Bytes → σ → Except TdxError Bytes × σ} (h : Hands sent send)
    (parse : Bytes → Except TdxError (List SecurityBar)) (category market : UInt8) (code : String)
    (bars : List SecurityBar) (xdxr : List XdXrInfo) (maxPages : ℕ) (w : σ) :
    sent w <+:
      sent (HqEnv.fetchContextBars send parse category market code bars xdxr maxPages w).2 := by
  unfold HqEnv.fetchContextBars
  split
  · split
    · exact List.prefix_rfl
    · exact fetchContextPages_grows h _ _ _ _ _ _ _ _ _
  · exact List.prefix_rfl

namespace HqEnv

variable {env : HqEnv σ}

/-- The tries of a client only add to the record.

**Proof sketch.** Induction on the tries that are left: a try hands over the packet, and connecting
again sends nothing. -/
lemma retryLoop_grows (h : env.Records sent) (packet : Bytes) (left : ℕ) (w : σ) :
    sent w <+: sent (env.retryLoop packet left w).2 := by
  induction left generalizing w with
  | zero => exact List.prefix_rfl
  | succ left ih =>
    have hgrows := h.trySendAndRecv.grows packet (env.reconnectIfNeeded w)
    rw [h.reconnectIfNeeded] at hgrows
    rw [retryLoop]
    rcases hsend : env.trySendAndRecv packet (env.reconnectIfNeeded w) with ⟨_ | body, w'⟩ <;>
      rw [hsend] at hgrows
    · exact hgrows.trans (ih w')
    · exact hgrows

/-- A request with its retries puts its packet on record. -/
lemma hands_sendAndRecvLimited (h : env.Records sent) : Hands sent env.sendAndRecvLimited := by
  intro packet w
  have hfirst := h.trySendAndRecv packet w
  rw [sendAndRecvLimited]
  rcases hsend : env.trySendAndRecv packet w with ⟨e | body, w'⟩ <;> rw [hsend] at hfirst
  · show _ <+: sent (if ¬ env.autoRetry w' ∨ ¬ isRetryableError e then (.error e, w')
      else env.retryLoop packet retryCount w').2
    split
    · exact hfirst
    · exact hfirst.trans (retryLoop_grows h packet retryCount w')
  · exact hfirst

/-- The attempts at a call only add to the record.

**Proof sketch.** Induction on the attempts that are left: a request adds to the record, and
connecting to another server leaves it as it is. -/
lemma attemptBars_grows (h : env.Records sent)
    {request : HqState σ → Except TdxError (List β) × HqState σ}
    (hrequest : ∀ s, sent s.world <+: sent (request s).2.world) (shouldRetryEmpty : Bool)
    (left : ℕ) (s : HqState σ) :
    sent s.world <+: sent (env.attemptBars request shouldRetryEmpty left s).2.world := by
  induction left generalizing s with
  | zero => exact List.prefix_rfl
  | succ left ih =>
    have hgrows := hrequest s
    rw [attemptBars]
    rcases hanswer : request s with ⟨e | parsed, s'⟩ <;> rw [hanswer] at hgrows
    · exact hgrows
    · show _ <+: sent (if (!parsed.isEmpty || !shouldRetryEmpty) = true then (.ok parsed, s')
        else env.attemptBars request shouldRetryEmpty left
          (if 0 < left then { s' with world := env.reconnectToAnotherServer s'.world }
            else s')).2.world
      split
      · exact hgrows
      · refine hgrows.trans (List.IsPrefix.trans ?_ (ih _))
        split
        · exact (h.reconnectToAnotherServer s'.world).symm ▸ List.prefix_rfl
        · exact List.prefix_rfl

/-- **A K-line call begins with its packet.**

**Proof sketch.** There is at least one attempt, and it begins by handing over the packet
(`hands_sendAndRecvLimited`); whatever follows only adds to the record (`attemptBars_grows`). -/
lemma rawBars_hands (h : env.Records sent) (parse : Bytes → Except TdxError (List β))
    (category : UInt8) (packet : Bytes) (start : ℕ) (s : HqState σ) :
    sent s.world ++ [packet] <+: sent (env.rawBars parse category packet start s).2.world := by
  have hrequest : ∀ s, sent s.world ++ [packet] <+:
      sent (env.requestBars parse packet start s).2.world := by
    intro s
    have hhands := hands_sendAndRecvLimited h packet s.world
    rw [requestBars]
    rcases hsend : env.sendAndRecvLimited packet s.world with ⟨e | body, w'⟩ <;>
      rw [hsend] at hhands <;> exact hhands
  have hgrows := fun s => (List.prefix_append _ _).trans (hrequest s)
  obtain ⟨left, hleft⟩ : ∃ left, (if 4 ≤ category then 3 else 1) = left + 1 := by
    by_cases hcategory : 4 ≤ category
    · exact ⟨2, if_pos hcategory⟩
    · exact ⟨0, if_neg hcategory⟩
  have hfirst := hrequest s
  rw [rawBars, hleft, attemptBars]
  rcases hanswer : env.requestBars parse packet start s with ⟨e | parsed, s'⟩ <;>
    rw [hanswer] at hfirst
  · exact hfirst
  · show _ <+: sent (if (!parsed.isEmpty || !decide (4 ≤ category)) = true then (.ok parsed, s')
      else env.attemptBars (env.requestBars parse packet start) (4 ≤ category) left
        (if 0 < left then { s' with world := env.reconnectToAnotherServer s'.world }
          else s')).2.world
    split
    · exact hfirst
    · refine hfirst.trans (List.IsPrefix.trans ?_ (attemptBars_grows h hgrows _ _ _))
      split
      · exact (h.reconnectToAnotherServer s'.world).symm ▸ List.prefix_rfl
      · exact List.prefix_rfl

/-- A call for a security whose code passes both checks begins with its packet.

**Proof sketch.** Both checks of the code are passed, so the bars are asked for with the packet
(`rawBars_hands`). What an adjustment asks for afterwards only adds to the record. -/
lemma getSecurityBars_hands (h : env.Records sent) {code : String}
    (hblock : isBlockCode code = false) (hcode : SixAlphanumerics code) (category market : UInt8)
    (start count : ℕ) (fq : UInt8) (s : HqState σ) :
    sent s.world ++ [buildSecurityBarsPacket category market code start count] <+:
      sent (env.getSecurityBars category market code start count fq s).2.world := by
  have hraw := rawBars_hands h (parseSecurityBars env.maxValidYear category) category
    (buildSecurityBarsPacket category market code start count) start s
  have hadjust : ∀ bars w, sent w <+: sent (env.adjustFetched sourceArithmetic
      (env.fetchContextBarsForAdjust category market code) market code fq bars w).2 := by
    intro bars w
    rw [adjustFetched]
    split
    · have hxdxr := h.getXdxrInfo market code w
      rcases hanswer : env.getXdxrInfo market code w with ⟨e | xdxr, w'⟩ <;> rw [hanswer] at hxdxr
      · exact hxdxr
      · exact hxdxr.trans (fetchContextBars_grows (hands_sendAndRecvLimited h) _ _ _ _ _ _ _ _)
    · exact List.prefix_rfl
  have hstrict : codeBytesStrict code = .ok (asBytes code) :=
    (codeBytesStrict_eq code).elim And.right fun hnot => absurd hcode hnot.1
  rw [getSecurityBars, getSecurityBarsWith, checkNotBlockCode, hblock, hstrict]
  rcases hanswer : env.rawBars (parseSecurityBars env.maxValidYear category) category
    (buildSecurityBarsPacket category market code start count) start s with ⟨e | bars, s'⟩ <;>
    rw [hanswer] at hraw
  · simpa only [hanswer, Bool.false_eq_true, if_false] using hraw
  · simpa only [hanswer, Bool.false_eq_true, if_false] using hraw.trans (hadjust bars s'.world)

/-- A call for an index whose code is not one of a block begins with its packet. -/
lemma getIndexBars_hands (h : env.Records sent) {code : String} (hblock : isBlockCode code = false)
    (category market : UInt8) (start count : ℕ) (fq : UInt8) (s : HqState σ) :
    sent s.world ++ [buildSecurityBarsPacket category market code start count] <+:
      sent (env.getIndexBars category market code start count fq s).2.world := by
  rw [getIndexBars, checkNotBlockCode, hblock]
  exact rawBars_hands h _ category _ start s

end HqEnv

/-! ## The other clients -/

/-- A call of the client without a pool begins with its packet if the code is not one of a block.

**Proof sketch.** The check of the code is passed, and the first thing that is sent is the packet,
which is the same for securities and indices. Corporate actions and context, if they are asked for,
come later and only add to the record. -/
lemma DirectEnv.calls_hand {env : DirectEnv σ} (h : env.Records sent) {code : String}
    (hblock : isBlockCode code = false) (category market : UInt8) (start count : ℕ) (fq : UInt8)
    (w : σ) :
    sent w ++ [buildSecurityBarsPacket category market code start count] <+:
        sent (env.getSecurityBars category market code start count fq w).2 ∧
      sent w ++ [buildSecurityBarsPacket category market code start count] <+:
        sent (env.getIndexBars category market code start count fq w).2 := by
  have hhands := h.sendAndRecv (buildSecurityBarsPacket category market code start count) w
  rw [getSecurityBars, getIndexBars, HqEnv.checkNotBlockCode, hblock, buildIndexBarsPacket]
  rcases hanswer : env.sendAndRecv (buildSecurityBarsPacket category market code start count) w with
    ⟨e | body, w'⟩ <;> rw [hanswer] at hhands
  · simp [hhands]
  · refine ⟨?_, by simpa using hhands⟩
    rcases hparse : parseSecurityBars env.maxValidYear category body with e | bars
    · simpa [hparse] using hhands
    · have hxdxr := h.getXdxrInfo market code w'
      rcases hactions : env.getXdxrInfo market code w' with ⟨e | xdxr, w''⟩ <;>
        rw [hactions] at hxdxr <;> by_cases hfq : fq = 0 <;> simp [hparse, hactions, hfq]
      · exact hhands
      · exact hhands.trans hxdxr
      · exact hhands
      · exact hhands.trans (hxdxr.trans
          (fetchContextBars_grows h.sendAndRecv _ _ _ _ _ _ _ _))

namespace AsyncEnv

variable {env : AsyncEnv σ}

/-- The tries of the asynchronous client only add to the record.

**Proof sketch.** Induction on the tries that are left: a try hands over the packet, and connecting
again sends nothing. -/
lemma retryLoop_grows (h : env.Records sent) (packet : Bytes) (left : ℕ) (lastErr : TdxError)
    (w : σ) : sent w <+: sent (env.retryLoop packet left lastErr w).2 := by
  induction left generalizing lastErr w with
  | zero => exact List.prefix_rfl
  | succ left ih =>
    have hdown : sent (env.reconnectIfDown w) = sent w := by
      unfold reconnectIfDown
      split
      · rfl
      · split
        · exact h.connect _ w
        · rfl
    have hgrows := h.trySend.grows packet (env.reconnectIfDown w)
    rw [hdown] at hgrows
    rw [retryLoop]
    rcases hsend : env.trySend packet (env.reconnectIfDown w) with ⟨e | body, w'⟩ <;>
      rw [hsend] at hgrows
    · exact hgrows.trans (ih e w')
    · exact hgrows

/-- A request with its retries puts its packet on record. -/
lemma hands_sendAndRecv (h : env.Records sent) : Hands sent env.sendAndRecv := by
  intro packet w
  have hfirst := h.trySend packet w
  rw [sendAndRecv]
  rcases hsend : env.trySend packet w with ⟨e | body, w'⟩ <;> rw [hsend] at hfirst
  · exact hfirst.trans (retryLoop_grows h packet retryCount e w')
  · exact hfirst

/-- A call of the asynchronous client begins with its packet.

**Proof sketch.** As `DirectEnv.calls_hand`, without a check of the code. -/
lemma calls_hand (h : env.Records sent) (category market : UInt8) (code : String)
    (start count : ℕ) (fq : UInt8) (s : HqState σ) :
    sent s.world ++ [buildSecurityBarsPacket category market code start count] <+:
        sent (env.getSecurityBars category market code start count fq s).2.world ∧
      sent s.world ++ [buildSecurityBarsPacket category market code start count] <+:
        sent (env.getIndexBars category market code start count fq s.world).2 := by
  have hhands := hands_sendAndRecv h (buildSecurityBarsPacket category market code start count)
    s.world
  rw [getSecurityBars, getIndexBars, buildIndexBarsPacket]
  rcases hanswer : env.sendAndRecv (buildSecurityBarsPacket category market code start count)
    s.world with ⟨e | body, w'⟩ <;> rw [hanswer] at hhands
  · simp [hhands]
  · refine ⟨?_, by simpa using hhands⟩
    rcases hparse : parseSecurityBars env.maxValidYear category body with e | bars
    · simpa [hparse] using hhands
    · have hxdxr := h.getXdxrInfo market code w'
      rcases hactions : env.getXdxrInfo market code w' with ⟨e | xdxr, w''⟩ <;>
        rw [hactions] at hxdxr <;> by_cases hfq : fq = 0 <;> simp [hparse, hactions, hfq]
      · exact hhands
      · exact hhands.trans hxdxr
      · exact hhands
      · exact hhands.trans (hxdxr.trans
          (fetchContextBars_grows (hands_sendAndRecv h) _ _ _ _ _ _ _ _))

end AsyncEnv

/-! ## The six calls -/

/-- The three clients, with a record of what they send. -/
structure KLineClients (σ : Type) where
  hq : HqEnv σ
  direct : DirectEnv σ
  async : AsyncEnv σ
  sent : σ → List Bytes
  hqRecords : hq.Records sent
  directRecords : direct.Records sent
  asyncRecords : async.Records sent

/-- The K-line calls. -/
inductive KLineSite where
  | hqSecurity
  | hqIndex
  | directSecurity
  | directIndex
  | asyncSecurity
  | asyncIndex
deriving DecidableEq, Repr

namespace KLineSite

/-- A call, with nothing of its bars but whether there are any. -/
def call (c : KLineClients σ) (category market : UInt8) (code : String) (start : UInt32)
    (count : UInt16) (fq : UInt8) (w : σ) : KLineSite → Except TdxError Unit × σ
  | .hqSecurity =>
    let r := c.hq.getSecurityBars category market code start.toNat count.toNat fq ⟨w, []⟩
    (r.1.map fun _ => (), r.2.world)
  | .hqIndex =>
    let r := c.hq.getIndexBars category market code start.toNat count.toNat fq ⟨w, []⟩
    (r.1.map fun _ => (), r.2.world)
  | .directSecurity =>
    let r := c.direct.getSecurityBars category market code start.toNat count.toNat fq w
    (r.1.map fun _ => (), r.2)
  | .directIndex =>
    let r := c.direct.getIndexBars category market code start.toNat count.toNat fq w
    (r.1.map fun _ => (), r.2)
  | .asyncSecurity =>
    let r := c.async.getSecurityBars category market code start.toNat count.toNat fq ⟨w, []⟩
    (r.1.map fun _ => (), r.2.world)
  | .asyncIndex =>
    let r := c.async.getIndexBars category market code start.toNat count.toNat fq w
    (r.1.map fun _ => (), r.2)

/-- The codes that a call refuses. -/
def Refuses (code : String) : KLineSite → Prop
  | .hqSecurity => isBlockCode code = true ∨ ¬ SixAlphanumerics code
  | .hqIndex | .directSecurity | .directIndex => isBlockCode code = true
  | .asyncSecurity | .asyncIndex => False

variable (c : KLineClients σ) (category market : UInt8) {code : String} (start : UInt32)
  (count : UInt16) (fq : UInt8) (w : σ)

/-- A call that is refused is an error, and nothing is sent.

**Proof sketch.** By the place of the call. Each makes its checks before anything is sent: the code
of a block is refused by the calls of two clients, a code that is not six alphanumerics by one of
them, and the asynchronous client refuses none. -/
lemma call_refused {site : KLineSite} (h : site.Refuses code) :
    (∃ e, (site.call c category market code start count fq w).1 = .error e) ∧
      (site.call c category market code start count fq w).2 = w := by
  have hblock : isBlockCode code = true → ∃ e, HqEnv.checkNotBlockCode code = .error e := fun hb =>
    ⟨_, if_pos hb⟩
  cases site with
  | hqSecurity =>
    simp only [call, HqEnv.getSecurityBars, HqEnv.getSecurityBarsWith]
    rcases h with hb | hsix
    · obtain ⟨e, he⟩ := hblock hb
      exact ⟨⟨e, by simp [he, Except.map]⟩, by simp [he]⟩
    · obtain ⟨e, he⟩ := (codeBytesStrict_eq code).elim (fun hok => absurd hok.1 hsix) And.right
      rcases HqEnv.checkNotBlockCode code with e' | _
      · exact ⟨⟨e', rfl⟩, rfl⟩
      · exact ⟨⟨e, by simp [he, Except.map]⟩, by simp [he]⟩
  | hqIndex =>
    obtain ⟨e, he⟩ := hblock h
    exact ⟨⟨e, by simp [call, HqEnv.getIndexBars, he, Except.map]⟩,
      by simp [call, HqEnv.getIndexBars, he]⟩
  | directSecurity =>
    obtain ⟨e, he⟩ := hblock h
    exact ⟨⟨e, by simp [call, DirectEnv.getSecurityBars, he, Except.map]⟩,
      by simp [call, DirectEnv.getSecurityBars, he]⟩
  | directIndex =>
    obtain ⟨e, he⟩ := hblock h
    exact ⟨⟨e, by simp [call, DirectEnv.getIndexBars, he, Except.map]⟩,
      by simp [call, DirectEnv.getIndexBars, he]⟩
  | asyncSecurity => exact h.elim
  | asyncIndex => exact h.elim

/-- **A call that is not refused begins with its packet.**

**Proof sketch.** One case for each of the six places, by what is known of the call of that
client. -/
lemma call_hands {site : KLineSite} (h : ¬ site.Refuses code) :
    c.sent w ++ [buildSecurityBarsPacket category market code start.toNat count.toNat] <+:
      c.sent (site.call c category market code start count fq w).2 := by
  cases site with
  | hqSecurity =>
    rw [Refuses, not_or, Bool.not_eq_true, not_not] at h
    exact HqEnv.getSecurityBars_hands c.hqRecords h.1 h.2 category market _ _ fq ⟨w, []⟩
  | hqIndex =>
    exact HqEnv.getIndexBars_hands c.hqRecords (eq_false_of_ne_true h) category market _ _ fq
      ⟨w, []⟩
  | directSecurity =>
    exact (DirectEnv.calls_hand c.directRecords (eq_false_of_ne_true h) category market _ _ fq w).1
  | directIndex =>
    exact (DirectEnv.calls_hand c.directRecords (eq_false_of_ne_true h) category market _ _ fq w).2
  | asyncSecurity =>
    exact (AsyncEnv.calls_hand c.asyncRecords category market code _ _ fq ⟨w, []⟩).1
  | asyncIndex =>
    exact (AsyncEnv.calls_hand c.asyncRecords category market code _ _ fq ⟨w, []⟩).2

end KLineSite

/-- **When a K-line call is faithful.** Each of the six calls is refused with nothing sent, or sends
the request it was asked for, exactly if it refuses the code or the start fits 16 bits and the code
is six ASCII alphanumerics.

**Proof sketch.** A call that is refused sends nothing (`call_refused`), and is faithful as such.
Any other begins with the packet of its arguments (`call_hands`), and `carriesRequest_build_iff`
says when this packet carries the request that was meant. -/
theorem kline_calls_faithful_iff (c : KLineClients σ) (site : KLineSite) (category market : UInt8)
    (code : String) (start : UInt32) (count : UInt16) (fq : UInt8) (w : σ) :
    CallFaithful c.sent (CarriesRequest category market code start count) w
        (site.call c category market code start count fq w) ↔
      site.Refuses code ∨ (start.toNat < 65536 ∧ SixAlphanumerics code) := by
  by_cases hrefused : site.Refuses code
  · obtain ⟨herror, hworld⟩ := KLineSite.call_refused c category market start count fq w hrefused
    exact iff_of_true (.inl ⟨herror, congrArg c.sent hworld⟩) (.inl hrefused)
  · rw [callFaithful_iff (KLineSite.call_hands c category market start count fq w hrefused),
      carriesRequest_build_iff, or_iff_right hrefused]

/-- Clients without a server: the world is the record. -/
def unreachableClients : KLineClients (List Bytes) where
  hq :=
    { trySendAndRecv := fun packet log => (.error .disconnected, log ++ [packet])
      autoRetry := fun _ => false
      reconnectIfNeeded := id
      reconnectToAnotherServer := id
      getXdxrInfo := fun _ _ log => (.error .disconnected, log)
      fqContextTier := .mid
      maxValidYear := 2036 }
  direct :=
    { sendAndRecv := fun packet log => (.error .disconnected, log ++ [packet])
      getXdxrInfo := fun _ _ log => (.error .disconnected, log)
      fqContextTier := .mid
      maxValidYear := 2036 }
  async :=
    { trySend := fun packet log => (.error .disconnected, log ++ [packet])
      isConnected := fun _ => true
      currentServer := fun _ => none
      connect := fun _ log => log
      getXdxrInfo := fun _ _ log => (.error .disconnected, log)
      fqContextTier := .mid
      maxValidYear := 2036 }
  sent := id
  hqRecords := ⟨fun _ _ => List.prefix_rfl, fun _ => rfl, fun _ => rfl,
    fun _ _ _ => List.prefix_rfl⟩
  directRecords := ⟨fun _ _ => List.prefix_rfl, fun _ _ _ => List.prefix_rfl⟩
  asyncRecords := ⟨fun _ _ => List.prefix_rfl, fun _ _ => rfl, fun _ _ _ => List.prefix_rfl⟩

/-- **A request for another security**: the code `1234567` is cut off and sent as `123456`. -/
theorem kline_call_other_security :
    ¬ ∀ (c : KLineClients (List Bytes)) (site : KLineSite) (category market : UInt8) (code : String)
      (start : UInt32) (count : UInt16) (fq : UInt8) (w : List Bytes),
      CallFaithful c.sent (CarriesRequest category market code start count) w
        (site.call c category market code start count fq w) := by
  intro hall
  have hfaithful := hall unreachableClients .asyncSecurity 4 1 "1234567" 0 10 0 []
  rw [callFaithful_iff (KLineSite.call_hands unreachableClients 4 1 0 10 0 [] id),
    carriesRequest_build_iff] at hfaithful
  exact absurd hfaithful.2 (by decide +kernel)

end Tdxrs
