import Tdxrs.Net.SmartClient

set_option relaxedAutoImplicit false
set_option autoImplicit false

/-!
# Which server a verdict names

The smart client records successes and failures under the name of its own current server. The
answers come from the last server of the client inside, which switches after an empty answer to a
daily K-line, in the retries of a request, through its heartbeat, and when it is used to probe
servers. As long as every request goes out while the two are the same, a verdict names the server
that produced what it is about.

A contract says what the operations do to the server asked last and to the current server, and the
programs of the calls meet it: a verdict is recorded only about the server asked last.

## Main definitions

* `Tdxrs.SmartClient.Attached` — the client inside is on the current server.
* `Tdxrs.attribution` — the contract.
* `Tdxrs.HqProgram.Asks` — programs that begin with a try of a request.

## Main results

* `Tdxrs.smart_verdicts_right` — when all verdicts name the right server.
* `Tdxrs.smart_blames_healthy` — a server is blacklisted for the empty answer of another one.
-/

namespace Tdxrs

/-! ## The condition -/

/-- The codes of a call are accepted by the client inside. -/
def SmartCall.Valid : SmartCall → Prop
  | .getSecurityBars _ market code _ _ _ => (HqProgram.checkCodes [(market, code)]).toBool = true
  | .getSecurityQuotes stocks => (HqProgram.checkCodes stocks).toBool = true
  | .connectToAny | .probeAndCache => True

instance : DecidablePred SmartCall.Valid
  | .getSecurityBars _ market code _ _ _ =>
    inferInstanceAs (Decidable ((HqProgram.checkCodes [(market, code)]).toBool = true))
  | .getSecurityQuotes stocks =>
    inferInstanceAs (Decidable ((HqProgram.checkCodes stocks).toBool = true))
  | .connectToAny | .probeAndCache => .isTrue trivial

namespace SmartClient

/-- Requests go to the current server, if there is one: the client inside has not been moved away
from it. -/
def Attached (lists : NamedLists) (s : SmartClient) : Prop :=
  ∀ server ∈ s.currentServer, s.inner.target lists.servers = server.server

instance (lists : NamedLists) (s : SmartClient) : Decidable (s.Attached lists) :=
  inferInstanceAs (Decidable (∀ _ ∈ _, _))

/-- Tries of requests are made only while the client inside is on the current server. -/
def TriesAttached (lists : NamedLists) : SmartOp → SmartClient → Prop
  | .hq (.trySendAndRecv _), s => s.Attached lists
  | _, _ => True

instance (lists : NamedLists) : ∀ op s, Decidable (TriesAttached lists op s)
  | .hq (.trySendAndRecv _), s => inferInstanceAs (Decidable (s.Attached lists))
  | .hq .autoRetry, _ | .hq .reconnectIfNeeded, _ | .hq .reconnectToAnotherServer, _
  | .connect _, _ | .disconnect, _ | .beginCall, _ | .currentServer, _ | .setCurrentServer _, _
  | .healthChecked, _ | .setHealthChecked _, _ | .lastSuccess, _ | .clearLastSuccess, _
  | .isBlacklisted _, _ | .allBlacklisted _, _ | .record _, _ => .isTrue trivial

/-- All verdicts so far name the server that produced what they are about. -/
def AllRight (s : SmartClient) : Prop := ∀ v ∈ s.verdicts, v.Right

end SmartClient

/-! ## The contract -/

/-- The server asked last, and the current server. -/
structure Attribution where
  asked : Option Server
  current : Option NamedServer

/-- There is a server asked last, and it is the current server if there is one. -/
def Attribution.Settled (v : Attribution) : Prop :=
  ∃ server, v.asked = some server ∧ ∀ c ∈ v.current, server = c.server

/-- A verdict needs the server asked last to be the one that it names. A try asks the current
server, if there is one. -/
def attribution : Program.Contract SmartOp SmartOp.Ans Attribution where
  needs
    | .record verdict, v => v.asked = some verdict.server
    | _, _ => True
  may
    | .hq (.trySendAndRecv _), v, _, v' =>
      ∃ server, (∀ c ∈ v.current, server = c.server) ∧ v' = { v with asked := some server }
    | .connect server, v, _, v' => v' = { v with asked := some server }
    | .beginCall, v, _, v' => v' = { v with asked := none }
    | .currentServer, v, r, v' => r = v.current ∧ v' = v
    | .setCurrentServer server, v, _, v' => v' = { v with current := some server }
    | _, v, _, v' => v' = v

/-- What of the state the contract speaks about. -/
def SmartClient.view (s : SmartClient) : Attribution := ⟨s.asked, s.currentServer⟩

/-- **The operations do what the contract says**, as far as tries are made on the current server.

**Proof sketch.** By the kind of the operation. A try is answered by the server that the client is
attached to, which the guard says is the current one; a verdict is recorded for the server that was
asked, which the contract requires; nothing else touches the verdicts. -/
lemma perform_attribution (lists : NamedLists) (op : SmartOp) (s : SmartClient)
    (input : SmartInput) (r : op.Ans) (s' : SmartClient)
    (hattached : SmartClient.TriesAttached lists op s) (hneeds : attribution.needs op s.view)
    (hright : s.AllRight) (h : SmartClient.perform lists op s input = some (r, s')) :
    attribution.may op s.view r s'.view ∧ s'.AllRight := by
  obtain ⟨-, rfl, inner, -, rfl⟩ := SmartClient.perform_eq h
  cases op with
  | hq op =>
    cases op with
    | trySendAndRecv packet => exact ⟨⟨_, hattached, rfl⟩, hright⟩
    | _ => exact ⟨rfl, hright⟩
  | currentServer => exact ⟨⟨rfl, rfl⟩, hright⟩
  | record call =>
    refine ⟨rfl, fun v hv => ?_⟩
    rcases List.mem_cons.mp hv with rfl | hv
    · show s.asked = some call.server
      exact hneeds
    · exact hright v hv
  | _ => exact ⟨rfl, hright⟩

/-! ## Programs of the client inside -/

/-- The contract as it is for the operations of the client inside. -/
abbrev hqAttribution : Program.Contract HqOp HqOp.Ans Attribution :=
  attribution.pull SmartOp.hq fun _ r => r

/-- Whatever the client inside does, the current server stays, and so does the server asked last
settled.

**Proof sketch.** By induction on the program. Only a request touches the server asked last, and it
sets it to the current one; all other operations leave both as they are. -/
lemma meets_hqProgram {α : Type} (p : HqProgram α) (v : Attribution) :
    p.Meets hqAttribution
      (fun _ v' => v'.current = v.current ∧ (v.Settled → v'.Settled)) v := by
  induction p generalizing v with
  | done a => exact ⟨rfl, id⟩
  | call op next ih =>
    refine ⟨trivial, ?_⟩
    rintro r v' ⟨r', rfl, hmay⟩
    cases op with
    | trySendAndRecv packet =>
      obtain ⟨server, hserver, rfl⟩ := hmay
      exact (ih _ _).mono fun _ v' h => ⟨h.1, fun _ => h.2 ⟨server, rfl, hserver⟩⟩
    | _ =>
      obtain rfl := hmay
      exact ih _ _

namespace HqProgram

/-- The program begins with a try of a request. -/
def Asks {α : Type} (p : HqProgram α) : Prop :=
  ∃ packet next, p = .call (.trySendAndRecv packet) next

variable {α β : Type}

/-- A program that begins with a try, and what follows it. -/
lemma Asks.bind {p : HqProgram α} (h : p.Asks) (rest : α → HqProgram β) : (p >>= rest).Asks := by
  obtain ⟨packet, next, rfl⟩ := h
  exact ⟨packet, fun r => next r >>= rest, rfl⟩

/-- A program that begins with a try leaves the server asked last settled. -/
lemma Asks.meets {p : HqProgram α} (h : p.Asks) (v : Attribution) :
    p.Meets hqAttribution (fun _ v' => v'.current = v.current ∧ v'.Settled) v := by
  obtain ⟨packet, next, rfl⟩ := h
  refine ⟨trivial, ?_⟩
  rintro r v' ⟨r', rfl, server, hserver, rfl⟩
  exact (meets_hqProgram _ _).mono fun _ v' h => ⟨h.1, h.2 ⟨server, rfl, hserver⟩⟩

lemma asks_sendAndRecv (packet : Bytes) : (sendAndRecv packet).Asks := ⟨packet, _, rfl⟩

lemma asks_requestParsed (parse : Bytes → Except TdxError β) (packet : Bytes) :
    (requestParsed parse packet).Asks :=
  (asks_sendAndRecv packet).bind _

lemma asks_attemptBars {request : HqProgram (Except TdxError (List β))} (h : request.Asks)
    (shouldRetryEmpty : Bool) {tries : ℕ} (htries : 0 < tries) :
    (attemptBars request shouldRetryEmpty tries).Asks := by
  obtain ⟨left, rfl⟩ := Nat.exists_eq_add_one.mpr htries
  exact h.bind _

/-- A K-line call for a code that is accepted begins with a try. -/
lemma asks_getSecurityBars (settings : HqSettings) (category market : UInt8) (code : String)
    (start count : ℕ) (fq : UInt8) (hvalid : (checkCodes [(market, code)]).toBool = true) :
    (getSecurityBars settings category market code start count fq).Asks := by
  revert hvalid
  unfold getSecurityBars checkCodes
  rcases HqEnv.checkNotBlockCode code with e | _
  · exact fun hvalid => nomatch hvalid
  rcases codeBytesStrict code with e | _
  · exact fun hvalid => nomatch hvalid
  exact fun _ => (asks_attemptBars (asks_requestParsed _ _) _ (by split <;> decide)).bind _

lemma asks_getSecurityQuotesBatch (stocks : List (UInt8 × String)) :
    (getSecurityQuotesBatch stocks).Asks :=
  (asks_requestParsed _ _).bind _

/-- A call for quotes begins with a try if all codes are accepted.

**Proof sketch.** A few stocks are asked for in one batch, which begins with a try. More are asked
for batch after batch, and there is a first one. -/
lemma asks_getSecurityQuotes (stocks : List (UInt8 × String))
    (hvalid : (checkCodes stocks).toBool = true) : (getSecurityQuotes stocks).Asks := by
  revert hvalid
  unfold getSecurityQuotes
  rcases checkCodes stocks with e | _
  · exact fun hvalid => nomatch hvalid
  intro _
  by_cases hfew : stocks.length ≤ maxQuotesCount
  · simp only [if_pos hfew]
    exact asks_getSecurityQuotesBatch stocks
  · have hne : stocks ≠ [] := by
      rintro rfl
      exact hfew (Nat.zero_le _)
    simp only [if_neg hfew]
    rw [chunks_eq hne (by decide)]
    exact (asks_getSecurityQuotesBatch _).bind _

end HqProgram

/-! ## Programs of the smart client -/

namespace SmartProgram

variable {α β : Type} {Q : α → Attribution → Prop} {v : Attribution}

/-- From any view, the program records verdicts only about the server asked last. -/
def Safe (p : SmartProgram α) : Prop :=
  ∀ v, p.Meets attribution (fun _ _ => True) v

lemma safe_pure (a : α) : Safe (pure a : SmartProgram α) := fun _ => trivial

/-- What follows a program may begin in any view. -/
lemma meets_bind_safe {p : SmartProgram α} {rest : α → SmartProgram β}
    (hp : p.Meets attribution (fun _ _ => True) v) (hrest : ∀ a, Safe (rest a)) :
    (p >>= rest).Meets attribution (fun _ _ => True) v :=
  Program.meets_bind.mpr (hp.mono fun a v' _ => hrest a v')

lemma Safe.bind {p : SmartProgram α} (hp : Safe p) {rest : α → SmartProgram β}
    (hrest : ∀ a, Safe (rest a)) : Safe (p >>= rest) :=
  fun v => meets_bind_safe (hp v) hrest

/-- An operation that is no verdict. -/
lemma safe_perform (op : SmartOp) (h : ∀ v, attribution.needs op v) :
    Safe (.perform op : SmartProgram op.Ans) :=
  fun v => ⟨h v, fun _ _ _ => trivial⟩

/-- A verdict about the server asked last. -/
lemma meets_record {verdict : CacheCall} (h : v.asked = some verdict.server)
    (rest : SmartProgram β) (hrest : rest.Meets attribution (fun _ _ => True) v) :
    (record verdict >>= fun _ => rest).Meets attribution (fun _ _ => True) v := by
  refine ⟨h, ?_⟩
  rintro r v' rfl
  exact hrest

/-! ### Connecting -/

/-- A connect asks the server that the verdict after it is about. -/
lemma safe_connectAndRecord (server : NamedServer) : Safe (connectAndRecord server) := by
  intro v
  refine ⟨trivial, ?_⟩
  rintro (_ | elapsedMs) _ rfl
  · exact meets_record rfl _ trivial
  · refine ⟨trivial, ?_⟩
    rintro _ _ rfl
    refine ⟨trivial, ?_⟩
    rintro _ _ rfl
    exact meets_record rfl _ trivial

lemma safe_passesOver (ignoreBlacklist : Bool) (server : Server) :
    Safe (passesOver ignoreBlacklist server) := by
  unfold passesOver
  split
  · exact safe_pure false
  · exact safe_perform (.isBlacklisted server) fun _ => trivial

/-- The list of servers is tried from its head.

**Proof sketch.** By induction on the servers: each one is passed over or connected to, and both
meet the contract. -/
lemma safe_connectFirst (ignoreBlacklist : Bool) (servers : List NamedServer) :
    Safe (connectFirst ignoreBlacklist servers) := by
  induction servers with
  | nil => exact safe_pure false
  | cons server servers ih =>
    refine (safe_passesOver ignoreBlacklist server.server).bind fun passed => ?_
    cases passed with
    | true => exact ih
    | false =>
      refine (safe_connectAndRecord server).bind fun connected => ?_
      cases connected with
      | true => exact safe_pure true
      | false => exact ih

lemma safe_connectAmong (servers : List NamedServer) (message : String) :
    Safe (connectAmong servers message) := by
  refine (safe_perform (.allBlacklisted _) fun _ => trivial).bind fun ignoreBlacklist => ?_
  refine (safe_connectFirst ignoreBlacklist servers).bind fun connected => ?_
  cases connected <;> exact safe_pure _

variable {lists : NamedLists} {settings : HqSettings}

lemma safe_connectToAny : Safe (connectToAny lists) := by
  refine (safe_perform .lastSuccess fun _ => trivial).bind fun last => ?_
  cases last with
  | none => exact safe_connectAmong _ _
  | some last =>
    refine (safe_connectAndRecord _).bind fun connected => ?_
    cases connected with
    | true => exact safe_pure _
    | false =>
      exact (safe_perform .clearLastSuccess fun _ => trivial).bind fun _ => safe_connectAmong _ _

lemma safe_tryNextServer : Safe (tryNextServer lists) :=
  (safe_perform .currentServer fun _ => trivial).bind fun _ => safe_connectAmong _ _

/-! ### Requests -/

/-- A call of the client inside that begins with a try leaves the server asked last settled. -/
lemma meets_inner {p : HqProgram α} (h : p.Asks) (v : Attribution) :
    (inner p).Meets attribution (fun _ v' => v'.current = v.current ∧ v'.Settled) v := by
  refine ⟨trivial, ?_⟩
  rintro _ v' rfl
  exact Program.meets_embed.mpr (h.meets ⟨none, v.current⟩)

/-- A failed health check of the server asked last. -/
lemma meets_failHealthCheck {server : Server} (h : v.asked = some server)
    (reason : Option String) :
    (failHealthCheck server reason).Meets attribution (fun _ _ => True) v := by
  have hfailure : (record (.recordFailure server) >>= fun _ => disconnect >>= fun _ =>
      pure false : SmartProgram Bool).Meets attribution (fun _ _ => True) v :=
    meets_record h _ (((safe_perform .disconnect fun _ => trivial).bind fun _ => safe_pure false) v)
  cases reason with
  | none => exact hfailure
  | some reason => exact meets_record h _ hfailure

/-- The health check gives its verdict about the server that has answered it.

**Proof sketch.** If the check has been made, nothing happens. Otherwise the server that is current
is asked, so that the one that was asked last is this server; the verdict about it, good or bad, is
the one that the contract allows. -/
lemma safe_lazyHealthCheck : Safe (lazyHealthCheck settings) := by
  refine (safe_perform .healthChecked fun _ => trivial).bind fun checked => ?_
  cases checked with
  | true => exact safe_pure true
  | false =>
    intro v
    refine ⟨trivial, ?_⟩
    rintro current v' ⟨rfl, rfl⟩
    rcases hcurrent : v'.current with _ | server
    · exact safe_pure false v'
    · show Program.Meets attribution _ (inner (HqProgram.sendAndRecv _) >>= _) v'
      refine Program.meets_bind.mpr ((meets_inner (HqProgram.asks_sendAndRecv _) v').mono ?_)
      rintro answer v'' ⟨hsame, asked, hasked, hsettled⟩
      obtain rfl : asked = server.server := hsettled server (hsame.trans hcurrent)
      rcases answer with e | body
      · exact meets_failHealthCheck hasked none
      · dsimp only
        rcases parseSecurityBars settings.maxValidYear 4 body with e | _ | ⟨bar, bars⟩
        · exact meets_failHealthCheck hasked _
        · exact meets_failHealthCheck hasked _
        · refine ⟨trivial, ?_⟩
          rintro _ _ rfl
          exact meets_record hasked _ trivial

/-- A failure is recorded of the server that has answered. -/
lemma meets_recordCurrentFailure (h : v.Settled) :
    recordCurrentFailure.Meets attribution (fun _ _ => True) v := by
  obtain ⟨asked, hasked, hsettled⟩ := h
  refine ⟨trivial, ?_⟩
  rintro current v' ⟨rfl, rfl⟩
  rcases hcurrent : v'.current with _ | server
  · exact trivial
  · obtain rfl : asked = server.server := hsettled server hcurrent
    exact ⟨hasked, fun _ _ _ => trivial⟩

/-- The attempts at a call that begins with a try.

**Proof sketch.** Induction on the attempts that are left. After an answer, the server that was
asked is the current one (`meets_inner`), and the verdict is recorded about it; then the client
moves on to the next server, where the induction hypothesis applies, or gives up. The health check
that an empty answer calls for is safe by itself. -/
lemma safe_attempts {fetch : HqProgram (Except TdxError (List β))} (hfetch : fetch.Asks)
    (noServer : Except TdxError Bool → Option TdxError → Option TdxError) (left : ℕ)
    (lastErr : Option TdxError) : Safe (attempts lists settings fetch noServer left lastErr) := by
  induction left generalizing lastErr with
  | zero => exact safe_pure _
  | succ left ih =>
    intro v
    refine Program.meets_bind.mpr ((meets_inner hfetch v).mono ?_)
    rintro (e | _ | ⟨item, items⟩) v' ⟨-, hsettled⟩
    · refine meets_bind_safe (meets_recordCurrentFailure hsettled) fun _ => ?_
      refine safe_tryNextServer.bind fun next => ?_
      rcases next with e | _ | _
      · exact safe_pure _
      · exact safe_pure _
      · exact ih _
    · refine (safe_lazyHealthCheck.bind fun healthy => ?_) v'
      cases healthy with
      | true => exact ih _
      | false =>
        refine safe_tryNextServer.bind fun next => ?_
        rcases next with e | _ | _
        · exact safe_pure _
        · exact safe_pure _
        · exact ih _
    · exact trivial

lemma safe_probeEach (servers : List NamedServer) : Safe (probeEach servers) := by
  induction servers with
  | nil => exact safe_pure []
  | cons server servers ih =>
    intro v
    refine ⟨trivial, ?_⟩
    rintro (_ | latency) _ rfl
    · exact meets_record rfl _ (ih _)
    · refine meets_record rfl _ (((safe_perform .disconnect fun _ => trivial).bind fun _ => ?_) _)
      exact ih.bind fun _ => safe_pure _

end SmartProgram

/-- **The calls meet the contract**, if their codes are accepted. -/
lemma safe_program (lists : NamedLists) (settings : HqSettings) (call : SmartCall)
    (hvalid : call.Valid) : SmartProgram.Safe (call.program lists settings) := by
  cases call with
  | connectToAny => exact SmartProgram.safe_connectToAny.bind fun _ => SmartProgram.safe_pure ()
  | getSecurityBars category market code start count fq =>
    exact (SmartProgram.safe_attempts
      (HqProgram.asks_getSecurityBars settings category market code start count fq hvalid) _ _
      _).bind fun _ => SmartProgram.safe_pure ()
  | getSecurityQuotes stocks =>
    exact (SmartProgram.safe_attempts (HqProgram.asks_getSecurityQuotes stocks hvalid) _ _
      _).bind fun _ => SmartProgram.safe_pure ()
  | probeAndCache =>
    exact ((SmartProgram.safe_probeEach _).bind fun _ => SmartProgram.safe_pure _).bind fun _ =>
      SmartProgram.safe_pure ()

/-- The smart client keeps its verdicts right, as far as its tries are made on the current server
and the codes of its calls are accepted. -/
lemma smart_sound (lists : NamedLists) (settings : HqSettings) :
    (SmartClient.system lists settings).Sound attribution SmartClient.view SmartClient.AllRight
      (fun _ => True) (SmartClient.TriesAttached lists) SmartCall.Valid where
  perform := perform_attribution lists
  environment := by
    intro s e s' hright h
    obtain ⟨inner, rfl⟩ := SmartClient.environment_eq h
    exact ⟨rfl, hright⟩
  program := fun call hvalid v _ => safe_program lists settings call hvalid v

/-- **When every verdict names the right server.** In every run of calls, with any servers within
reach, any answers and the heartbeat at any time, all verdicts name the server that produced the
answer or the error that they are about, if every try of a request is made while the client inside
is on the current server, and no call has a code that the client inside rejects.

**Proof sketch.** Every program of the client meets the contract, by which a verdict is recorded
only about the server that was asked last; and the operations do what the contract says as long as
tries are made on the current server (`perform_attribution`). The rule for systems whose programs
meet a contract carries this over the run. -/
theorem smart_verdicts_right (lists : NamedLists) (settings : HqSettings) (cache : ServerCache)
    (events : List (Program.Event SmartInput HqEvent SmartCall))
    (c : Program.Config SmartOp SmartOp.Ans SmartClient)
    (hguarded : Transition.Guarded (SmartClient.system lists settings).step
      (Program.System.Allows (SmartClient.TriesAttached lists) SmartCall.Valid)
      ⟨.new cache, .done ()⟩ events)
    (hrun : Transition.run (SmartClient.system lists settings).step ⟨.new cache, .done ()⟩ events =
      some c) :
    c.state.AllRight :=
  Program.System.run_good (smart_sound lists settings) (fun _ hv => absurd hv List.not_mem_nil)
    trivial hguarded hrun

/-! ## Two runs -/

/-- Three primary servers, which are all that are known. -/
def threePrimaries : NamedLists where
  firstPrimary := ⟨"安信", ("59.36.5.11", 7709)⟩
  otherPrimary :=
    [⟨"国泰君安14", ("117.34.114.14", 7709)⟩, ⟨"国泰君安15", ("117.34.114.15", 7709)⟩]
  allKnown := []

/-- Settings under which corporate actions are not looked at. -/
def plainSettings : HqSettings := ⟨fun _ => .ok [], .mid, 2100⟩

/-- A connect, or an operation that nothing has to be decided of. -/
def connects : SmartInput := ⟨.connected, 30, .lent, .ok [], fun _ => rfl, 1000⟩

/-- A try that is answered by no bars. -/
def answersEmpty : SmartInput := ⟨.connected, 30, .lent, .ok [0, 0], fun _ => rfl, 1000⟩

/-- The user connects. -/
def connectRun : List (Program.Event SmartInput HqEvent SmartCall) :=
  .start .connectToAny :: List.replicate 7 (.perform connects)

/-- The minute K-line is empty, and so is the health check. -/
def emptyMinutes : List (Program.Event SmartInput HqEvent SmartCall) :=
  connectRun ++ .start (.getSecurityBars 0 1 "600519" 0 10 0) ::
    [.perform connects, .perform answersEmpty, .perform connects, .perform connects,
      .perform connects, .perform answersEmpty, .perform connects]

/-- The server that has answered is blacklisted. -/
theorem smart_verdicts_right_minutes :
    ∃ c, Transition.run (SmartClient.system threePrimaries plainSettings).step
        ⟨.new .empty, .done ()⟩ emptyMinutes = some c ∧
      c.state.verdicts.length = 2 ∧ c.state.AllRight :=
  ⟨_, rfl, rfl, smart_verdicts_right threePrimaries plainSettings .empty emptyMinutes _
    (by decide) rfl⟩

/-- **A server is blamed for the answer of another one.** The daily K-line of the first server is
empty, and so is that of the second one; the first one cannot be reached again, and the third one
answers with empty K-lines, also in the health check. The first server is blacklisted for it. -/
theorem smart_blames_healthy :
    ∃ c, Transition.run (SmartClient.system threePrimaries plainSettings).step
        ⟨.new .empty, .done ()⟩
        (connectRun ++ .start (.getSecurityBars 4 1 "600519" 0 10 0) ::
          [.perform connects, .perform answersEmpty, .perform connects,
            .environment (.advance .connected), .perform answersEmpty, .perform connects,
            .environment (.advance .refused), .environment (.advance .connected),
            .perform answersEmpty, .perform connects, .perform connects, .perform connects,
            .perform answersEmpty, .perform connects]) = some c ∧
      c.state.cache.isBlacklisted 1000 ("59.36.5.11", 7709) = true ∧
      c.state.inner.lastServer = some ("117.34.114.15", 7709) ∧ ¬ c.state.AllRight :=
  ⟨_, rfl, by decide, rfl, fun h => absurd (h _ List.mem_cons_self) (by decide)⟩

end Tdxrs
