import Tdxrs.Net.HqConnection
import Tdxrs.Net.HqProgram
import Tdxrs.Net.ServerCache

set_option relaxedAutoImplicit false
set_option autoImplicit false

/-!
# The smart client

`TdxSmartClient` of `src/net/smart_client.rs`: a client that wraps `TdxHqClient`, remembers which
server it has connected to, and records successes and failures of servers in its cache. Both the
wrapper and the client inside have a server of their own, and each of them changes it.

The calls are programs over the operations of the wrapper and of the client inside. They run in the
state of both, step by step, while the heartbeat of the client inside goes its own way.

## Main definitions

* `Tdxrs.SmartOp`, `Tdxrs.SmartProgram` — the operations, and programs over them.
* `Tdxrs.SmartProgram.connectToAny`, `getSecurityBars`, `getSecurityQuotes`, `probeAndCache` — the
  calls.
* `Tdxrs.SmartClient` — the state, `Tdxrs.SmartClient.system` — its steps.

## Main results

* `Tdxrs.SmartClient.inner_run` — a run of the smart client is, for the client inside, a run of
  `HqConn.step`.
-/

namespace Tdxrs

/-- A server of the lists. -/
structure NamedServer where
  name : String
  server : Server
deriving DecidableEq, Repr

/-- The lists of servers, with their names. -/
structure NamedLists where
  firstPrimary : NamedServer
  otherPrimary : List NamedServer
  allKnown : List NamedServer

/-- The primary servers. -/
def NamedLists.primary (lists : NamedLists) : List NamedServer :=
  lists.firstPrimary :: lists.otherPrimary

/-- The lists as the client inside has them. -/
def NamedLists.servers (lists : NamedLists) : ServerLists where
  firstPrimary := lists.firstPrimary.server
  otherPrimary := lists.otherPrimary.map NamedServer.server
  allKnown := lists.allKnown.map NamedServer.server

/-! ## Operations -/

/-- What the calls of the smart client do, one at a time. -/
inductive SmartOp where
  /-- An operation of the client inside. -/
  | hq (op : HqOp)
  /-- `connect` of the client inside. -/
  | connect (server : Server)
  /-- `disconnect` of the client inside. -/
  | disconnect
  /-- Ghost: a call of the client inside begins; no server has answered it yet. -/
  | beginCall
  | currentServer
  | setCurrentServer (server : NamedServer)
  | healthChecked
  | setHealthChecked (checked : Bool)
  | lastSuccess
  | clearLastSuccess
  | isBlacklisted (server : Server)
  | allBlacklisted (servers : List Server)
  /-- A verdict about a server is recorded in the cache. -/
  | record (call : CacheCall)
deriving DecidableEq, Repr

/-- What the operations answer. A connect answers how many milliseconds it took, if it was
successful. -/
def SmartOp.Ans : SmartOp → Type
  | .hq op => op.Ans
  | .connect _ => Option UInt32
  | .currentServer => Option NamedServer
  | .healthChecked | .isBlacklisted _ | .allBlacklisted _ => Bool
  | .lastSuccess => Option ServerCacheEntry
  | .disconnect | .beginCall | .setCurrentServer _ | .setHealthChecked _ | .clearLastSuccess
  | .record _ => Unit

/-- Programs of the smart client. -/
abbrev SmartProgram := Program SmartOp SmartOp.Ans

namespace SmartProgram

/-- A call of the client inside. -/
def inner {α : Type} (p : HqProgram α) : SmartProgram α :=
  .call SmartOp.beginCall fun _ => p.embed SmartOp.hq fun _ r => r

def connect (server : Server) : SmartProgram (Option UInt32) := .perform (SmartOp.connect server)

def disconnect : SmartProgram Unit := .perform SmartOp.disconnect

def currentServer : SmartProgram (Option NamedServer) := .perform SmartOp.currentServer

def setCurrentServer (server : NamedServer) : SmartProgram Unit :=
  .perform (SmartOp.setCurrentServer server)

def healthChecked : SmartProgram Bool := .perform SmartOp.healthChecked

def setHealthChecked (checked : Bool) : SmartProgram Unit :=
  .perform (SmartOp.setHealthChecked checked)

def lastSuccess : SmartProgram (Option ServerCacheEntry) := .perform SmartOp.lastSuccess

def clearLastSuccess : SmartProgram Unit := .perform SmartOp.clearLastSuccess

def isBlacklisted (server : Server) : SmartProgram Bool := .perform (SmartOp.isBlacklisted server)

def allBlacklisted (servers : List Server) : SmartProgram Bool :=
  .perform (SmartOp.allBlacklisted servers)

def record (verdict : CacheCall) : SmartProgram Unit := .perform (SmartOp.record verdict)

/-! ## Connecting -/

/-- Connects to a server and records what comes of it. -/
def connectAndRecord (server : NamedServer) : SmartProgram Bool := do
  match ← connect server.server with
  | some elapsedMs => do
    setCurrentServer server
    setHealthChecked false
    record (.recordSuccess server.server server.name elapsedMs)
    pure true
  | none => do
    record (.recordFailure server.server)
    pure false

/-- Whether a server is passed over. -/
def passesOver (ignoreBlacklist : Bool) (server : Server) : SmartProgram Bool :=
  if ignoreBlacklist then pure false else isBlacklisted server

/-- Connects to the first of the servers that lets it, passing over those on the blacklist unless it
is to be ignored. -/
def connectFirst (ignoreBlacklist : Bool) : List NamedServer → SmartProgram Bool
  | [] => pure false
  | server :: servers => do
    if ← passesOver ignoreBlacklist server.server then connectFirst ignoreBlacklist servers
    else if ← connectAndRecord server then pure true
    else connectFirst ignoreBlacklist servers

/-- Connects to the first server of a list; the blacklist is ignored if all of them are on it. -/
def connectAmong (servers : List NamedServer) (message : String) :
    SmartProgram (Except TdxError Bool) := do
  let ignoreBlacklist ← allBlacklisted (servers.map NamedServer.server)
  if ← connectFirst ignoreBlacklist servers then pure (.ok true)
  else pure (.error (ErrorCode.connectionFailed.err message))

variable (lists : NamedLists) (settings : HqSettings)

/-- Connects to the server of the last success, or else to a primary server, or else to any known
one. -/
def connectToAny : SmartProgram (Except TdxError Bool) := do
  let others := connectAmong (lists.primary ++ lists.allKnown) "all servers unreachable"
  match ← lastSuccess with
  | some last =>
    if ← connectAndRecord ⟨last.name, last.server⟩ then pure (.ok true)
    else do
      clearLastSuccess
      others
  | none => others

/-- Connects to another primary server. -/
def tryNextServer : SmartProgram (Except TdxError Bool) := do
  let current ← currentServer
  connectAmong
    (lists.primary.filter fun server => some server.server ≠ current.map NamedServer.server)
    "no alternative server available"

/-! ## Requests -/

/-- The current server has failed the health check, at protocol level if there is a reason. -/
def failHealthCheck (server : Server) (reason : Option String) : SmartProgram Bool := do
  match reason with
  | some reason => record (.addToBlacklist server reason)
  | none => pure ()
  record (.recordFailure server)
  disconnect
  pure false

/-- Asks for a K-line that every server has, unless the server has been checked before. -/
def lazyHealthCheck : SmartProgram Bool := do
  if ← healthChecked then pure true
  else
    match ← currentServer with
    | none => pure false
    | some server =>
      match ← inner (HqProgram.sendAndRecv (buildSecurityBarsPacket 4 1 "600519" 0 1)) with
      | .error _ => failHealthCheck server.server none
      | .ok body =>
        match parseSecurityBars settings.maxValidYear 4 body with
        | .ok (_ :: _) => do
          setHealthChecked true
          record (.recordSuccess server.server server.name 0)
          pure true
        | .ok [] => failHealthCheck server.server (some blacklistReasonKlineEmpty)
        | .error _ => failHealthCheck server.server (some blacklistReasonParseError)

/-- Records a failure of the current server. -/
def recordCurrentFailure : SmartProgram Unit := do
  match ← currentServer with
  | some server => record (.recordFailure server.server)
  | none => pure ()

/-- The attempts at a call that are left. An empty answer makes for a health check, which may make
for another server; so does an error. `noServer` is the error that is kept when there is none. -/
def attempts {β : Type} (fetch : HqProgram (Except TdxError (List β)))
    (noServer : Except TdxError Bool → Option TdxError → Option TdxError) :
    ℕ → Option TdxError → SmartProgram (Except TdxError (List β))
  | 0, lastErr => pure (.error (lastErr.getD (ErrorCode.retryExhausted.err "max retry reached")))
  | left + 1, lastErr => do
    match ← inner fetch with
    | .ok (item :: items) => pure (.ok (item :: items))
    | .ok [] =>
      if ← lazyHealthCheck settings then attempts fetch noServer left lastErr
      else
        match ← tryNextServer lists with
        | .ok true => attempts fetch noServer left lastErr
        | next =>
          pure (.error
            ((noServer next lastErr).getD (ErrorCode.retryExhausted.err "max retry reached")))
    | .error e => do
      recordCurrentFailure
      match ← tryNextServer lists with
      | .ok true => attempts fetch noServer left (some e)
      | _ => pure (.error e)

/-- How often a call is attempted. -/
def maxRetry : ℕ := 3

/-- The K-line of a security. When no server is left after an empty answer, the error says so. -/
def getSecurityBars (category market : UInt8) (code : String) (start count : ℕ) (fq : UInt8) :
    SmartProgram (Except TdxError (List SecurityBar)) :=
  attempts lists settings (HqProgram.getSecurityBars settings category market code start count fq)
    (fun
      | .ok _, _ => some (ErrorCode.connectionFailed.err "no more servers")
      | .error e, _ => some e)
    maxRetry none

/-- Quotes of securities. When no server is left after an empty answer, the last error is that of
an earlier attempt. -/
def getSecurityQuotes (stocks : List (UInt8 × String)) :
    SmartProgram (Except TdxError (List SecurityQuote)) :=
  attempts lists settings (HqProgram.getSecurityQuotes stocks) (fun _ lastErr => lastErr) maxRetry
    none

/-- Probes servers one after the other. -/
def probeEach : List NamedServer → SmartProgram (List (NamedServer × UInt32))
  | [] => pure []
  | server :: servers => do
    match ← connect server.server with
    | some latency => do
      record (.recordSuccess server.server server.name latency)
      disconnect
      let results ← probeEach servers
      pure ((server, latency) :: results)
    | none => do
      record (.recordFailure server.server)
      probeEach servers

/-- Probes the primary servers; the fastest comes first. -/
def probeAndCache : SmartProgram (List (NamedServer × UInt32)) := do
  let results ← probeEach lists.primary
  pure (results.insertionSort fun a b => a.2 ≤ b.2)

end SmartProgram

/-! ## The client -/

/-- A call of the user. -/
inductive SmartCall where
  | connectToAny
  | getSecurityBars (category market : UInt8) (code : String) (start count : ℕ) (fq : UInt8)
  | getSecurityQuotes (stocks : List (UInt8 × String))
  | probeAndCache
deriving DecidableEq, Repr

/-- The program of a call; what it returns is not looked at. -/
def SmartCall.program (lists : NamedLists) (settings : HqSettings) : SmartCall → SmartProgram Unit
  | .connectToAny => do
    let _ ← SmartProgram.connectToAny lists
    pure ()
  | .getSecurityBars category market code start count fq => do
    let _ ← SmartProgram.getSecurityBars lists settings category market code start count fq
    pure ()
  | .getSecurityQuotes stocks => do
    let _ ← SmartProgram.getSecurityQuotes lists settings stocks
    pure ()
  | .probeAndCache => do
    let _ ← SmartProgram.probeAndCache lists
    pure ()

/-- The server that a verdict is about. -/
def CacheCall.server : CacheCall → Server
  | .recordSuccess server _ _ => server
  | .recordFailure server => server
  | .addToBlacklist server _ => server

/-- A verdict, with the server that was asked last before it. -/
structure Verdict where
  call : CacheCall
  producer : Option Server
deriving DecidableEq, Repr

/-- The verdict names the server that produced what it is about. -/
def Verdict.Right (v : Verdict) : Prop := v.producer = some v.call.server

instance (v : Verdict) : Decidable v.Right := inferInstanceAs (Decidable (_ = _))

/-- What decides the outcome of an operation: of a connect, with the time it takes, or of a try of a
request, which gets no answer but an error without a connection; and the clock. -/
structure SmartInput where
  outcome : DialOutcome
  elapsedMs : UInt32
  borrow : BorrowOutcome
  answer : Except TdxError Bytes
  answered : answer.toBool = true → borrow.isLent = true
  now : ℕ

/-- The state of the smart client and of the client inside. -/
structure SmartClient where
  inner : HqConn
  cache : ServerCache
  currentServer : Option NamedServer
  healthChecked : Bool
  /-- Ghost: the server asked last in the call of the client inside that is under way. -/
  asked : Option Server
  /-- Ghost: the verdicts so far, newest first. -/
  verdicts : List Verdict

namespace SmartClient

/-- A new client, with what the file of the cache says. -/
def new (cache : ServerCache) : SmartClient := ⟨.new, cache, none, false, none, []⟩

/-- What an operation asks of the client inside. -/
def hqEvent (input : SmartInput) : SmartOp → Option HqEvent
  | .hq (.trySendAndRecv _) => some (.borrow input.borrow)
  | .hq .reconnectIfNeeded => some .reconnectIfNeeded
  | .hq .reconnectToAnotherServer => some .reconnectToAnotherServer
  | .connect server => some (.connect server input.outcome)
  | .disconnect => some .disconnect
  | _ => none

/-- The client inside after an operation. -/
def innerAfter (lists : NamedLists) (s : SmartClient) (input : SmartInput) (op : SmartOp) :
    Option HqConn :=
  match hqEvent input op with
  | some e => s.inner.userStep lists.servers e
  | none => some s.inner

/-- The answer of an operation. No call of the smart client sets `auto_retry`, which is on in a new
client. -/
def answer (s : SmartClient) (input : SmartInput) : (op : SmartOp) → op.Ans
  | .hq (.trySendAndRecv _) => input.answer
  | .hq .autoRetry => true
  | .hq .reconnectIfNeeded | .hq .reconnectToAnotherServer => ()
  | .connect _ => if input.outcome = .connected then some input.elapsedMs else none
  | .currentServer => s.currentServer
  | .healthChecked => s.healthChecked
  | .lastSuccess => s.cache.lastSuccess
  | .isBlacklisted server => s.cache.isBlacklisted input.now server
  | .allBlacklisted servers => servers.all (s.cache.isBlacklisted input.now)
  | .disconnect | .beginCall | .setCurrentServer _ | .setHealthChecked _ | .clearLastSuccess
  | .record _ => ()

/-- The smart client itself after an operation. -/
def after (lists : NamedLists) (s : SmartClient) (input : SmartInput) : SmartOp → SmartClient
  | .hq (.trySendAndRecv _) => { s with asked := some (s.inner.target lists.servers) }
  | .connect server => { s with asked := some server }
  | .beginCall => { s with asked := none }
  | .setCurrentServer server => { s with currentServer := some server }
  | .setHealthChecked checked => { s with healthChecked := checked }
  | .clearLastSuccess => { s with cache := s.cache.clearLastSuccess }
  | .record call =>
    { s with
      cache := s.cache.apply (input.now, call)
      verdicts := ⟨call, s.asked⟩ :: s.verdicts }
  | _ => s

/-- An operation. It waits while the client inside goes through servers. -/
def perform (lists : NamedLists) (op : SmartOp) (s : SmartClient) (input : SmartInput) :
    Option (op.Ans × SmartClient) :=
  if s.inner.user.isSome then none
  else
    (s.innerAfter lists input op).map fun inner =>
      (s.answer input op, { s.after lists input op with inner })

/-- What goes on beside the smart client: the client inside goes on through the servers, and its
heartbeat beats. -/
def environment (lists : NamedLists) (s : SmartClient) (e : HqEvent) : Option SmartClient :=
  match s.inner.user, e with
  | some walk, .advance outcome => some { s with inner := s.inner.advanceUser walk outcome }
  | _, e => (s.inner.heartbeatStep lists.servers e).map fun inner => { s with inner }

/-- The smart client. -/
def system (lists : NamedLists) (settings : HqSettings) :
    Program.System SmartOp SmartOp.Ans SmartClient SmartInput HqEvent SmartCall where
  perform := perform lists
  environment := environment lists
  program := SmartCall.program lists settings

/-! ## The client inside -/

variable {lists : NamedLists} {settings : HqSettings} {s s' : SmartClient}

/-- What an operation does. -/
lemma perform_eq {op : SmartOp} {input : SmartInput} {r : op.Ans}
    (h : perform lists op s input = some (r, s')) :
    s.inner.user = none ∧ r = s.answer input op ∧
      ∃ inner, s.innerAfter lists input op = some inner ∧
        s' = { s.after lists input op with inner } := by
  obtain ⟨hidle, h⟩ := Option.ite_none_left_eq_some.mp h
  obtain ⟨inner, hinner, heq⟩ := Option.map_eq_some_iff.mp h
  obtain ⟨rfl, rfl⟩ := Prod.mk.inj heq
  exact ⟨Option.not_isSome_iff_eq_none.mp hidle, rfl, inner, hinner, rfl⟩

/-- What goes on beside the smart client changes the client inside only. -/
lemma environment_eq {e : HqEvent} (h : s.environment lists e = some s') :
    ∃ inner, s' = { s with inner } := by
  unfold environment at h
  split at h
  · exact ⟨_, (Option.some.inj h).symm⟩
  · obtain ⟨inner, -, rfl⟩ := Option.map_eq_some_iff.mp h
    exact ⟨inner, rfl⟩

/-- The events of the heartbeat are none of the user. -/
lemma userStep_eq_none {lists : ServerLists} {c c' : HqConn} {e : HqEvent}
    (h : c.heartbeatStep lists e = some c') : c.userStep lists e = none := by
  cases e <;> first | rfl | cases h

/-- An operation is a step of the client inside, if it asks anything of it. -/
lemma step_of_perform {op : SmartOp} {input : SmartInput} {r : op.Ans}
    (h : perform lists op s input = some (r, s')) :
    s'.inner = s.inner ∨ ∃ e, HqConn.step lists.servers s.inner e = some s'.inner := by
  obtain ⟨hidle, -, inner, hinner, rfl⟩ := perform_eq h
  unfold innerAfter at hinner
  split at hinner
  · next e he =>
    refine .inr ⟨e, ?_⟩
    unfold HqConn.step
    rw [hidle]
    exact Option.or_eq_some_iff.mpr (.inl hinner)
  · exact .inl (Option.some.inj hinner).symm

/-- What goes on beside the smart client is a step of the client inside.

**Proof sketch.** During a walk over the candidates it is a step of the walk; otherwise a heartbeat,
which is a step of the client inside since it is none of its user. -/
lemma step_of_environment {e : HqEvent} (h : s.environment lists e = some s') :
    HqConn.step lists.servers s.inner e = some s'.inner := by
  unfold environment at h
  unfold HqConn.step
  split at h
  · next hwalk =>
    obtain rfl := Option.some.inj h
    rw [hwalk]
  · next hnot =>
    obtain ⟨inner, hbeat, rfl⟩ := Option.map_eq_some_iff.mp h
    split
    · next hwalk => exact absurd rfl (hnot _ _ hwalk)
    · exact Option.or_eq_some_iff.mpr (.inr ⟨userStep_eq_none hbeat, hbeat⟩)
    · exact hbeat

/-- A step of the smart client is one of the client inside, or leaves it as it is.

**Proof sketch.** By the kind of the step: a start changes nothing, an operation or what goes on
beside the calls is at most one step of the client inside. -/
lemma inner_step {c c' : Program.Config SmartOp SmartOp.Ans SmartClient}
    {e : Program.Event SmartInput HqEvent SmartCall}
    (h : (system lists settings).step c e = some c') :
    c'.state.inner = c.state.inner ∨
      ∃ e', HqConn.step lists.servers c.state.inner e' = some c'.state.inner := by
  obtain ⟨s, p⟩ := c
  cases e with
  | start k =>
    cases p with
    | done a =>
      obtain rfl := Option.some.inj h
      exact .inl rfl
    | call op next => cases h
  | perform input =>
    cases p with
    | done a => cases h
    | call op next =>
      obtain ⟨⟨r, s'⟩, hperform, rfl⟩ := Option.map_eq_some_iff.mp h
      exact step_of_perform hperform
  | environment e =>
    obtain ⟨s', henv, rfl⟩ := Option.map_eq_some_iff.mp h
    exact .inr ⟨e, step_of_environment henv⟩

/-- **The client inside.** Every run of the smart client is, for the client inside, a run of calls
and of the heartbeat as they are for any client.

**Proof sketch.** By induction on the events: each is no step or one step of the client inside. -/
theorem inner_run {es : List (Program.Event SmartInput HqEvent SmartCall)} :
    ∀ {c c' : Program.Config SmartOp SmartOp.Ans SmartClient},
      Transition.run (system lists settings).step c es = some c' →
      ∃ es', Transition.run (HqConn.step lists.servers) c.state.inner es' =
        some c'.state.inner := by
  induction es with
  | nil =>
    intro c c' h
    obtain rfl : c = c' := by simpa using h
    exact ⟨[], rfl⟩
  | cons e es ih =>
    intro c c' h
    obtain ⟨t, hstep, hrest⟩ := Option.bind_eq_some_iff.mp h
    obtain ⟨es', hrun⟩ := ih hrest
    rcases inner_step hstep with hsame | ⟨e', hinner⟩
    · exact ⟨es', hsame ▸ hrun⟩
    · exact ⟨e' :: es', Option.bind_eq_some_iff.mpr ⟨_, hinner, hrun⟩⟩

end SmartClient

end Tdxrs
