import Tdxrs.Net.HqConnection
import Tdxrs.Net.HqProgram
import Tdxrs.Protocol.Reports

set_option relaxedAutoImplicit false
set_option autoImplicit false

/-!
# The caches of the synchronous client

`get_security_count` and `get_security_list` of `TdxHqClient` in `src/net/client.rs`, which keep
what a server has answered for a while. The user connects to servers and the client reconnects in
the retries of a request; both forget the caches. The heartbeat moves the client to another server
as well, in a thread of its own, and does not know of the caches.

The calls are programs over their operations, and the connections are those of `Tdxrs.HqConn`. A try
of a request is one step: it goes to the server that the client names at its beginning, and what the
heartbeat does before the answer is there might as well happen after it. In a connect the new server
is named and the caches are forgotten in one step; the heartbeat in between leaves empty caches in
either order.

## Main definitions

* `Tdxrs.CachingClient` — the client with its caches, `Tdxrs.CachingClient.system` — its steps.
* `Tdxrs.CacheProgram.getSecurityCount`, `Tdxrs.CacheProgram.getSecurityList` — the calls.
* `Tdxrs.CachingClient.Follows` — the caches hold what the current server has answered.
* `Tdxrs.CachingClient.KeepsServer` — the condition on a step.

## Main results

* `Tdxrs.CachingClient.follows_step` — what one step keeps.
* `Tdxrs.caches_follow_iff` — when the caches follow the connection in all states of a run.
-/

namespace Tdxrs

/-! ## The calls -/

/-- What a cache holds for a market. -/
structure CacheEntry (α : Type) where
  data : α
  expiresAt : ℕ
  /-- Ghost: the server that was asked for the data. -/
  producer : Option Server

/-- A cache, with at most one entry for a market. -/
abbrev MarketCache (α : Type) := List (UInt8 × CacheEntry α)

/-- The entry that is there takes the place of another one for the market. -/
def MarketCache.insert {α : Type} (cache : MarketCache α) (market : UInt8) (entry : CacheEntry α) :
    MarketCache α :=
  (market, entry) :: cache.filter fun other => other.1 ≠ market

/-- What the calls do, one at a time. -/
inductive CacheOp where
  /-- An operation of a request. -/
  | hq (op : HqOp)
  /-- Something else that the user does with the connection. -/
  | user (e : HqEvent)
  | setCacheTtl (ttlSecs : ℕ)
  | countGet (market : UInt8)
  | countPut (market : UInt8) (count : ℕ)
  | listGet (market : UInt8)
  | listPut (market : UInt8) (list : List SecurityInfo)

/-- What the operations answer. -/
def CacheOp.Ans : CacheOp → Type
  | .hq op => op.Ans
  | .countGet _ => Option ℕ
  | .listGet _ => Option (List SecurityInfo)
  | .user _ | .setCacheTtl _ | .countPut _ _ | .listPut _ _ => Unit

/-- Programs of the client with its caches. -/
abbrev CacheProgram := Program CacheOp CacheOp.Ans

/-- Parses a count. -/
def parseSecurityCount (body : Bytes) : Except TdxError ℕ :=
  if body.length < 2 then
    .error (ErrorCode.responseLengthMismatch.err "body too short for count")
  else .ok (readU16 body 0)

namespace CacheProgram

/-- A request. -/
def request {α : Type} (p : HqProgram α) : CacheProgram α := p.embed CacheOp.hq fun _ r => r

/-- The packet that asks for the number of securities. -/
def buildSecurityCountPacket (market : UInt8) : Bytes :=
  [0x0c, 0x0c, 0x18, 0x6c, 0x00, 0x01, 0x08, 0x00, 0x08, 0x00, 0x4e, 0x04] ++
    LittleEndian.toLE 2 market.toNat ++ [0x75, 0xc7, 0x33, 0x01]

/-- The packet that asks for a part of the list of securities. -/
def buildSecurityListPacket (market : UInt8) (start : UInt16) : Bytes :=
  [0x0c, 0x01, 0x18, 0x64, 0x01, 0x01, 0x06, 0x00, 0x06, 0x00, 0x50, 0x04] ++
    LittleEndian.toLE 2 market.toNat ++ LittleEndian.toLE 2 start.toNat

/-- The number of securities of a market. -/
def getSecurityCount (market : UInt8) : CacheProgram (Except TdxError ℕ) := do
  match ← (.perform (CacheOp.countGet market) : CacheProgram (Option ℕ)) with
  | some count => pure (.ok count)
  | none =>
    match ← request (HqProgram.requestParsed parseSecurityCount
        (buildSecurityCountPacket market)) with
    | .error e => pure (.error e)
    | .ok count => do
      (.perform (CacheOp.countPut market count) : CacheProgram Unit)
      pure (.ok count)

/-- A part of the list of securities of a market. Only its beginning is cached. -/
def getSecurityList (gbk : Bytes → Text) (market : UInt8) (start : UInt16) :
    CacheProgram (Except TdxError (List SecurityInfo)) :=
  let fetch := request (HqProgram.requestParsed (parseSecurityList gbk)
    (buildSecurityListPacket market start))
  if start = 0 then do
    match ← (.perform (CacheOp.listGet market) : CacheProgram (Option (List SecurityInfo))) with
    | some list => pure (.ok list)
    | none =>
      match ← fetch with
      | .error e => pure (.error e)
      | .ok list => do
        (.perform (CacheOp.listPut market list) : CacheProgram Unit)
        pure (.ok list)
  else fetch

end CacheProgram

/-! ## The client -/

/-- A call of the user. -/
inductive CachingCall where
  | getSecurityCount (market : UInt8)
  | getSecurityList (market : UInt8) (start : UInt16)
  /-- Any other request. -/
  | sendRawAndRecv (packet : Bytes)
  /-- A connect, a disconnect, a switch to another server. -/
  | user (e : HqEvent)
  | setCacheTtl (ttlSecs : ℕ)

/-- The program of a call; what it returns is not looked at. -/
def CachingCall.program (gbk : Bytes → Text) : CachingCall → CacheProgram Unit
  | .getSecurityCount market => do
    let _ ← CacheProgram.getSecurityCount market
    pure ()
  | .getSecurityList market start => do
    let _ ← CacheProgram.getSecurityList gbk market start
    pure ()
  | .sendRawAndRecv packet => do
    let _ ← CacheProgram.request (HqProgram.sendAndRecv packet)
    pure ()
  | .user e => .perform (CacheOp.user e)
  | .setCacheTtl ttlSecs => .perform (CacheOp.setCacheTtl ttlSecs)

/-- What decides the outcome of an operation: of a try of a request, which gets no answer but an
error without a connection, and the setting `auto_retry`. -/
structure CacheInput where
  borrow : BorrowOutcome
  answer : Except TdxError Bytes
  answered : answer.toBool = true → borrow.isLent = true
  autoRetry : Bool

/-- What goes on beside the calls. -/
inductive CacheEnvironment where
  /-- The client goes on through the servers, or its heartbeat beats. -/
  | conn (e : HqEvent)
  /-- Milliseconds pass. -/
  | tick (ms : ℕ)

/-- The client with its caches. Times are in milliseconds. -/
structure CachingClient where
  conn : HqConn
  countCache : MarketCache ℕ
  listCache : MarketCache (List SecurityInfo)
  cacheTtl : ℕ
  now : ℕ
  /-- Ghost: the server asked last. -/
  asked : Option Server

/-- The step of the user makes a connection, in `connect_internal`. -/
def HqConn.connects (c : HqConn) : HqEvent → Bool
  | .connect _ outcome => outcome = .connected
  | .advance outcome =>
    match c.user with
    | some ⟨path, server :: _⟩ =>
      outcome = .connected && !(path.filters && c.isServerBlocked server)
    | _ => false
  | _ => false

namespace CachingClient

/-- A new client at a time. -/
def new (now : ℕ) : CachingClient := ⟨.new, [], [], 30000, now, none⟩

/-- The connections have changed by an event; a connect of the user forgets the caches. -/
def withConn (s : CachingClient) (e : HqEvent) (conn : HqConn) : CachingClient :=
  if s.conn.connects e then { s with conn, countCache := [], listCache := [] }
  else { s with conn }

/-- The entry of a cache for a market, if it has not expired. -/
def lookup {α : Type} (s : CachingClient) (cache : MarketCache α) (market : UInt8) : Option α :=
  match cache.lookup market with
  | some entry => if s.now < entry.expiresAt then some entry.data else none
  | none => none

/-- A new entry for a cache. -/
def entry {α : Type} (s : CachingClient) (data : α) : CacheEntry α :=
  ⟨data, s.now + s.cacheTtl, s.asked⟩

/-- The answer of an operation. -/
def answer (s : CachingClient) (input : CacheInput) : (op : CacheOp) → op.Ans
  | .hq (.trySendAndRecv _) => input.answer
  | .hq .autoRetry => input.autoRetry
  | .countGet market => s.lookup s.countCache market
  | .listGet market => s.lookup s.listCache market
  | .hq .reconnectIfNeeded | .hq .reconnectToAnotherServer | .user _ | .setCacheTtl _
  | .countPut _ _ | .listPut _ _ => ()

/-- The client after an operation. -/
def after (lists : ServerLists) (s : CachingClient) (input : CacheInput) :
    CacheOp → Option CachingClient
  | .hq (.trySendAndRecv _) =>
    (s.conn.userStep lists (.borrow input.borrow)).map fun conn =>
      { s with conn, asked := some (s.conn.target lists) }
  | .hq .autoRetry => some s
  | .hq .reconnectIfNeeded =>
    (s.conn.userStep lists .reconnectIfNeeded).map fun conn => { s with conn }
  | .hq .reconnectToAnotherServer =>
    (s.conn.userStep lists .reconnectToAnotherServer).map fun conn => { s with conn }
  | .user e => (s.conn.userStep lists e).map (s.withConn e)
  | .setCacheTtl ttlSecs => some { s with cacheTtl := ttlSecs * 1000 }
  | .countGet _ | .listGet _ => some s
  | .countPut market count =>
    some { s with countCache := s.countCache.insert market (s.entry count) }
  | .listPut market list =>
    some { s with listCache := s.listCache.insert market (s.entry list) }

/-- An operation. It waits while the client goes through servers. -/
def perform (lists : ServerLists) (op : CacheOp) (s : CachingClient) (input : CacheInput) :
    Option (op.Ans × CachingClient) :=
  if s.conn.user.isSome then none
  else (s.after lists input op).map fun s' => (s.answer input op, s')

/-- What goes on beside the calls. -/
def environment (lists : ServerLists) (s : CachingClient) :
    CacheEnvironment → Option CachingClient
  | .conn e =>
    match s.conn.user, e with
    | some walk, .advance outcome => some (s.withConn e (s.conn.advanceUser walk outcome))
    | _, e => (s.conn.heartbeatStep lists e).map fun conn => { s with conn }
  | .tick ms => some { s with now := s.now + ms }

/-- The client as a system. -/
def system (lists : ServerLists) (gbk : Bytes → Text) :
    Program.System CacheOp CacheOp.Ans CachingClient CacheInput CacheEnvironment CachingCall where
  perform := perform lists
  environment := environment lists
  program := CachingCall.program gbk

/-! ## What should hold, and when it does -/

/-- The entries of a cache that have not expired are all from one server. -/
def Holds {α : Type} (cache : MarketCache α) (now : ℕ) (server : Server) : Prop :=
  ∀ p ∈ cache, now < p.2.expiresAt → p.2.producer = some server

instance {α : Type} (cache : MarketCache α) (now : ℕ) (server : Server) :
    Decidable (Holds cache now server) :=
  inferInstanceAs (Decidable (∀ _ ∈ _, _))

/-- Both caches hold only what the given server has answered. -/
def HoldFrom (s : CachingClient) (server : Server) : Prop :=
  Holds s.countCache s.now server ∧ Holds s.listCache s.now server

instance (s : CachingClient) (server : Server) : Decidable (s.HoldFrom server) :=
  inferInstanceAs (Decidable (_ ∧ _))

/-- Every entry that has not expired is from the server that `last_server` names, or the first
primary server, which requests go to as long as it names none. -/
def Follows (lists : ServerLists) (s : CachingClient) : Prop := s.HoldFrom (s.conn.target lists)

instance (lists : ServerLists) (s : CachingClient) : Decidable (s.Follows lists) :=
  inferInstanceAs (Decidable (HoldFrom _ _))

/-- The server that the heartbeat moves the client to. -/
def movedTo (s : CachingClient) : CacheEnvironment → Option Server
  | .conn (.heartbeatAdvance .connected) =>
    match s.conn.heartbeat with
    | .walking (server :: _) => some server
    | _ => none
  | _ => none

/-- The operation puts an answer into a cache. -/
def puts : CacheOp → Bool
  | .countPut _ _ | .listPut _ _ => true
  | _ => false

/-- The condition on what goes on beside the calls: the heartbeat moves the client to another server
only if no entry that has not expired is from a different one. -/
def MovesWell (s : CachingClient) (e : CacheEnvironment) : Prop :=
  ∀ server ∈ s.movedTo e, s.HoldFrom server

/-- The condition on an operation: an answer is put into a cache only while the server that was
asked is still the one that is named, unless it expires at once. -/
def PutsWell (lists : ServerLists) (s : CachingClient) (op : CacheOp) : Prop :=
  puts op = true → s.cacheTtl = 0 ∨ s.asked = some (s.conn.target lists)

instance (s : CachingClient) (e : CacheEnvironment) : Decidable (s.MovesWell e) :=
  inferInstanceAs (Decidable (∀ _ ∈ _, _))

instance (lists : ServerLists) (s : CachingClient) (op : CacheOp) :
    Decidable (s.PutsWell lists op) :=
  inferInstanceAs (Decidable (_ → _ ∨ _))

/-- The condition on a step. -/
def KeepsServer (lists : ServerLists) (c : Program.Config CacheOp CacheOp.Ans CachingClient) :
    Program.Event CacheInput CacheEnvironment CachingCall → Prop
  | .start _ => True
  | .perform _ =>
    match c.running with
    | .done _ => True
    | .call op _ => c.state.PutsWell lists op
  | .environment e => c.state.MovesWell e

instance (lists : ServerLists) (c : Program.Config CacheOp CacheOp.Ans CachingClient)
    (e : Program.Event CacheInput CacheEnvironment CachingCall) :
    Decidable (KeepsServer lists c e) :=
  match e with
  | .start _ => .isTrue trivial
  | .perform _ =>
    match c with
    | ⟨_, .done _⟩ => .isTrue trivial
    | ⟨s, .call op _⟩ => inferInstanceAs (Decidable (s.PutsWell lists op))
  | .environment e => inferInstanceAs (Decidable (c.state.MovesWell e))

variable {lists : ServerLists} {s s' : CachingClient}

/-! ## What the steps do to the server -/

lemma lastServer_probeServers (reached : Server → Bool) (servers : List Server) :
    ∀ c : HqConn, (c.probeServers reached servers).lastServer = c.lastServer := by
  induction servers with
  | nil => exact fun _ => rfl
  | cons server servers ih => exact fun c => ih _

/-- A step of the user that makes no connection leaves the server as it is. -/
lemma lastServer_userStep {c c' : HqConn} {e : HqEvent} (h : c.userStep lists e = some c')
    (hconnects : c.connects e = false) : c'.lastServer = c.lastServer := by
  cases e <;> simp only [HqConn.userStep, Option.some.injEq, reduceCtorEq] at h <;> subst h
  case connect server outcome =>
    rw [HqConn.connectInternal, if_neg (by simpa [HqConn.connects] using hconnects)]
    rfl
  case connectToAny => split <;> rfl
  case reconnectIfNeeded => split <;> rfl
  case borrow outcome => cases outcome <;> rfl
  case blockServer server => split <;> rfl
  case probeServers reached => exact lastServer_probeServers reached lists.allKnown c
  all_goals rfl

/-- So does the next candidate of a walk. -/
lemma lastServer_advanceUser {c : HqConn} {walk : Walk} (hwalk : c.user = some walk)
    (outcome : DialOutcome) (hconnects : c.connects (.advance outcome) = false) :
    (c.advanceUser walk outcome).lastServer = c.lastServer := by
  obtain ⟨path, pending⟩ := walk
  rcases pending with _ | ⟨server, pending⟩
  · rfl
  · by_cases hpassed : (path.filters && c.isServerBlocked server) = true
    · simp only [HqConn.advanceUser, if_pos hpassed]
    · have houtcome : outcome ≠ .connected := by
        intro houtcome
        simp [HqConn.connects, hwalk, houtcome, hpassed] at hconnects
      simp only [HqConn.advanceUser, if_neg hpassed, HqConn.connectInternal, if_neg houtcome]
      rfl

/-- The caches follow the connection after a step of it as far as they did before: a connect of the
user forgets them. -/
lemma follows_withConn {e : HqEvent} {conn : HqConn} (hs : s.Follows lists)
    (hsame : s.conn.connects e = false → conn.lastServer = s.conn.lastServer) :
    (s.withConn e conn).Follows lists := by
  unfold withConn
  split
  · exact ⟨fun _ hp => absurd hp List.not_mem_nil, fun _ hp => absurd hp List.not_mem_nil⟩
  · next hconnects =>
    have htarget : conn.target lists = s.conn.target lists := by
      rw [HqConn.target, hsame (by simpa using hconnects), HqConn.target]
    show s.HoldFrom (conn.target lists)
    rwa [htarget]

/-- A connection that names the same server. -/
lemma follows_of_same {conn : HqConn} (hs : s.Follows lists)
    (hsame : conn.lastServer = s.conn.lastServer) :
    ({ s with conn } : CachingClient).Follows lists := by
  show s.HoldFrom (conn.target lists)
  rw [HqConn.target, hsame]
  exact hs

/-! ## What one step keeps -/

/-- A new entry in a cache that was in order. -/
lemma holds_insert {α : Type} {cache : MarketCache α} {now : ℕ} {server : Server}
    (h : Holds cache now server) (market : UInt8) (entry : CacheEntry α) :
    Holds (cache.insert market entry) now server ↔
      (now < entry.expiresAt → entry.producer = some server) := by
  unfold Holds MarketCache.insert
  rw [List.forall_mem_cons]
  exact and_iff_left fun p hp => h p (List.mem_of_mem_filter hp)

/-- An entry of the client is from the server asked last, unless it expires at once. -/
lemma entry_holds_iff {α : Type} (data : α) (server : Server) :
    (s.now < (s.entry data).expiresAt → (s.entry data).producer = some server) ↔
      s.cacheTtl = 0 ∨ s.asked = some server := by
  show (s.now < s.now + s.cacheTtl → s.asked = some server) ↔ _
  rw [Nat.lt_add_right_iff_pos, imp_iff_not_or, Nat.not_lt, Nat.le_zero]

/-- The condition on an operation that puts an answer into a cache. -/
lemma putsWell_iff {op : CacheOp} (h : puts op = true) :
    s.PutsWell lists op ↔ s.cacheTtl = 0 ∨ s.asked = some (s.conn.target lists) :=
  ⟨fun hwell => hwell h, fun hwell _ => hwell⟩

/-- Time passes, and entries expire. -/
lemma holds_later {α : Type} {cache : MarketCache α} {now : ℕ} {server : Server}
    (h : Holds cache now server) (ms : ℕ) : Holds cache (now + ms) server :=
  fun p hp hlt => h p hp (by omega)

/-- **An operation** keeps the caches in order exactly if it meets the condition.

**Proof sketch.** By the operation. Requests and the events of the user leave the caches as they are
and the last server too, or clear the caches when they move (`follows_withConn`). An entry that is
put belongs to the server that it was fetched from, so that the caches stay in order exactly if this
is the current one (`holds_insert`). -/
lemma follows_after {input : CacheInput} {op : CacheOp} (hs : s.Follows lists)
    (h : s.after lists input op = some s') : s'.Follows lists ↔ s.PutsWell lists op := by
  have hquiet : ∀ {e : HqEvent} {conn : HqConn}, s.conn.userStep lists e = some conn →
      (∀ c : HqConn, c.connects e = false) → ({ s with conn } : CachingClient).Follows lists :=
    fun hstep hconnects => follows_of_same hs (lastServer_userStep hstep (hconnects _))
  cases op with
  | hq op =>
    refine iff_of_true ?_ fun hputs => nomatch hputs
    cases op with
    | trySendAndRecv packet =>
      rw [after] at h
      obtain ⟨conn, hconn, rfl⟩ := Option.map_eq_some_iff.mp h
      exact hquiet hconn fun _ => rfl
    | autoRetry =>
      obtain rfl := Option.some.inj h
      exact hs
    | reconnectIfNeeded =>
      rw [after] at h
      obtain ⟨conn, hconn, rfl⟩ := Option.map_eq_some_iff.mp h
      exact hquiet hconn fun _ => rfl
    | reconnectToAnotherServer =>
      rw [after] at h
      obtain ⟨conn, hconn, rfl⟩ := Option.map_eq_some_iff.mp h
      exact hquiet hconn fun _ => rfl
  | user e =>
    obtain ⟨conn, hconn, rfl⟩ := Option.map_eq_some_iff.mp h
    exact iff_of_true (follows_withConn hs (lastServer_userStep hconn)) fun hputs => nomatch hputs
  | setCacheTtl ttlSecs =>
    obtain rfl := Option.some.inj h
    exact iff_of_true hs fun hputs => nomatch hputs
  | countGet market =>
    obtain rfl := Option.some.inj h
    exact iff_of_true hs fun hputs => nomatch hputs
  | listGet market =>
    obtain rfl := Option.some.inj h
    exact iff_of_true hs fun hputs => nomatch hputs
  | countPut market count =>
    obtain rfl := Option.some.inj h
    rw [putsWell_iff rfl, ← entry_holds_iff count, ← holds_insert hs.1 market]
    exact and_iff_left hs.2
  | listPut market list =>
    obtain rfl := Option.some.inj h
    rw [putsWell_iff rfl, ← entry_holds_iff list, ← holds_insert hs.2 market]
    exact and_iff_right hs.1

/-- **A beat of the heartbeat.**

**Proof sketch.** By the event. Only a candidate to which the heartbeat connects changes the last
server, and the heartbeat does not clear the caches, so that they must follow the new server
already; all other beats leave server and caches alone. -/
lemma follows_heartbeat {e : HqEvent} {conn : HqConn} (hs : s.Follows lists)
    (h : s.conn.heartbeatStep lists e = some conn) :
    ({ s with conn } : CachingClient).Follows lists ↔ s.MovesWell (.conn e) := by
  have hquiet : conn.lastServer = s.conn.lastServer → s.movedTo (.conn e) = none →
      (({ s with conn } : CachingClient).Follows lists ↔ s.MovesWell (.conn e)) := by
    intro hsame hmoved
    refine iff_of_true (follows_of_same hs hsame) fun server hserver => ?_
    rw [hmoved] at hserver
    cases hserver
  cases e <;> simp only [HqConn.heartbeatStep, reduceCtorEq] at h
  case heartbeatBorrow outcome =>
    obtain ⟨-, rfl⟩ := Option.ite_none_right_eq_some.mp h |>.imp_right Option.some.inj
    exact hquiet (by cases outcome <;> rfl) rfl
  case heartbeatAnswer alive =>
    refine hquiet ?_ rfl
    split at h
    · split at h <;> obtain rfl := Option.some.inj h <;> rfl
    · cases h
  case heartbeatAdvance outcome =>
    split at h
    · next pending hwalk =>
      obtain rfl := Option.some.inj h
      rcases pending with _ | ⟨server, pending⟩
      · exact hquiet rfl (by cases outcome <;> simp [movedTo, hwalk])
      · cases outcome with
        | connected =>
          have hmoved : s.movedTo (.conn (.heartbeatAdvance .connected)) = some server := by
            simp [movedTo, hwalk]
          rw [MovesWell, hmoved]
          exact ⟨fun h server' hserver' => Option.mem_some_iff.mp hserver' ▸ h,
            fun h => h server rfl⟩
        | refused => exact hquiet rfl rfl
        | handshakeFailed => exact hquiet rfl rfl
    · cases h
  case heartbeatRestart =>
    obtain ⟨-, rfl⟩ := Option.ite_none_left_eq_some.mp h |>.imp_right Option.some.inj
    exact hquiet rfl rfl

/-- **What goes on beside the calls** keeps the caches in order exactly if it meets the
condition.

**Proof sketch.** Time only lets entries expire (`holds_later`). A step of the user's walk clears
the caches when it moves, and the other steps beside the calls are those of the heartbeat
(`follows_heartbeat`). -/
lemma follows_environment {e : CacheEnvironment} (hs : s.Follows lists)
    (h : s.environment lists e = some s') : s'.Follows lists ↔ s.MovesWell e := by
  cases e with
  | tick ms =>
    obtain rfl := Option.some.inj h
    exact iff_of_true ⟨holds_later hs.1 ms, holds_later hs.2 ms⟩ fun _ hserver => nomatch hserver
  | conn e =>
    unfold environment at h
    simp only at h
    split at h
    · next walk outcome hwalk =>
      obtain rfl := Option.some.inj h
      exact iff_of_true (follows_withConn hs (lastServer_advanceUser hwalk outcome))
        fun _ hserver => nomatch hserver
    · obtain ⟨conn, hconn, rfl⟩ := Option.map_eq_some_iff.mp h
      exact follows_heartbeat hs hconn

/-- **What one step keeps.** From a state in which the caches follow the connection, a step leads to
such a state exactly if it meets the condition.

**Proof sketch.** By the kind of the step: a start changes no state, an operation is
`follows_after`, and what goes on beside is `follows_environment`. -/
lemma follows_step (lists : ServerLists) (gbk : Bytes → Text)
    (c : Program.Config CacheOp CacheOp.Ans CachingClient)
    (e : Program.Event CacheInput CacheEnvironment CachingCall)
    (c' : Program.Config CacheOp CacheOp.Ans CachingClient) (hc : c.state.Follows lists)
    (h : (system lists gbk).step c e = some c') :
    c'.state.Follows lists ↔ KeepsServer lists c e := by
  obtain ⟨s, p⟩ := c
  cases e with
  | start k =>
    cases p with
    | done a =>
      obtain rfl := Option.some.inj h
      exact iff_of_true hc trivial
    | call op next => cases h
  | perform input =>
    cases p with
    | done a => cases h
    | call op next =>
      obtain ⟨⟨r, s'⟩, hperform, rfl⟩ := Option.map_eq_some_iff.mp h
      obtain ⟨-, hafter⟩ := Option.ite_none_left_eq_some.mp hperform
      obtain ⟨s'', hop, heq⟩ := Option.map_eq_some_iff.mp hafter
      obtain ⟨rfl, rfl⟩ := Prod.mk.inj heq
      exact follows_after hc hop
  | environment e =>
    obtain ⟨s', henv, rfl⟩ := Option.map_eq_some_iff.mp h
    exact follows_environment hc henv

end CachingClient

/-- **When the caches follow the connection.** In every run of the user's calls, with any servers
within reach, any answers and the heartbeat at any time, all states have caches that hold only what
the current server has answered, exactly if the heartbeat moves the client only while no entry is
held against it, and no answer is put into a cache after the client has moved away from the server
that gave it.

**Proof sketch.** Fresh caches are empty and follow any server. From a state in which they follow, a
step leads to such a state exactly if it meets the condition (`follows_step`), and the rule for
properties that can come back gives the run. -/
theorem caches_follow_iff (lists : ServerLists) (gbk : Bytes → Text) (now : ℕ)
    (events : List (Program.Event CacheInput CacheEnvironment CachingCall))
    (c : Program.Config CacheOp CacheOp.Ans CachingClient)
    (hrun : Transition.run (CachingClient.system lists gbk).step ⟨.new now, .done ()⟩ events =
      some c) :
    Transition.Always (CachingClient.system lists gbk).step (fun c => c.state.Follows lists)
        ⟨.new now, .done ()⟩ events ↔
      Transition.Guarded (CachingClient.system lists gbk).step (CachingClient.KeepsServer lists)
        ⟨.new now, .done ()⟩ events := by
  have hnew : (CachingClient.new now).Follows lists :=
    ⟨fun _ hp => absurd hp List.not_mem_nil, fun _ hp => absurd hp List.not_mem_nil⟩
  exact Transition.always_iff_guarded (CachingClient.follows_step lists gbk) hnew hrun

/-! ## A failover in time, and one too early -/

/-- Nothing has to be decided. -/
def plainInput : CacheInput := ⟨.lent, .error .disconnected, (fun h => nomatch h), true⟩

/-- A try is answered by a count. -/
def countInput : CacheInput := ⟨.lent, .ok [0x10, 0x27], fun _ => rfl, true⟩

/-- The user connects to the first server and asks it for the number of securities of a market. -/
def countedRun : List (Program.Event CacheInput CacheEnvironment CachingCall) :=
  [.start (.user (.connect ("59.36.5.11", 7709) .connected)), .perform plainInput,
    .start (.getSecurityCount 0), .perform plainInput, .perform countInput, .perform plainInput]

/-- The heartbeat gets no answer and moves to the second server. -/
def failoverRun : List (Program.Event CacheInput CacheEnvironment CachingCall) :=
  [.environment (.conn (.heartbeatBorrow .lent)), .environment (.conn (.heartbeatAnswer false)),
    .environment (.conn (.heartbeatAdvance .connected))]

/-- When the count has expired, the failover does no harm. -/
theorem caches_follow_after_expiry :
    ∃ c, Transition.run (CachingClient.system twoPrimaries fun _ => []).step
        ⟨.new 0, .done ()⟩ (countedRun ++ .environment (.tick 30000) :: failoverRun) = some c ∧
      c.state.countCache.length = 1 ∧ c.state.conn.lastServer = some ("117.34.114.14", 7709) ∧
      Transition.Always (CachingClient.system twoPrimaries fun _ => []).step
        (fun c => c.state.Follows twoPrimaries) ⟨.new 0, .done ()⟩
        (countedRun ++ .environment (.tick 30000) :: failoverRun) :=
  ⟨_, rfl, rfl, rfl, (caches_follow_iff twoPrimaries (fun _ => []) 0 _ _ rfl).mpr (by decide)⟩

/-- **A count of the server before.** After the failover of the heartbeat the cache still holds what
the first server has answered. -/
theorem cache_outlives_connection :
    ∃ c, Transition.run (CachingClient.system twoPrimaries fun _ => []).step
        ⟨.new 0, .done ()⟩ (countedRun ++ failoverRun) = some c ∧
      c.state.conn.lastServer = some ("117.34.114.14", 7709) ∧ ¬ c.state.Follows twoPrimaries :=
  ⟨_, rfl, rfl, by decide⟩

end Tdxrs
