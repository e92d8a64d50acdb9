import Tdxrs.Library.TransitionSystem
import Tdxrs.Net.Pool

set_option relaxedAutoImplicit false
set_option autoImplicit false

/-!
# How the synchronous client chooses servers

The paths of `TdxHqClient` in `src/net/client.rs` that open connections: an explicit connect,
`connect_to_any`, `reconnect_if_needed` in the retries of a request, `reconnect_to_another_server`
after empty K-lines, the reconnect of the heartbeat, and the pool, which opens a connection to the
last server when it has none to lend. The user may block servers.

The calls of the user come one after the other, and the heartbeat runs beside them: a call that
goes through several servers is a walk over the candidates that are left, and every attempt is a
step of its own. What comes of an attempt is part of the event. Whether the pool has a connection
to lend is left open.

## Main definitions

* `Tdxrs.HqConn` — the state of the client, `Tdxrs.Walk` — a call that goes through servers.
* `Tdxrs.HqConn.step` — the steps of the user and of the heartbeat.
* `Tdxrs.Dial.Honours` — no connection is opened to a blocked server but by an explicit connect.

## Main results

* `Tdxrs.blacklist_honoured_iff` — when the blacklist is honoured in a run.
* `Tdxrs.blocked_server_reconnected` — the retries of a request go back to a server that the user
  has blocked.
-/

namespace Tdxrs

/-! ## Paths -/

/-- The lists of servers that the client comes with. -/
structure ServerLists where
  /-- The first of the primary servers, which stands in where none is known. -/
  firstPrimary : Server
  otherPrimary : List Server
  allKnown : List Server

/-- The primary servers. -/
def ServerLists.primary (lists : ServerLists) : List Server :=
  lists.firstPrimary :: lists.otherPrimary

/-- A call of the user that goes through servers. -/
inductive WalkPath where
  | connectToAny
  | reconnectIfNeeded
  | reconnectToAnotherServer
deriving DecidableEq, Repr

/-- Whether the call passes over blocked servers. -/
def WalkPath.filters : WalkPath → Bool
  | .connectToAny | .reconnectToAnotherServer => true
  | .reconnectIfNeeded => false

/-- A path on which connections are opened. -/
inductive ConnectPath where
  | connect
  | walk (path : WalkPath)
  | heartbeat
  | pool
  | probe
deriving DecidableEq, Repr

/-- What comes of an attempt to connect. -/
inductive DialOutcome where
  | refused
  | handshakeFailed
  | connected
deriving DecidableEq, Repr

/-- Whether a connection has been opened. -/
def DialOutcome.opened : DialOutcome → Bool
  | .refused => false
  | .handshakeFailed | .connected => true

/-- What comes of borrowing a connection from the pool. -/
inductive BorrowOutcome where
  /-- There was one. -/
  | lent
  /-- There was room for a new one. -/
  | dialled (outcome : DialOutcome)
  | exhausted
deriving DecidableEq, Repr

/-- Whether a connection has been lent. -/
def BorrowOutcome.isLent : BorrowOutcome → Bool
  | .lent | .dialled .connected => true
  | _ => false

/-- An attempt to connect. -/
structure Dial where
  path : ConnectPath
  server : Server
  opened : Bool
  /-- Whether the server was blocked at that moment. -/
  blocked : Bool
deriving DecidableEq, Repr

/-- No connection is opened to a blocked server, unless the user says so. -/
def Dial.Honours (d : Dial) : Prop :=
  d.path = .connect ∨ ¬ (d.opened = true ∧ d.blocked = true)

instance (d : Dial) : Decidable d.Honours := inferInstanceAs (Decidable (_ ∨ ¬ (_ ∧ _)))

/-! ## The client -/

/-- A call that goes through servers, with the candidates that are left. -/
structure Walk where
  path : WalkPath
  pending : List Server
deriving DecidableEq, Repr

/-- The heartbeat. -/
inductive Heartbeat where
  /-- It has not been started, or has been stopped. -/
  | off
  /-- It waits for its next tick. -/
  | waiting
  /-- It has a connection to the server, and waits for an answer. -/
  | probing (current : Server)
  /-- It has had no answer, and goes through the primary servers. -/
  | walking (pending : List Server)
deriving DecidableEq, Repr

/-- The state of the client as far as it matters for the choice of servers. -/
structure HqConn where
  connected : Bool
  lastServer : Option Server
  serverList : List Server
  blocked : List Server
  user : Option Walk
  heartbeat : Heartbeat
  /-- Ghost: the attempts to connect, newest first. -/
  dials : List Dial
deriving DecidableEq, Repr

/-- What the user does, and what happens. -/
inductive HqEvent where
  /-- An explicit connect. -/
  | connect (server : Server) (outcome : DialOutcome)
  | connectToAny
  /-- A retry of a request. -/
  | reconnectIfNeeded
  /-- A K-line call has had an empty answer. -/
  | reconnectToAnotherServer
  /-- The walk of the user comes to its next candidate. -/
  | advance (outcome : DialOutcome)
  /-- A request borrows a connection. -/
  | borrow (outcome : BorrowOutcome)
  /-- The heartbeat borrows a connection. -/
  | heartbeatBorrow (outcome : BorrowOutcome)
  | heartbeatAnswer (alive : Bool)
  /-- The walk of the heartbeat comes to its next candidate. -/
  | heartbeatAdvance (outcome : DialOutcome)
  /-- The heartbeat is told to stop, and another one takes its place. -/
  | heartbeatRestart
  | disconnect
  | blockServer (server : Server)
  | unblockServer (server : Server)
  | clearBlockedServers
  | setServers (servers : List Server)
  | addServer (server : Server)
  /-- All known servers are probed; the answer says which can be reached. -/
  | probeServers (reached : Server → Bool)

namespace HqConn

/-- A new client. -/
def new : HqConn := ⟨false, none, [], [], none, .off, []⟩

/-- Whether a server is blocked. -/
def isServerBlocked (s : HqConn) (server : Server) : Bool := s.blocked.contains server

/-- The server that requests go to. -/
def target (lists : ServerLists) (s : HqConn) : Server := s.lastServer.getD lists.firstPrimary

/-- An attempt to connect. -/
def dial (s : HqConn) (path : ConnectPath) (server : Server) (outcome : DialOutcome) : HqConn :=
  { s with dials := ⟨path, server, outcome.opened, s.isServerBlocked server⟩ :: s.dials }

/-- A connect of the user has succeeded; it starts the heartbeat. -/
def connectedTo (s : HqConn) (server : Server) : HqConn :=
  { s with
    connected := true
    lastServer := some server
    heartbeat := if s.heartbeat = .off then .waiting else s.heartbeat }

/-- A connect to a server with what comes of it. -/
def connectInternal (s : HqConn) (path : ConnectPath) (server : Server) (outcome : DialOutcome) :
    HqConn :=
  let s := s.dial path server outcome
  if outcome = .connected then s.connectedTo server else s

/-- The candidates of `connect_to_any`. -/
def anyCandidates (lists : ServerLists) (s : HqConn) : List Server :=
  s.lastServer.toList ++ s.serverList ++ lists.primary ++ lists.allKnown

/-- The candidates of `reconnect_if_needed`: the last server first, and no more after it. -/
def reconnectCandidates (lists : ServerLists) (s : HqConn) : List Server :=
  s.lastServer.toList ++
    (s.serverList ++ lists.primary ++ lists.allKnown).filter fun server =>
      decide (some server ≠ s.lastServer)

/-- The candidates of `reconnect_to_another_server`. -/
def otherCandidates (lists : ServerLists) (s : HqConn) : List Server :=
  lists.primary.filter fun server => decide (some server ≠ s.lastServer)

/-- The walk of the user comes to its next candidate: a path that filters passes over it if it is
blocked, and a connection ends the walk. -/
def advanceUser (s : HqConn) (walk : Walk) (outcome : DialOutcome) : HqConn :=
  match walk.pending with
  | [] => { s with user := none }
  | server :: pending =>
    if walk.path.filters && s.isServerBlocked server then
      { s with user := some { walk with pending := pending } }
    else
      { s.connectInternal (.walk walk.path) server outcome with
        user := if outcome = .connected then none else some { walk with pending := pending } }

/-- The walk of the heartbeat comes to its next candidate. -/
def advanceHeartbeat (s : HqConn) (pending : List Server) (outcome : DialOutcome) : HqConn :=
  match pending with
  | [] => { s with heartbeat := .waiting }
  | server :: pending =>
    let s := s.dial .heartbeat server outcome
    if outcome = .connected then
      { s with connected := true, lastServer := some server, heartbeat := .waiting }
    else { s with heartbeat := .walking pending }

/-- The pool lends a connection, or opens one to the server. -/
def borrow (s : HqConn) (server : Server) : BorrowOutcome → HqConn
  | .dialled outcome => s.dial .pool server outcome
  | _ => s

/-- All known servers are probed, one after the other. -/
def probeServers (s : HqConn) (reached : Server → Bool) (servers : List Server) : HqConn :=
  servers.foldl (fun s server =>
    s.dial .probe server (if reached server then .connected else .refused)) s

/-- A call of the user that goes through servers. -/
def startWalk (s : HqConn) (path : WalkPath) (pending : List Server) : HqConn :=
  { s with user := some ⟨path, pending⟩ }

/-- The steps that a call of the user takes while no other one is under way. -/
def userStep (lists : ServerLists) (s : HqConn) : HqEvent → Option HqConn
  | .connect server outcome => some (s.connectInternal .connect server outcome)
  | .connectToAny =>
    some (if s.connected then s else s.startWalk .connectToAny (s.anyCandidates lists))
  | .reconnectIfNeeded =>
    some (if s.connected then s
      else s.startWalk .reconnectIfNeeded (s.reconnectCandidates lists))
  | .reconnectToAnotherServer =>
    some (s.startWalk .reconnectToAnotherServer (s.otherCandidates lists))
  | .borrow outcome => some (s.borrow (s.target lists) outcome)
  | .disconnect => some { s with connected := false, heartbeat := .off }
  | .blockServer server =>
    some (if s.isServerBlocked server then s else { s with blocked := s.blocked ++ [server] })
  | .unblockServer server =>
    some { s with blocked := s.blocked.filter fun other => decide (other ≠ server) }
  | .clearBlockedServers => some { s with blocked := [] }
  | .setServers servers => some { s with serverList := servers }
  | .addServer server => some { s with serverList := server :: s.serverList }
  | .probeServers reached => some (s.probeServers reached lists.allKnown)
  | _ => none

/-- The steps of the heartbeat. -/
def heartbeatStep (lists : ServerLists) (s : HqConn) : HqEvent → Option HqConn
  | .heartbeatBorrow outcome =>
    if s.heartbeat = .waiting then
      let current := s.target lists
      some { s.borrow current outcome with
        heartbeat := if outcome.isLent then .probing current else .waiting }
    else none
  | .heartbeatAnswer alive =>
    match s.heartbeat with
    | .probing current =>
      if alive then some { s with heartbeat := .waiting }
      else
        some { s with
          connected := false
          heartbeat := .walking (lists.primary.filter fun server => decide (server ≠ current)) }
    | _ => none
  | .heartbeatAdvance outcome =>
    match s.heartbeat with
    | .walking pending => some (s.advanceHeartbeat pending outcome)
    | _ => none
  | .heartbeatRestart =>
    if s.heartbeat = .off then none else some { s with heartbeat := .waiting }
  | _ => none

/-- The steps of the client: those of the heartbeat at any time, and those of the user one call
after the other. -/
def step (lists : ServerLists) (s : HqConn) (e : HqEvent) : Option HqConn :=
  match s.user, e with
  | some walk, .advance outcome => some (s.advanceUser walk outcome)
  | none, e => (s.userStep lists e).or (s.heartbeatStep lists e)
  | some _, e => s.heartbeatStep lists e

/-- The connections that a step opens without a look at the blacklist. -/
def unchecked (lists : ServerLists) (s : HqConn) : HqEvent → List Server
  | .advance outcome =>
    match s.user with
    | some walk => if outcome.opened && !walk.path.filters then walk.pending.take 1 else []
    | none => []
  | .borrow (.dialled outcome) | .heartbeatBorrow (.dialled outcome) =>
    if outcome.opened then [s.target lists] else []
  | .heartbeatAdvance outcome =>
    match s.heartbeat with
    | .walking pending => if outcome.opened then pending.take 1 else []
    | _ => []
  | .probeServers reached => lists.allKnown.filter reached
  | _ => []

/-- The step opens no connection to a blocked server on a path that does not filter: no retry, no
heartbeat, no borrow and no probe comes to a server that is blocked. -/
def StaysClear (lists : ServerLists) (s : HqConn) (e : HqEvent) : Prop :=
  ∀ server ∈ s.unchecked lists e, s.isServerBlocked server = false

instance (lists : ServerLists) (s : HqConn) (e : HqEvent) : Decidable (s.StaysClear lists e) :=
  inferInstanceAs (Decidable (∀ _ ∈ _, _))

/-- The blacklist has been honoured by every attempt so far. -/
def Honoured (s : HqConn) : Prop := ∀ d ∈ s.dials, d.Honours

/-! ## What the steps do to the attempts -/

variable {s : HqConn} {lists : ServerLists}

/-- An attempt that the user has not asked for honours the blacklist exactly if it opens no
connection to a blocked server. -/
lemma honoured_dial (path : ConnectPath) (hpath : path ≠ .connect) (server : Server)
    (outcome : DialOutcome) :
    (s.dial path server outcome).Honoured ↔
      s.Honoured ∧ (outcome.opened = true → s.isServerBlocked server = false) := by
  simp [Honoured, dial, Dial.Honours, hpath, and_comm]

/-- An explicit connect honours the blacklist. -/
lemma honoured_connect (server : Server) (outcome : DialOutcome) :
    (s.connectInternal .connect server outcome).Honoured ↔ s.Honoured := by
  unfold connectInternal
  split <;> simp [Honoured, connectedTo, dial, Dial.Honours]

/-- Probing honours the blacklist exactly if no blocked server is reached. -/
lemma honoured_probeServers (reached : Server → Bool) (servers : List Server) :
    ∀ {s : HqConn}, (s.probeServers reached servers).Honoured ↔
      s.Honoured ∧ ∀ server ∈ servers.filter reached, s.isServerBlocked server = false := by
  induction servers with
  | nil => simp [probeServers]
  | cons server servers ih =>
    intro s
    show ((s.dial .probe server _).probeServers reached servers).Honoured ↔ _
    rw [ih, honoured_dial _ (by simp)]
    by_cases hreached : reached server = true
    · simp [hreached, DialOutcome.opened, dial, isServerBlocked, and_assoc]
    · simp [hreached, DialOutcome.opened, dial, isServerBlocked]

/-- A borrow honours the blacklist exactly if it opens no connection to a blocked server. -/
lemma honoured_borrow (server : Server) (outcome : BorrowOutcome) :
    (s.borrow server outcome).Honoured ↔ s.Honoured ∧
      ∀ o, outcome = .dialled o → o.opened = true → s.isServerBlocked server = false := by
  cases outcome with
  | dialled o =>
    refine (honoured_dial _ (by simp) server o).trans (and_congr_right fun _ => ?_)
    exact ⟨fun h o' ho => BorrowOutcome.dialled.inj ho ▸ h, fun h => h o rfl⟩
  | lent => exact ⟨fun h => ⟨h, fun _ ho => nomatch ho⟩, And.left⟩
  | exhausted => exact ⟨fun h => ⟨h, fun _ ho => nomatch ho⟩, And.left⟩

/-- The next candidate of the user: a path that filters honours the blacklist in any case.

**Proof sketch.** A path that filters connects only to servers off the blacklist, and a server on it
is passed over. On one that does not, the connection is opened whatever the blacklist says, which is
exactly what `StaysClear` asks about; `honoured_dial` says what an opened connection does to the
property. -/
lemma honoured_advanceUser {walk : Walk} (hwalk : s.user = some walk) (outcome : DialOutcome) :
    (s.advanceUser walk outcome).Honoured ↔
      s.Honoured ∧ s.StaysClear lists (.advance outcome) := by
  obtain ⟨path, pending⟩ := walk
  rcases pending with _ | ⟨server, pending⟩
  · simp [advanceUser, StaysClear, unchecked, hwalk, Honoured]
  · have hdial : ({ s.connectInternal (.walk path) server outcome with
          user := if outcome = .connected then none else some ⟨path, pending⟩ } :
          HqConn).Honoured ↔
        s.Honoured ∧ (outcome.opened = true → s.isServerBlocked server = false) := by
      rw [← honoured_dial (.walk path) (by simp)]
      unfold connectInternal
      split <;> rfl
    by_cases hfilters : path.filters = true
    · have hunchecked : s.StaysClear lists (.advance outcome) := by
        simp [StaysClear, unchecked, hwalk, hfilters]
      by_cases hblocked : s.isServerBlocked server = true
      · simp [advanceUser, hfilters, hblocked, hunchecked, Honoured]
      · rw [Bool.not_eq_true] at hblocked
        simp only [advanceUser, hfilters, hblocked, Bool.and_false, Bool.false_eq_true, if_false,
          hdial, hunchecked, implies_true]
    · have hunchecked : s.StaysClear lists (.advance outcome) ↔
          (outcome.opened = true → s.isServerBlocked server = false) := by
        simp [StaysClear, unchecked, hwalk, hfilters]
      simp only [advanceUser, hfilters, Bool.false_and, Bool.false_eq_true, if_false, hdial,
        hunchecked]

/-- The next candidate of the heartbeat. -/
lemma honoured_advanceHeartbeat {pending : List Server} (hwalk : s.heartbeat = .walking pending)
    (outcome : DialOutcome) :
    (s.advanceHeartbeat pending outcome).Honoured ↔
      s.Honoured ∧ s.StaysClear lists (.heartbeatAdvance outcome) := by
  rcases pending with _ | ⟨server, pending⟩
  · simp [advanceHeartbeat, StaysClear, unchecked, hwalk, Honoured]
  · have hunchecked : s.StaysClear lists (.heartbeatAdvance outcome) ↔
        (outcome.opened = true → s.isServerBlocked server = false) := by
      simp [StaysClear, unchecked, hwalk]
    rw [hunchecked, ← honoured_dial .heartbeat (by simp)]
    simp only [advanceHeartbeat]
    split <;> rfl

/-- A step without an attempt to connect. -/
lemma honoured_of_quiet {e : HqEvent} {s' : HqConn} (hdials : s'.dials = s.dials)
    (hnone : s.unchecked lists e = []) :
    s'.Honoured ↔ s.Honoured ∧ s.StaysClear lists e := by
  simp [Honoured, StaysClear, hdials, hnone]

/-- A step of the user other than a walk.

**Proof sketch.** By the event. Connecting, borrowing from the pool and probing each have a lemma
that says what they do to the condition; no other step connects to a server. -/
lemma honoured_userStep {e : HqEvent} {s' : HqConn} (hstep : s.userStep lists e = some s') :
    s'.Honoured ↔ s.Honoured ∧ s.StaysClear lists e := by
  cases e <;> simp only [userStep, Option.some.injEq, reduceCtorEq] at hstep <;> subst hstep
  case connect server outcome =>
    rw [honoured_connect]
    exact (and_iff_left (by simp [StaysClear, unchecked])).symm
  case connectToAny => exact honoured_of_quiet (by split <;> rfl) rfl
  case reconnectIfNeeded => exact honoured_of_quiet (by split <;> rfl) rfl
  case borrow outcome =>
    rw [honoured_borrow]
    refine and_congr_right fun _ => ?_
    cases outcome <;> simp [StaysClear, unchecked]
  case blockServer server => exact honoured_of_quiet (by split <;> rfl) rfl
  case probeServers reached => exact honoured_probeServers reached lists.allKnown
  all_goals exact honoured_of_quiet rfl rfl

/-- A step of the heartbeat.

**Proof sketch.** By the event. Only a borrowed connection that is opened and the next candidate
open connections; the others leave connections and blacklist alone (`honoured_of_quiet`). -/
lemma honoured_heartbeatStep {e : HqEvent} {s' : HqConn}
    (hstep : s.heartbeatStep lists e = some s') :
    s'.Honoured ↔ s.Honoured ∧ s.StaysClear lists e := by
  cases e <;> simp only [heartbeatStep, reduceCtorEq] at hstep
  case heartbeatBorrow outcome =>
    obtain ⟨-, rfl⟩ := Option.ite_none_right_eq_some.mp hstep |>.imp_right Option.some.inj
    refine (honoured_borrow (s.target lists) outcome).trans (and_congr_right fun _ => ?_)
    cases outcome <;> simp [StaysClear, unchecked]
  case heartbeatAnswer alive =>
    split at hstep
    · split at hstep <;> obtain rfl := Option.some.inj hstep <;> exact honoured_of_quiet rfl rfl
    · cases hstep
  case heartbeatAdvance outcome =>
    split at hstep
    · next hwalk =>
      obtain rfl := Option.some.inj hstep
      exact honoured_advanceHeartbeat hwalk outcome
    · cases hstep
  case heartbeatRestart =>
    obtain ⟨-, rfl⟩ := Option.ite_none_left_eq_some.mp hstep |>.imp_right Option.some.inj
    exact honoured_of_quiet rfl rfl

/-- **A step honours the blacklist** exactly if it opens no connection to a blocked server on a
path that does not filter. -/
lemma honoured_step (lists : ServerLists) (s : HqConn) (e : HqEvent) (s' : HqConn)
    (hstep : step lists s e = some s') : s'.Honoured ↔ s.Honoured ∧ s.StaysClear lists e := by
  unfold step at hstep
  split at hstep
  · next hwalk =>
    obtain rfl := Option.some.inj hstep
    exact honoured_advanceUser hwalk _
  · rcases Option.or_eq_some_iff.mp hstep with huser | ⟨-, hheartbeat⟩
    · exact honoured_userStep huser
    · exact honoured_heartbeatStep hheartbeat
  · exact honoured_heartbeatStep hstep

end HqConn

/-- **When the blacklist is honoured.** In every run of the user's calls and the heartbeat, no
connection is opened to a blocked server but by an explicit connect, exactly if no retry of a
request, no reconnect of the heartbeat, no borrow from an empty pool and no probe opens one.
`connect_to_any` and the switch after empty K-lines honour the blacklist in every state.

**Proof sketch.** One step keeps the property exactly if it stays clear of the blacklist
(`honoured_step`), a condition on the state before it. The rule for runs whose steps are all
conditioned so gives the run. -/
theorem blacklist_honoured_iff (lists : ServerLists) (events : List HqEvent) (s : HqConn)
    (hrun : Transition.run (HqConn.step lists) .new events = some s) :
    s.Honoured ↔
      Transition.Guarded (HqConn.step lists) (HqConn.StaysClear lists) .new events := by
  have hnew : HqConn.new.Honoured := fun _ hd => absurd hd List.not_mem_nil
  rw [Transition.run_iff_guarded (HqConn.honoured_step lists) hrun]
  exact and_iff_right hnew

/-! ## A blocked server, passed over and not -/

/-- Two primary servers, which are all that are known. -/
def twoPrimaries : ServerLists :=
  ⟨("59.36.5.11", 7709), [("117.34.114.14", 7709)],
    [("59.36.5.11", 7709), ("117.34.114.14", 7709)]⟩

/-- The user blocks the first server and connects to any. -/
def blockedThenAny : List HqEvent :=
  [.blockServer ("59.36.5.11", 7709), .connectToAny, .advance .connected, .advance .connected]

/-- The first server is passed over, and the second one lets the client connect. -/
theorem blacklist_honoured_passed_over :
    ∃ s, Transition.run (HqConn.step twoPrimaries) .new blockedThenAny = some s ∧
      s.lastServer = some ("117.34.114.14", 7709) ∧ s.Honoured :=
  ⟨_, rfl, rfl, (blacklist_honoured_iff twoPrimaries blockedThenAny _ rfl).mpr (by decide)⟩

/-- **A retry goes back to a blocked server.** The user blocks the server that the client is
connected to, and the heartbeat finds it dead and no other one; the next retry of a request connects
to it again. -/
theorem blocked_server_reconnected :
    ∃ s, Transition.run (HqConn.step twoPrimaries) .new
        [.connect ("59.36.5.11", 7709) .connected, .blockServer ("59.36.5.11", 7709),
          .heartbeatBorrow .lent, .heartbeatAnswer false, .heartbeatAdvance .refused,
          .heartbeatAdvance .refused, .reconnectIfNeeded, .advance .connected] = some s ∧
      ¬ s.Honoured :=
  ⟨_, rfl, fun h => absurd (h _ List.mem_cons_self) (by decide)⟩

end Tdxrs
