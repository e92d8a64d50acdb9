import Tdxrs.Net.AsyncClient

set_option relaxedAutoImplicit false
set_option autoImplicit false

/-!
# The connections of the asynchronous client

`connect`, `connect_to_any`, `disconnect`, the heartbeat and the requests of `AsyncTdxHqClient` in
`src/net/async_client.rs`, with the handles of the connection tasks and the flag that says whether
the client is connected. A task serves its channel until the handle is dropped, so a handle that
is held is a live one.

The network is the record `AsyncNet`, over a world that each use may change. A heartbeat ticks
beside everything else, also a stopped one whose last tick is under way. All a tick does is to clear
the flag when it finds no connection that answers, so a use of the network reports whether that
happened meanwhile, and between the operations a tick is an event of its own.

## Main definitions

* `Tdxrs.AsyncConn` — the connections of the client.
* `Tdxrs.AsyncNet.connect`, `connectToAny`, `trySend` — the operations, `Tdxrs.AsyncNet.run` — any
  sequence of them.
* `Tdxrs.AsyncConn.Truthful` — what the flag and the results of connects are to mean.

## Main results

* `Tdxrs.connected_truthful_iff` — when they mean it: no connect fails but at its first attempt,
  while the flag is cleared.
* `Tdxrs.connected_without_connections` — a failed connect of a connected client leaves the flag
  set and no connection.
-/

namespace Tdxrs

/-! ## The client -/

/-- The handle of a connection task. -/
structure ConnectionHandle where
  /-- Ghost: the number of the task. -/
  id : ℕ
  server : Server
deriving DecidableEq, Repr

/-- The operations that open connections. -/
inductive ConnectKind where
  | connect
  | connectToAny
deriving DecidableEq, Repr

/-- How an operation that opens connections has returned. -/
structure ConnectReturn where
  kind : ConnectKind
  ok : Bool
  before : List ConnectionHandle
  after : List ConnectionHandle
  connected : Bool
deriving DecidableEq, Repr

/-- An attempt to open a connection that has failed: how many connections the connect had opened
before, and the flag. -/
structure FailedAttempt where
  position : ℕ
  connected : Bool
deriving DecidableEq, Repr

/-- The connections of the client. -/
structure AsyncConn (σ : Type) where
  world : σ
  connections : List ConnectionHandle
  nextIdx : ℕ
  currentServer : Option Server
  connected : Bool
  /-- Ghost: the number of the next task. -/
  nextId : ℕ
  /-- Ghost: the attempts that have failed. -/
  failures : List FailedAttempt
  /-- Ghost: the connects that have returned. -/
  returns : List ConnectReturn

/-- What the client uses of the network. The flags say whether a heartbeat has meanwhile found no
connection that answers. -/
structure AsyncNet (σ : Type) where
  poolSize : ℕ
  poolSize_pos : 0 < poolSize
  defaultServers : List Server
  /-- A connection with its handshake. -/
  connectTask : Server → σ → Except TdxError Unit × Bool × σ
  /-- A request over the channel of a task; `none` if the channel is full. -/
  submit : ConnectionHandle → Bytes → σ → Option (Except TdxError Bytes) × Bool × σ

variable {σ : Type}

/-- A client that has not connected yet. -/
def AsyncConn.new (w : σ) : AsyncConn σ := ⟨w, [], 0, none, false, 0, [], []⟩

namespace AsyncConn

/-- The network has been used, and a heartbeat may have cleared the flag. -/
def interlude (s : AsyncConn σ) (dead : Bool) (w : σ) : AsyncConn σ :=
  { s with world := w, connected := s.connected && !dead }

/-- A connection task has been started. -/
def push (s : AsyncConn σ) (server : Server) : AsyncConn σ :=
  { s with connections := s.connections ++ [⟨s.nextId, server⟩], nextId := s.nextId + 1 }

/-- An attempt to open a connection has failed. -/
def attemptFailed (s : AsyncConn σ) : AsyncConn σ :=
  { s with failures := ⟨s.connections.length, s.connected⟩ :: s.failures }

/-- An operation that opens connections has returned. -/
def returned (s : AsyncConn σ) (kind : ConnectKind) (before : List ConnectionHandle) (ok : Bool) :
    AsyncConn σ :=
  { s with returns := ⟨kind, ok, before, s.connections, s.connected⟩ :: s.returns }

/-- All connections are dropped. -/
def disconnect (s : AsyncConn σ) : AsyncConn σ :=
  { s with connections := [], currentServer := none, connected := false }

/-- A tick of the heartbeat: the flag is cleared unless a connection has answered. -/
def tick (s : AsyncConn σ) (answered : Bool) : AsyncConn σ :=
  { s with connected := s.connected && (!s.connections.isEmpty && answered) }

end AsyncConn

namespace AsyncNet

/-- The connections that are left to open. The first attempt that fails ends the loop. -/
def connectLoop (net : AsyncNet σ) (server : Server) :
    ℕ → AsyncConn σ → Except TdxError Unit × AsyncConn σ
  | 0, s => (.ok (), s)
  | left + 1, s =>
    match net.connectTask server s.world with
    | (.error e, dead, w) => (.error e, (s.interlude dead w).attemptFailed)
    | (.ok (), dead, w) => net.connectLoop server left ((s.interlude dead w).push server)

/-- Opens all connections to a server, and starts the heartbeat. The old connections are dropped
first. -/
def connect (net : AsyncNet σ) (server : Server) (s : AsyncConn σ) :
    Except TdxError Bool × AsyncConn σ :=
  match net.connectLoop server net.poolSize
      { s with currentServer := some server, connections := [] } with
  | (.error e, s') => (.error e, s'.returned .connect s.connections false)
  | (.ok (), s') => (.ok true, { s' with connected := true }.returned .connect s.connections true)

/-- Connects to the first of the servers that lets it. -/
def connectFirst (net : AsyncNet σ) : List Server → AsyncConn σ → Except TdxError Bool × AsyncConn σ
  | [], s => (.error (ErrorCode.connectionFailed.err "all servers unreachable"), s)
  | server :: servers, s =>
    match net.connect server s with
    | (.ok true, s) => (.ok true, s)
    | (_, s) => net.connectFirst servers s

/-- Connects to any server, the current one first, unless the client is connected. -/
def connectToAny (net : AsyncNet σ) (s : AsyncConn σ) : Except TdxError Bool × AsyncConn σ :=
  if s.connected then (.ok true, s.returned .connectToAny s.connections true)
  else
    match net.connectFirst (s.currentServer.toList ++ net.defaultServers) s with
    | (.ok b, s') => (.ok b, s'.returned .connectToAny s.connections true)
    | (.error e, s') => (.error e, s'.returned .connectToAny s.connections false)

/-- One try of a request: over the next connection in turn, or the one after it if the channel of
the first is full. -/
def trySend (net : AsyncNet σ) (packet : Bytes) (s : AsyncConn σ) :
    Except TdxError Bytes × AsyncConn σ :=
  match s.connections with
  | [] => (.error .disconnected, s)
  | conn :: conns =>
    let count := conns.length + 1
    let idx := s.nextIdx % count
    let s := { s with nextIdx := s.nextIdx + 1 }
    match net.submit ((conn :: conns).getD idx conn) packet s.world with
    | (some result, dead, w) => (result, s.interlude dead w)
    | (none, dead, w) =>
      let s := s.interlude dead w
      if 1 < count then
        match net.submit ((conn :: conns).getD ((idx + 1) % count) conn) packet s.world with
        | (some result, dead, w) => (result, s.interlude dead w)
        | (none, dead, w) => (.error (.connection "all connections busy"), s.interlude dead w)
      else (.error (.connection "connection busy"), s)

/-- The client as the K-line calls use it. -/
def toEnv (net : AsyncNet σ) (env : AsyncEnv (AsyncConn σ)) : AsyncEnv (AsyncConn σ) :=
  { env with
    trySend := net.trySend
    isConnected := AsyncConn.connected
    currentServer := AsyncConn.currentServer
    connect := fun server s => (net.connect server s).2 }

end AsyncNet

/-! ## Any sequence of operations -/

/-- What a caller, or the heartbeat, does with the client. -/
inductive AsyncOp where
  | connect (server : Server)
  | connectToAny
  | disconnect
  | request (packet : Bytes)
  | tick (answered : Bool)

namespace AsyncNet

/-- The client after an operation. -/
def step (net : AsyncNet σ) (env : AsyncEnv (AsyncConn σ)) (s : AsyncConn σ) :
    AsyncOp → AsyncConn σ
  | .connect server => (net.connect server s).2
  | .connectToAny => (net.connectToAny s).2
  | .disconnect => s.disconnect
  | .request packet => ((net.toEnv env).sendAndRecv packet s).2
  | .tick answered => s.tick answered

/-- The client after a sequence of operations. -/
def run (net : AsyncNet σ) (env : AsyncEnv (AsyncConn σ)) (ops : List AsyncOp) (w : σ) :
    AsyncConn σ :=
  ops.foldl (net.step env) (.new w)

end AsyncNet

/-- A connect that succeeds leaves a connection, and one that fails leaves the connections as they
were, or none, with the flag cleared. -/
def ConnectReturn.Truthful (r : ConnectReturn) : Prop :=
  (r.ok = true → r.after ≠ []) ∧
    (r.kind = .connect → r.ok = false → r.after = r.before ∨ r.after = [] ∧ r.connected = false)

/-- The flag is set only with a connection at hand, and every connect has returned truthfully. -/
def AsyncConn.Truthful (s : AsyncConn σ) : Prop :=
  (s.connected = true → s.connections ≠ []) ∧ ∀ r ∈ s.returns, r.Truthful

/-- The attempt was the first one of its connect, and the flag was cleared. -/
def FailedAttempt.Harmless (f : FailedAttempt) : Prop := f.position = 0 ∧ f.connected = false

/-! ## The connections of one connect -/

/-- What the loop of a connect does: it adds connections of its own, which are new, and the flag
may be cleared. -/
structure AsyncConn.Grows (s s' : AsyncConn σ) (more : List ConnectionHandle) : Prop where
  connections : s'.connections = s.connections ++ more
  fresh : ∀ h ∈ more, s.nextId ≤ h.id ∧ h.id < s'.nextId
  nextId : s.nextId ≤ s'.nextId
  connected : s'.connected = true → s.connected = true
  returns : s'.returns = s.returns

/-- **The loop of a connect**: either it opens all the connections, or an attempt fails after it
has opened some.

**Proof sketch.** Induction on the connections that are left to open. While one is opened, other
tasks may have the flag cleared but not set (`interlude`). A failure is recorded with the
connections that are there and the flag of that moment; a success adds a connection with a new
number, and the induction hypothesis does the rest. -/
lemma AsyncNet.connectLoop_spec (net : AsyncNet σ) (server : Server) (left : ℕ) :
    ∀ (s : AsyncConn σ), ∃ more, s.Grows (net.connectLoop server left s).2 more ∧
      (((net.connectLoop server left s).1 = .ok () ∧ more.length = left ∧
          (net.connectLoop server left s).2.failures = s.failures) ∨
        (∃ e, (net.connectLoop server left s).1 = .error e) ∧
          (net.connectLoop server left s).2.failures =
            ⟨(s.connections ++ more).length, (net.connectLoop server left s).2.connected⟩ ::
              s.failures) := by
  induction left with
  | zero =>
    intro s
    exact ⟨[], ⟨(List.append_nil _).symm, by simp, le_rfl, id, rfl⟩, .inl ⟨rfl, rfl, rfl⟩⟩
  | succ left ih =>
    intro s
    rw [AsyncNet.connectLoop]
    rcases net.connectTask server s.world with ⟨e | _, dead, w⟩
    · refine ⟨[], ⟨(List.append_nil _).symm, by simp, le_rfl, fun h => ?_, rfl⟩,
        .inr ⟨⟨e, rfl⟩, ?_⟩⟩
      · exact (Bool.and_eq_true_iff.mp h).1
      · rw [List.append_nil]
        rfl
    · obtain ⟨more, hgrows, hresult⟩ := ih ((s.interlude dead w).push server)
      have hconnections : (((s.interlude dead w).push server).connections ++ more) =
          s.connections ++ ⟨s.nextId, server⟩ :: more := by
        simp [AsyncConn.push, AsyncConn.interlude]
      have hnext : s.nextId + 1 ≤
          (net.connectLoop server left ((s.interlude dead w).push server)).2.nextId :=
        hgrows.nextId
      refine ⟨⟨s.nextId, server⟩ :: more,
        ⟨?_, ?_, (Nat.le_succ _).trans hnext, fun h => ?_, hgrows.returns⟩, ?_⟩
      · rw [← hconnections]
        exact hgrows.connections
      · intro h hmem
        rcases List.mem_cons.mp hmem with rfl | hmem
        · exact ⟨le_rfl, hnext⟩
        · have hfresh : s.nextId + 1 ≤ h.id ∧ _ := hgrows.fresh h hmem
          exact ⟨by omega, hfresh.2⟩
      · exact (Bool.and_eq_true_iff.mp (hgrows.connected h)).1
      · rcases hresult with ⟨hok, hlength, hfailures⟩ | ⟨herror, hfailures⟩
        · exact .inl ⟨hok, by rw [List.length_cons, hlength], hfailures⟩
        · refine .inr ⟨herror, ?_⟩
          rw [← hconnections]
          exact hfailures

/-! ## Sound and broken clients -/

/-- A client whose connects have all kept to their promises, and whose failures were harmless. -/
structure AsyncConn.Sound (s : AsyncConn σ) : Prop where
  flag : s.connected = true → s.connections ≠ []
  returns : ∀ r ∈ s.returns, r.Truthful
  failures : ∀ f ∈ s.failures, f.Harmless
  fresh : ∀ h ∈ s.connections, h.id < s.nextId

/-- A client one of whose connects has broken its promise, after a failure that was not
harmless. -/
def AsyncConn.Broken (s : AsyncConn σ) : Prop :=
  (∃ r ∈ s.returns, ¬ r.Truthful) ∧ ∃ f ∈ s.failures, ¬ f.Harmless

/-- **The invariant**: a promise is broken exactly with a failure that is not harmless. -/
def AsyncConn.Settled (s : AsyncConn σ) : Prop := s.Sound ∨ s.Broken

namespace AsyncConn

variable {s s' : AsyncConn σ}

/-- What is broken stays so. -/
lemma Broken.mono (hs : s.Broken) (hreturns : s.returns ⊆ s'.returns)
    (hfailures : s.failures ⊆ s'.failures) : s'.Broken :=
  ⟨hs.1.imp fun _ h => ⟨hreturns h.1, h.2⟩, hs.2.imp fun _ h => ⟨hfailures h.1, h.2⟩⟩

/-- A settled client is truthful exactly if its failures were harmless. -/
lemma Settled.truthful_iff (hs : s.Settled) : s.Truthful ↔ ∀ f ∈ s.failures, f.Harmless := by
  rcases hs with hs | ⟨⟨r, hr, hbroken⟩, f, hf, hharm⟩
  · exact ⟨fun _ => hs.failures, fun _ => ⟨hs.flag, hs.returns⟩⟩
  · exact ⟨fun h => absurd (h.2 r hr) hbroken, fun h => absurd (h f hf) hharm⟩

/-- A change that keeps the connections, and does not set the flag, keeps the invariant. -/
lemma Settled.of_same (hs : s.Settled) (hconnections : s'.connections = s.connections)
    (hnextId : s'.nextId = s.nextId) (hconnected : s'.connected = true → s.connected = true)
    (hreturns : s'.returns = s.returns) (hfailures : s'.failures = s.failures) : s'.Settled := by
  rcases hs with hs | hs
  · left
    constructor
    · rw [hconnections]
      exact fun h => hs.flag (hconnected h)
    · rw [hreturns]
      exact hs.returns
    · rw [hfailures]
      exact hs.failures
    · rw [hconnections, hnextId]
      exact hs.fresh
  · exact .inr (hs.mono (hreturns ▸ List.Subset.refl _) (hfailures ▸ List.Subset.refl _))

/-- The network has been used. -/
lemma Settled.interlude (hs : s.Settled) (dead : Bool) (w : σ) : (s.interlude dead w).Settled :=
  hs.of_same rfl rfl (fun h => (Bool.and_eq_true_iff.mp h).1) rfl rfl

/-- A tick. -/
lemma Settled.tick (hs : s.Settled) (answered : Bool) : (s.tick answered).Settled :=
  hs.of_same rfl rfl (fun h => (Bool.and_eq_true_iff.mp h).1) rfl rfl

/-- A disconnect. -/
lemma Settled.disconnect (hs : s.Settled) : s.disconnect.Settled := by
  rcases hs with hs | hs
  · exact .inl ⟨fun h => absurd h Bool.false_ne_true, hs.returns, hs.failures,
      fun h hmem => absurd hmem List.not_mem_nil⟩
  · exact .inr hs

/-- An operation returns truthfully. -/
lemma Settled.returned (hs : s.Settled) {kind : ConnectKind} {before : List ConnectionHandle}
    {ok : Bool} (h : s.Sound →
      (⟨kind, ok, before, s.connections, s.connected⟩ : ConnectReturn).Truthful) :
    (s.returned kind before ok).Settled := by
  rcases hs with hs | hs
  · exact .inl ⟨hs.flag, List.forall_mem_cons.mpr ⟨h hs, hs.returns⟩, hs.failures, hs.fresh⟩
  · exact .inr (hs.mono (List.subset_cons_self _ _) (List.Subset.refl _))

end AsyncConn

/-! ## The operations keep the invariant -/

section Connect

variable {s s' : AsyncConn σ} {more : List ConnectionHandle} {server : Server}

/-- All connections have been opened.

**Proof sketch.** The flag is set with at least one connection there, so that a sound state stays
sound: the result that is returned is true of it. A state that was settled by an earlier break of
the promise stays so, since the records only grow. -/
lemma AsyncConn.Settled.connected (hs : s.Settled)
    (hgrows : { s with currentServer := some server, connections := [] }.Grows s' more)
    (hmore : more ≠ []) (hfailures : s'.failures = s.failures) :
    ({ s' with connected := true }.returned .connect s.connections true).Settled := by
  have hconnections : s'.connections = more := hgrows.connections
  have hreturns : s'.returns = s.returns := hgrows.returns
  rcases hs with hs | hs
  · have hne : s'.connections ≠ [] := hconnections ▸ hmore
    refine .inl ⟨fun _ => hne, List.forall_mem_cons.mpr
      ⟨⟨fun _ => hne, fun _ h => absurd h.symm Bool.false_ne_true⟩, ?_⟩, ?_, ?_⟩
    · exact fun r hr => hs.returns r (hreturns ▸ hr)
    · exact fun f hf => hs.failures f (hfailures ▸ hf)
    · exact fun h hmem => (hgrows.fresh h (hconnections ▸ hmem)).2
  · refine .inr (hs.mono ?_ ?_)
    · exact (hreturns ▸ List.subset_cons_self _ _)
    · exact (hfailures ▸ List.Subset.refl _)

/-- A harmless failure leaves no connection and the flag cleared.

**Proof sketch.** A harmless failure is one with no connection and with the flag cleared, so the
state promises nothing any more, and the call returns nothing that would have to be true. -/
lemma AsyncConn.Sound.failed (hs : s.Sound)
    (hgrows : { s with currentServer := some server, connections := [] }.Grows s' more)
    (hfailures : s'.failures = ⟨more.length, s'.connected⟩ :: s.failures)
    (hharm : (⟨more.length, s'.connected⟩ : FailedAttempt).Harmless) :
    (s'.returned .connect s.connections false).Sound := by
  have hconnections : s'.connections = more := hgrows.connections
  have hnil : s'.connections = [] := hconnections.trans (List.length_eq_zero_iff.mp hharm.1)
  have hflag : s'.connected = false := hharm.2
  refine ⟨fun h => absurd h (Bool.eq_false_iff.mp hflag), List.forall_mem_cons.mpr
    ⟨⟨fun h => absurd h Bool.false_ne_true, fun _ _ => .inr ⟨hnil, hflag⟩⟩, ?_⟩, ?_, ?_⟩
  · exact fun r hr => hs.returns r ((hgrows.returns : s'.returns = s.returns) ▸ hr)
  · show ∀ f ∈ s'.failures, f.Harmless
    rw [hfailures]
    exact List.forall_mem_cons.mpr ⟨hharm, hs.failures⟩
  · show ∀ h ∈ s'.connections, h.id < s'.nextId
    rw [hnil]
    exact fun h hmem => absurd hmem List.not_mem_nil

/-- Any other failure breaks the promise.

**Proof sketch.** The old connections are dropped, and the new ones have numbers of their own. So
the connections are the old ones only if there were none and are none, and then the flag is cleared
because it was before. -/
lemma AsyncConn.Sound.not_truthful (hs : s.Sound)
    (hgrows : { s with currentServer := some server, connections := [] }.Grows s' more)
    (hharm : ¬ (⟨more.length, s'.connected⟩ : FailedAttempt).Harmless) :
    ¬ (⟨.connect, false, s.connections, s'.connections, s'.connected⟩ :
      ConnectReturn).Truthful := by
  have hconnections : s'.connections = more := hgrows.connections
  intro htruth
  rcases htruth.2 rfl rfl with hsame | ⟨hnil, hflag⟩
  · replace hsame : more = s.connections := hconnections.symm.trans hsame
    rcases more with _ | ⟨h, more⟩
    · refine hharm ⟨rfl, Bool.eq_false_iff.mpr fun hflag => ?_⟩
      exact hs.flag (hgrows.connected hflag) hsame.symm
    · have hnew : s.nextId ≤ h.id := (hgrows.fresh h List.mem_cons_self).1
      have hold := hs.fresh h (hsame ▸ List.mem_cons_self)
      omega
  · replace hnil : more = [] := hconnections.symm.trans hnil
    exact hharm ⟨by simp [hnil], hflag⟩

end Connect

namespace AsyncNet

variable {net : AsyncNet σ} {s : AsyncConn σ}

/-- **A connect** keeps the promise exactly if it succeeds or its failure is harmless.

**Proof sketch.** By `connectLoop_spec` the call opens all connections, at least one, and sets the
flag; or it fails with what has been opened. A harmless failure keeps the state sound; any other is
the event that breaks the promise, and is recorded. -/
lemma settled_connect (hs : s.Settled) (server : Server) : (net.connect server s).2.Settled := by
  obtain ⟨more, hgrows, hresult⟩ := net.connectLoop_spec server net.poolSize
    { s with currentServer := some server, connections := [] }
  unfold connect
  generalize net.connectLoop server net.poolSize
    { s with currentServer := some server, connections := [] } = x at hgrows hresult
  obtain ⟨result, s'⟩ := x
  rcases hresult with ⟨rfl, hlength, hfailures⟩ | ⟨⟨e, rfl⟩, hfailures⟩
  · exact hs.connected hgrows (List.ne_nil_of_length_pos (hlength ▸ net.poolSize_pos)) hfailures
  · replace hfailures : s'.failures = ⟨more.length, s'.connected⟩ :: s.failures := hfailures
    rcases hs with hs | hs
    · by_cases hharm : (⟨more.length, s'.connected⟩ : FailedAttempt).Harmless
      · exact .inl (hs.failed hgrows hfailures hharm)
      · refine .inr ⟨⟨_, List.mem_cons_self, hs.not_truthful hgrows hharm⟩, _, ?_, hharm⟩
        exact (hfailures ▸ List.mem_cons_self : _ ∈ s'.failures)
    · refine .inr (hs.mono ?_ ?_)
      · exact ((hgrows.returns : s'.returns = s.returns) ▸ List.subset_cons_self _ _)
      · exact (hfailures ▸ List.subset_cons_self _ _ : s.failures ⊆ s'.failures)

/-- A connect that succeeds leaves the flag set. -/
lemma connected_of_connect_ok {server : Server} (h : (net.connect server s).1 = .ok true) :
    (net.connect server s).2.connected = true := by
  revert h
  unfold connect
  generalize net.connectLoop server net.poolSize
    { s with currentServer := some server, connections := [] } = x
  rcases x with ⟨_ | _, s'⟩
  · exact fun h => nomatch h
  · exact fun _ => rfl

/-- Connecting to the first server that lets it; the flag is set after a success.

**Proof sketch.** By induction on the servers, with the state left open. Connecting to one keeps the
invariant, and a server that cannot be connected to leaves the rest of the list to be tried. -/
lemma settled_connectFirst (servers : List Server) : ∀ {s : AsyncConn σ}, s.Settled →
    (net.connectFirst servers s).2.Settled ∧
      (∀ b, (net.connectFirst servers s).1 = .ok b →
        (net.connectFirst servers s).2.connected = true) := by
  induction servers with
  | nil => exact fun hs => ⟨hs, fun b h => nomatch h⟩
  | cons server servers ih =>
    intro s hs
    have hconnect : (net.connect server s).2.Settled := settled_connect hs server
    have hflag : (net.connect server s).1 = .ok true → (net.connect server s).2.connected = true :=
      connected_of_connect_ok
    rw [connectFirst]
    generalize net.connect server s = x at hconnect hflag
    rcases x with ⟨_ | _ | _, s'⟩
    · exact ih hconnect
    · exact ih hconnect
    · exact ⟨hconnect, fun _ _ => hflag rfl⟩

/-- **Connecting to any server**: where it succeeds, the flag is set, so a connection is at
hand.

**Proof sketch.** If the flag is set the call returns at once, and what the flag promises holds.
Otherwise the servers are tried in turn, and a success leaves the flag set
(`settled_connectFirst`). -/
lemma settled_connectToAny (hs : s.Settled) : (net.connectToAny s).2.Settled := by
  unfold connectToAny
  split
  · next hflag =>
    exact hs.returned fun hsound => ⟨fun _ => hsound.flag hflag, fun h => nomatch h⟩
  · obtain ⟨hsettled, hflag⟩ : (net.connectFirst (s.currentServer.toList ++ net.defaultServers)
        s).2.Settled ∧
          ∀ b, (net.connectFirst (s.currentServer.toList ++ net.defaultServers) s).1 = .ok b →
            (net.connectFirst (s.currentServer.toList ++ net.defaultServers) s).2.connected =
              true :=
      settled_connectFirst _ hs
    generalize net.connectFirst (s.currentServer.toList ++ net.defaultServers) s = x
      at hsettled hflag
    rcases x with ⟨_ | b, s'⟩
    · exact hsettled.returned fun _ => ⟨fun h => absurd h Bool.false_ne_true, fun h => nomatch h⟩
    · exact hsettled.returned fun hsound =>
        ⟨fun _ => hsound.flag (hflag b rfl), fun h => nomatch h⟩

/-- One try of a request.

**Proof sketch.** A try on no connection changes nothing. Otherwise it moves on to the next
connection, which keeps the invariant, and what other tasks do before and after the request is an
interlude. -/
lemma settled_trySend (hs : s.Settled) (packet : Bytes) :
    (net.trySend packet s).2.Settled := by
  unfold trySend
  split
  · exact hs
  · simp only
    have hnext : { s with nextIdx := s.nextIdx + 1 }.Settled := hs.of_same rfl rfl id rfl rfl
    split
    · exact hnext.interlude _ _
    · split
      · split
        · exact (hnext.interlude _ _).interlude _ _
        · exact (hnext.interlude _ _).interlude _ _
      · exact hnext.interlude _ _

end AsyncNet

namespace AsyncEnv

variable {env : AsyncEnv σ} {P : σ → Prop}

/-- What the tries and the connects of a client keep, its requests keep.

**Proof sketch.** Induction on the tries that are left. Before a try the client connects again if it
has to, which keeps the property, and so does the try. -/
lemma retryLoop_invariant (htry : ∀ packet w, P w → P (env.trySend packet w).2)
    (hconnect : ∀ server w, P w → P (env.connect server w)) (packet : Bytes) (left : ℕ) :
    ∀ (e : TdxError) {w : σ}, P w → P (env.retryLoop packet left e w).2 := by
  induction left with
  | zero => exact fun _ _ hw => hw
  | succ left ih =>
    intro e w hw
    have hdown : P (env.reconnectIfDown w) := by
      unfold reconnectIfDown
      split
      · exact hw
      · split
        · exact hconnect _ _ hw
        · exact hw
    have hsent := htry packet _ hdown
    rw [retryLoop]
    generalize env.trySend packet (env.reconnectIfDown w) = x at hsent
    rcases x with ⟨_ | _, w'⟩
    · exact ih _ hsent
    · exact hsent

/-- What the tries and the connects of a client keep, its requests keep. -/
lemma sendAndRecv_invariant (htry : ∀ packet w, P w → P (env.trySend packet w).2)
    (hconnect : ∀ server w, P w → P (env.connect server w)) (packet : Bytes) {w : σ} (hw : P w) :
    P (env.sendAndRecv packet w).2 := by
  have hsent := htry packet w hw
  unfold sendAndRecv
  generalize env.trySend packet w = x at hsent
  rcases x with ⟨e | _, w'⟩
  · exact retryLoop_invariant htry hconnect packet _ e hsent
  · exact hsent

end AsyncEnv

namespace AsyncNet

variable (net : AsyncNet σ) (env : AsyncEnv (AsyncConn σ))

/-- Every operation keeps the invariant. -/
lemma settled_step {s : AsyncConn σ} (hs : s.Settled) (op : AsyncOp) :
    (net.step env s op).Settled := by
  cases op with
  | connect server => exact settled_connect hs server
  | connectToAny => exact settled_connectToAny hs
  | disconnect => exact hs.disconnect
  | request packet =>
    exact AsyncEnv.sendAndRecv_invariant (P := AsyncConn.Settled)
      (fun packet _ hs => settled_trySend hs packet) (fun server _ hs => settled_connect hs server)
      packet hs
  | tick answered => exact hs.tick answered

/-- Every sequence of operations keeps the invariant. -/
lemma settled_run (ops : List AsyncOp) (w : σ) : (net.run env ops w).Settled := by
  have hnew : (AsyncConn.new w).Settled :=
    .inl ⟨fun h => absurd h Bool.false_ne_true, fun r hr => absurd hr List.not_mem_nil,
      fun f hf => absurd hf List.not_mem_nil, fun h hh => absurd hh List.not_mem_nil⟩
  unfold run
  generalize AsyncConn.new w = s at hnew
  induction ops generalizing s with
  | nil => exact hnew
  | cons op ops ih => exact ih _ (net.settled_step env hnew op)

end AsyncNet

/-- **When the client tells the truth about its connections.** After any sequence of connects,
disconnects, requests and ticks of the heartbeat, whatever the network does: the flag and the
results of connects mean what they are to mean exactly if every attempt to open a connection that
has failed was the first one of its connect, and the flag was cleared at that moment.

**Proof sketch.** Every operation keeps the state settled (`settled_step`): it is sound, or a
failure that was not harmless has been recorded together with the return that it made untrue. So the
promise has been kept throughout a run exactly if no such failure has occurred. -/
theorem connected_truthful_iff (net : AsyncNet σ) (env : AsyncEnv (AsyncConn σ))
    (ops : List AsyncOp) (w : σ) :
    (net.run env ops w).Truthful ↔
      ∀ f ∈ (net.run env ops w).failures, f.position = 0 ∧ f.connected = false :=
  (net.settled_run env ops w).truthful_iff

/-! ## A failed connect of a connected client -/

/-- A network in which one server can be reached, and answers every request with an empty body. -/
def oneServer : AsyncNet Unit where
  poolSize := 4
  poolSize_pos := by decide
  defaultServers := [("59.36.5.11", 7709)]
  connectTask server w :=
    if server = ("59.36.5.11", 7709) then (.ok (), false, w)
    else (.error .connectionTimeout, false, w)
  submit _ _ w := (some (.ok []), false, w)

/-- The client on this network; no stock has corporate actions. -/
def oneServerEnv : AsyncEnv (AsyncConn Unit) where
  trySend := oneServer.trySend
  isConnected := AsyncConn.connected
  currentServer := AsyncConn.currentServer
  connect server s := (oneServer.connect server s).2
  getXdxrInfo _ _ s := (.ok [], s)
  fqContextTier := .mid
  maxValidYear := 2100

/-- **Connected without a connection.** A connected client is told to connect to a server that
cannot be reached: the connect fails, the client has no connection and says that it is connected,
so that connecting to any server does nothing and succeeds. -/
theorem connected_without_connections :
    let s := oneServer.run oneServerEnv
      [.connect ("59.36.5.11", 7709), .connect ("192.0.2.1", 7709)] ()
    s.connected = true ∧ s.connections = [] ∧ ¬ s.Truthful ∧
      (oneServer.connectToAny s).1 = .ok true ∧ (oneServer.connectToAny s).2.connections = [] :=
  ⟨rfl, rfl, fun h => h.1 rfl rfl, rfl, rfl⟩

end Tdxrs
