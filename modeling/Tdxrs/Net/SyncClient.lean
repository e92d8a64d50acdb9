import Tdxrs.Library.TransitionSystem
import Tdxrs.Net.Pool
import Tdxrs.Protocol.Constants

set_option relaxedAutoImplicit false
set_option autoImplicit false

/-!
# Requests of the synchronous client over its connection pool

`TdxHqClient` (`src/net/client.rs`) sends every request through `try_send_and_recv`: it borrows a
connection from the pool, writes the packet, reads one response in chunks, and drops the guard,
which returns the connection to the pool while it is still open (`src/net/connection.rs`,
`src/net/pool.rs`). The heartbeat thread does the same with a probe. New connections, opened by a
borrow, by `connect` or by the heartbeat's reconnect, complete the three setup commands of
`perform_handshake` first (`src/net/utils.rs`).

The file models any number of these activities over one pool as a transition system, each
write, each chunk of a read and each locked step of the pool a step of its own. A server answers
the requests of one TCP stream in order, each with one well-framed response that may depend on
the stream and on all its requests so far; the response's bytes arrive at any later time or
never, which a read sees as a chunk of any size or as a failure.

## Main definitions

* `Tdxrs.TcpConnection` — a stream with its health flag.
* `Tdxrs.Stage`, `Tdxrs.Stage.io` — one activity: dialing, handshake, request, response.
* `Tdxrs.ClientState`, `Tdxrs.ClientEvent`, `Tdxrs.clientStep` — the client over its pool.
* `Tdxrs.Answer.Derived` — a returned body comes from the response to the call's own packet.

## Main results

* `Tdxrs.sync_paired` — after every run the idle connections are at message boundaries, and
  every body that `try_send_and_recv` returned is derived from the response to its packet.
-/

namespace Tdxrs

open Framing

/-! ## A connection and what can happen on it -/

/-- A TCP stream with the health flag of `TcpConnection`. -/
structure TcpConnection where
  /-- Ghost: the number of the stream among all that were dialed. -/
  id : ℕ
  /-- Ghost: the requests the server has received on the stream, oldest first. -/
  received : List Bytes
  /-- The response bytes that the server has sent, or will send, and no read has taken yet. -/
  stream : Bytes
  healthy : Bool
deriving DecidableEq

namespace TcpConnection

/-- A stream that has just been connected. -/
def connected (id : ℕ) : TcpConnection := ⟨id, [], [], true⟩

/-- A request is written completely, and the server answers it. -/
def send (serve : ℕ → List Bytes → Response) (c : TcpConnection) (data : Bytes) :
    TcpConnection :=
  { c with
    received := c.received ++ [data]
    stream := c.stream ++ (serve c.id (c.received ++ [data])).bytes }

/-- A read takes `n` bytes. -/
def recv (c : TcpConnection) (n : ℕ) : TcpConnection := { c with stream := c.stream.drop n }

/-- A write or a read fails. -/
def failed (c : TcpConnection) : TcpConnection := { c with healthy := false }

/-- The health check on a returned connection: no write or read has failed, and no error is
pending on the socket. -/
def isOpen (c : TcpConnection) (pendingError : Bool) : Bool := c.healthy && !pendingError

end TcpConnection

/-- How a read can fail. -/
inductive RecvFailure where
  | io (message : String)
  | eof
deriving DecidableEq, Repr

/-- The error of a failed read. -/
def RecvFailure.err : RecvFailure → TdxError
  | .io message => .connection s!"recv failed: {message}"
  | .eof => .disconnected

/-- What an activity is for: `try_send_and_recv` of a packet, a probe of the heartbeat, or a
connection that is opened outside the pool and then pushed. -/
inductive Purpose where
  | call (packet : Bytes)
  | probe
  | connect
deriving DecidableEq, Repr

/-- The request that the activity sends on its connection. -/
def Purpose.packet : Purpose → Option Bytes
  | .call packet => some packet
  | .probe => some heartbeatPacket
  | .connect => none

/-- How far an activity is. In `greeting` the next setup command is the first of `todo`; in
`greetingRead` the response to the last one is being read; a connection is `ready` after its
handshake or when it was idle, and `returning` when the activity is over and drops its guard. -/
inductive Stage where
  | dialing (id : ℕ)
  | greeting (conn : TcpConnection) (todo : List Bytes)
  | greetingRead (conn : TcpConnection) (todo : List Bytes) (phase : ResponsePhase)
  | ready (conn : TcpConnection)
  | reading (conn : TcpConnection) (phase : ResponsePhase)
  | returning (conn : TcpConnection)

/-- A body returned to a caller. -/
structure Answer where
  body : Bytes
  /-- Ghost: the stream it was read from. -/
  stream : ℕ
  /-- Ghost: the requests the server had received on that stream. -/
  received : List Bytes

/-- What an event makes of an activity: it goes on, it ends before it has a connection to give
back, or it ends with a result and returns its connection. -/
inductive Outcome where
  | stage (stage : Stage)
  | abort (error : TdxError)
  | finish (conn : TcpConnection) (result : Except TdxError Answer)

/-- The network events of an activity. -/
inductive IoEvent where
  | dialed
  | dialFailed (error : TdxError)
  | sent
  | sendFailed (message : String)
  | read (n : ℕ)
  | readFailed (failure : RecvFailure)
deriving DecidableEq, Repr

/-- After a setup command has been answered the next one follows, or the handshake is over. -/
def Stage.afterGreeting (conn : TcpConnection) : List Bytes → Stage
  | [] => .ready conn
  | cmd :: todo => .greeting conn (cmd :: todo)

/-- What the handshake makes of a response: a body whose sizes differ has to decompress. -/
def greetingBody (z : ZlibDecoder) (header : ResponseHeader) (body : Bytes) :
    Except TdxError Unit :=
  if header.zipSize ≠ header.unzipSize then (decompressZlib z body).map fun _ => () else .ok ()

/-- The handshake after a chunk. -/
def Stage.greetingProgress (z : ZlibDecoder) (conn : TcpConnection) (todo : List Bytes) :
    Progress UInt8 ResponseHeader TdxError → Outcome
  | .more phase => .stage (.greetingRead conn todo phase)
  | .received header body =>
    match greetingBody z header body with
    | .ok _ => .stage (.afterGreeting conn todo)
    | .error e => .abort e
  | .rejected e => .abort e

/-- The body of a complete response, with the stream and the requests it answers. -/
def TcpConnection.answer (z : ZlibDecoder) (conn : TcpConnection) (header : ResponseHeader)
    (body : Bytes) : Except TdxError Answer :=
  (responseBody (decompressZlibChecked z · header.unzipSize) header body).map
    fun body => ⟨body, conn.id, conn.received⟩

/-- The request after a chunk of its response. -/
def Stage.progress (z : ZlibDecoder) (conn : TcpConnection) :
    Progress UInt8 ResponseHeader TdxError → Outcome
  | .more phase => .stage (.reading conn phase)
  | .received header body => .finish conn (conn.answer z header body)
  | .rejected e => .finish conn (.error e)

/-- A read of `n` bytes in the given phase is possible: it asks for at least one byte and at
most for what is missing, and the bytes have arrived. -/
def TcpConnection.CanRead (conn : TcpConnection) (phase : ResponsePhase) (n : ℕ) : Prop :=
  0 < n ∧ n ≤ responseFormat.want phase ∧ n ≤ conn.stream.length

instance (conn : TcpConnection) (phase : ResponsePhase) (n : ℕ) :
    Decidable (conn.CanRead phase n) :=
  inferInstanceAs (Decidable (_ ∧ _ ∧ _))

/-- One network event of an activity with the given request. A failure during the handshake
drops the connection; a failure after it marks the connection, which is then returned. -/
def Stage.io (z : ZlibDecoder) (serve : ℕ → List Bytes → Response) (packet : Option Bytes) :
    Stage → IoEvent → Option Outcome
  | .dialing id, .dialed => some (.stage (.greeting (.connected id) setupCmds))
  | .dialing _, .dialFailed e => some (.abort e)
  | .greeting conn (cmd :: todo), .sent =>
    some (.stage (.greetingRead (conn.send serve cmd) todo .start))
  | .greeting _ (_ :: _), .sendFailed message =>
    some (.abort (.connection s!"send failed: {message}"))
  | .greetingRead conn todo phase, .read n =>
    if conn.CanRead phase n then
      some (Stage.greetingProgress z (conn.recv n) todo
        (responseFormat.absorb phase (conn.stream.take n)))
    else none
  | .greetingRead _ _ _, .readFailed failure => some (.abort failure.err)
  | .ready conn, .sent => packet.map fun data => .stage (.reading (conn.send serve data) .start)
  | .ready conn, .sendFailed message =>
    packet.map fun _ => .finish conn.failed (.error (.connection s!"send failed: {message}"))
  | .reading conn phase, .read n =>
    if conn.CanRead phase n then
      some (Stage.progress z (conn.recv n) (responseFormat.absorb phase (conn.stream.take n)))
    else none
  | .reading conn _, .readFailed failure => some (.finish conn.failed (.error failure.err))
  | _, _ => none

/-! ## The client over its pool -/

/-- An activity: what it is for, the server of its connection, and how far it is. -/
structure Session where
  purpose : Purpose
  server : Server
  stage : Stage

/-- What a call of `try_send_and_recv` returned. -/
structure CallResult where
  packet : Bytes
  result : Except TdxError Answer

/-- The pool, the activities under way and the results returned so far. -/
structure ClientState where
  pool : PoolInner TcpConnection
  sessions : List Session
  results : List CallResult
  /-- Ghost: how many streams have been dialed. -/
  dialed : ℕ

/-- A client that has not connected yet. -/
def ClientState.init : ClientState := ⟨.new, [], [], 0⟩

/-- The steps of the client's threads, in any interleaving. A call or a probe starts with the
locked step of its borrow, and `connect` with a dial outside the pool; `io i` is a network event
of the `i`-th activity, `push i` puts its new connection into the pool, and `drop i` drops its
guard while an error may be pending on the socket. -/
inductive ClientEvent where
  | call (packet : Bytes) (server : Server)
  | probe (server : Server)
  | connect (server : Server)
  | io (i : ℕ) (event : IoEvent)
  | push (i : ℕ)
  | drop (i : ℕ) (pendingError : Bool)
  | closeAll
deriving DecidableEq, Repr

namespace ClientState

/-- An activity begins, with a connection or by dialing one. -/
def start (s : ClientState) (purpose : Purpose) (server : Server) (stage : Stage) : ClientState :=
  { s with sessions := s.sessions ++ [⟨purpose, server, stage⟩] }

/-- An activity goes on with the lease of its borrow. -/
def enter (s : ClientState) (purpose : Purpose) : Lease TcpConnection → ClientState
  | .reused pooled => s.start purpose pooled.server (.ready pooled.conn)
  | .connect server =>
    { s with dialed := s.dialed + 1 }.start purpose server (.dialing s.dialed)

/-- A call returns. -/
def deliver (s : ClientState) (purpose : Purpose) (result : Except TdxError Answer) :
    ClientState :=
  match purpose with
  | .call packet => { s with results := s.results ++ [⟨packet, result⟩] }
  | _ => s

/-- An activity ends before it has a connection: a borrow gives its reservation back. -/
def abort (s : ClientState) (purpose : Purpose) (e : TdxError) : ClientState :=
  match purpose with
  | .connect => s
  | _ => { s with pool := s.pool.connectFailed }.deliver purpose (.error e)

/-- The `i`-th activity `x` after an event. -/
def apply (s : ClientState) (i : ℕ) (x : Session) : Outcome → ClientState
  | .stage stage => { s with sessions := s.sessions.set i { x with stage } }
  | .abort e => { s with sessions := s.sessions.eraseIdx i }.abort x.purpose e
  | .finish conn result =>
    { s with sessions := s.sessions.set i { x with stage := .returning conn } }.deliver
      x.purpose result

end ClientState

/-- One step of the client. -/
def clientStep (maxSize : ℕ) (z : ZlibDecoder) (serve : ℕ → List Bytes → Response)
    (s : ClientState) : ClientEvent → Option ClientState
  | .call packet server =>
    match s.pool.borrow maxSize server with
    | (pool, .ok lease) => some ({ s with pool }.enter (.call packet) lease)
    | (pool, .error e) => some ({ s with pool }.deliver (.call packet) (.error e))
  | .probe server =>
    match s.pool.tryBorrow maxSize server with
    | (pool, some lease) => some ({ s with pool }.enter .probe lease)
    | (pool, none) => some { s with pool }
  | .connect server => some (s.enter .connect (.connect server))
  | .io i event =>
    match s.sessions[i]? with
    | none => none
    | some x => (x.stage.io z serve x.purpose.packet event).map (s.apply i x)
  | .push i =>
    match s.sessions[i]? with
    | some ⟨.connect, server, .ready conn⟩ =>
      some { s with pool := s.pool.push conn server, sessions := s.sessions.eraseIdx i }
    | _ => none
  | .drop i pendingError =>
    match s.sessions[i]? with
    | some ⟨_, server, .returning conn⟩ =>
      some { s with
        pool := s.pool.returnConnection maxSize ⟨conn, server⟩ (conn.isOpen pendingError)
        sessions := s.sessions.eraseIdx i }
    | _ => none
  | .closeAll => some { s with pool := s.pool.closeAll }

/-! ## Message boundaries -/

variable {maxSize : ℕ} {z : ZlibDecoder} {serve : ℕ → List Bytes → Response}

/-- No response byte of an earlier request is unread or in flight on the connection. -/
def TcpConnection.AtBoundary (c : TcpConnection) : Prop := c.stream = []

/-- The connection is inside the response to its last request. -/
def TcpConnection.Awaits (serve : ℕ → List Bytes → Response) (c : TcpConnection)
    (phase : ResponsePhase) : Prop :=
  Expects (serve c.id c.received) c.stream phase

/-- An answer is derived from the response to the packet: the packet is the last request that
the server had received on the stream, and the body is what its response decodes to. -/
def Answer.Derived (z : ZlibDecoder) (serve : ℕ → List Bytes → Response) (packet : Bytes)
    (a : Answer) : Prop :=
  (∃ earlier, a.received = earlier ++ [packet]) ∧
    let response := serve a.stream a.received
    responseBody (decompressZlibChecked z · response.header.unzipSize) response.header
      response.body = .ok a.body

/-- Where an activity stands on its stream. A connection that is returned may have been left
inside a response only if it is no longer healthy. -/
def Stage.Aligned (serve : ℕ → List Bytes → Response) (packet : Option Bytes) : Stage → Prop
  | .dialing _ => True
  | .greeting conn _ => conn.AtBoundary
  | .greetingRead conn _ phase => conn.Awaits serve phase
  | .ready conn => conn.AtBoundary
  | .reading conn phase =>
    conn.Awaits serve phase ∧ ∀ data ∈ packet, ∃ earlier, conn.received = earlier ++ [data]
  | .returning conn => conn.healthy → conn.AtBoundary

/-- The outcome of an event leaves the stream aligned, and its answer is derived. -/
def Outcome.Aligned (z : ZlibDecoder) (serve : ℕ → List Bytes → Response)
    (packet : Option Bytes) : Outcome → Prop
  | .stage st => st.Aligned serve packet
  | .abort _ => True
  | .finish conn result =>
    (conn.healthy → conn.AtBoundary) ∧
      ∀ a, result = .ok a → ∀ data ∈ packet, a.Derived z serve data

/-- A request that is written at a message boundary is awaited from the start. -/
lemma TcpConnection.AtBoundary.send {c : TcpConnection} (h : c.AtBoundary) (data : Bytes) :
    (c.send serve data).Awaits serve .start := by
  simp only [TcpConnection.Awaits, TcpConnection.send, h.symm ▸ List.nil_append _]
  exact expects_start (by decide) _

/-- A chunk of an awaited response leaves the connection awaiting the rest of it, or completes
it and leaves the connection at a message boundary. -/
lemma TcpConnection.Awaits.recv {c : TcpConnection} {phase : ResponsePhase} {n : ℕ}
    (h : c.Awaits serve phase) (hn : c.CanRead phase n) :
    (∃ phase', responseFormat.absorb phase (c.stream.take n) = .more phase' ∧
        (c.recv n).Awaits serve phase') ∨
      (responseFormat.absorb phase (c.stream.take n) =
          .received (serve c.id c.received).header (serve c.id c.received).body ∧
        (c.recv n).AtBoundary) := by
  have htake : (c.stream.take n).length ≤ responseFormat.want phase :=
    (List.length_take_le n _).trans hn.2.1
  rw [TcpConnection.Awaits, ← List.take_append_drop n c.stream] at h
  exact absorb_expects h htake

/-- After a setup command has been answered the connection is at a message boundary. -/
lemma Stage.aligned_afterGreeting {conn : TcpConnection} {packet : Option Bytes}
    (h : conn.AtBoundary) (todo : List Bytes) :
    (Stage.afterGreeting conn todo).Aligned serve packet := by
  cases todo with
  | nil => exact h
  | cons cmd todo => exact h

/-- The body of the awaited response is an answer derived from it. -/
lemma TcpConnection.derived_answer (conn : TcpConnection) {a : Answer} {data : Bytes}
    (hdata : ∃ earlier, conn.received = earlier ++ [data])
    (ha : conn.answer z (serve conn.id conn.received).header (serve conn.id conn.received).body =
      .ok a) : a.Derived z serve data := by
  unfold TcpConnection.answer at ha
  generalize hb : responseBody _ _ _ = r at ha
  cases r with
  | error e => cases ha
  | ok body =>
    obtain rfl := Except.ok.inj ha
    exact ⟨hdata, hb⟩

/-- **Step lemma of an activity.** A network event keeps the activity aligned with its stream.

**Proof sketch.** Requests are written at message boundaries (`AtBoundary.send`); a chunk leaves
the activity inside the response or at its end (`Awaits.recv`), where the whole response has been
read; a failure after the handshake clears the health flag, and one before it drops the
connection. -/
theorem Stage.Aligned.io {stage : Stage} {packet : Option Bytes} {event : IoEvent}
    {outcome : Outcome} (h : stage.Aligned serve packet)
    (hs : stage.io z serve packet event = some outcome) : outcome.Aligned z serve packet := by
  unfold Stage.io at hs
  split at hs
  · obtain rfl := Option.some.inj hs
    exact (rfl : (TcpConnection.connected _).AtBoundary)
  · obtain rfl := Option.some.inj hs
    trivial
  · obtain rfl := Option.some.inj hs
    exact TcpConnection.AtBoundary.send h _
  · obtain rfl := Option.some.inj hs
    trivial
  · rename_i conn todo phase n
    split at hs
    · rename_i hn
      obtain rfl := Option.some.inj hs
      rcases TcpConnection.Awaits.recv h hn with ⟨phase', habs, hrest⟩ | ⟨habs, hbound⟩
      · rw [habs]
        exact hrest
      · rw [habs]
        simp only [Stage.greetingProgress]
        split
        · exact Stage.aligned_afterGreeting hbound todo
        · trivial
    · cases hs
  · obtain rfl := Option.some.inj hs
    trivial
  · rename_i conn
    obtain ⟨data, rfl, rfl⟩ := Option.map_eq_some_iff.mp hs
    refine ⟨TcpConnection.AtBoundary.send h data, fun d hd => ?_⟩
    obtain rfl := Option.some.inj hd
    exact ⟨conn.received, rfl⟩
  · obtain ⟨data, rfl, rfl⟩ := Option.map_eq_some_iff.mp hs
    exact ⟨fun hf => (nomatch hf), fun a ha => (nomatch ha)⟩
  · rename_i conn phase n
    obtain ⟨hawait, hlast⟩ := h
    split at hs
    · rename_i hn
      obtain rfl := Option.some.inj hs
      rcases hawait.recv hn with ⟨phase', habs, hrest⟩ | ⟨habs, hbound⟩
      · rw [habs]
        exact ⟨hrest, hlast⟩
      · rw [habs]
        exact ⟨fun _ => hbound, fun a ha data hd =>
          (conn.recv n).derived_answer (hlast data hd) ha⟩
    · cases hs
  · obtain rfl := Option.some.inj hs
    exact ⟨fun hf => (nomatch hf), fun a ha => (nomatch ha)⟩
  · cases hs

/-! ## The invariant of the client -/

/-- Idle connections are at message boundaries, every activity is aligned with its stream, and
every answer returned is derived. -/
structure ClientState.Inv (z : ZlibDecoder) (serve : ℕ → List Bytes → Response)
    (s : ClientState) : Prop where
  idle : ∀ c ∈ s.pool.idle, c.conn.AtBoundary
  sessions : ∀ x ∈ s.sessions, x.stage.Aligned serve x.purpose.packet
  results : ∀ r ∈ s.results, ∀ a, r.result = .ok a → a.Derived z serve r.packet

namespace ClientState

/-- An activity that begins aligned keeps the invariant. -/
lemma Inv.start {s : ClientState} (h : s.Inv z serve) {purpose : Purpose} (server : Server)
    (stage : Stage) (hstage : stage.Aligned serve purpose.packet) :
    (s.start purpose server stage).Inv z serve := by
  refine ⟨h.idle, fun x hx => ?_, h.results⟩
  rcases List.mem_append.mp hx with hx | hx
  · exact h.sessions x hx
  · obtain rfl := List.mem_singleton.mp hx
    exact hstage

/-- A call that returns an error, or a derived answer, keeps the invariant. -/
lemma Inv.deliver {s : ClientState} (h : s.Inv z serve) {purpose : Purpose}
    {result : Except TdxError Answer}
    (hr : ∀ a, result = .ok a → ∀ data ∈ purpose.packet, a.Derived z serve data) :
    (s.deliver purpose result).Inv z serve := by
  cases purpose with
  | call packet =>
    refine ⟨h.idle, h.sessions, fun r hmem a ha => ?_⟩
    rcases List.mem_append.mp hmem with hmem | hmem
    · exact h.results r hmem a ha
    · obtain rfl := List.mem_singleton.mp hmem
      exact hr a ha packet rfl
  | probe => exact h
  | connect => exact h

/-- A pool whose idle connections were idle before keeps the invariant. -/
lemma Inv.shrink {s : ClientState} (h : s.Inv z serve) (pool : PoolInner TcpConnection)
    (hpool : ∀ c ∈ pool.idle, c ∈ s.pool.idle) : ({ s with pool } : ClientState).Inv z serve :=
  ⟨fun c hc => h.idle c (hpool c hc), h.sessions, h.results⟩

/-- Activities that end keep the invariant. -/
lemma Inv.erase {s : ClientState} (h : s.Inv z serve) (i : ℕ) :
    ({ s with sessions := s.sessions.eraseIdx i } : ClientState).Inv z serve :=
  ⟨h.idle, fun x hx => h.sessions x (List.mem_of_mem_eraseIdx hx), h.results⟩

/-- An activity that stays aligned keeps the invariant. -/
lemma Inv.set {s : ClientState} (h : s.Inv z serve) (i : ℕ) {x : Session}
    (hx : x.stage.Aligned serve x.purpose.packet) :
    ({ s with sessions := s.sessions.set i x } : ClientState).Inv z serve := by
  refine ⟨h.idle, fun y hy => ?_, h.results⟩
  rcases List.mem_or_eq_of_mem_set hy with hy | rfl
  · exact h.sessions y hy
  · exact hx

/-- An activity that dials a new stream keeps the invariant. -/
lemma Inv.dial {s : ClientState} (h : s.Inv z serve) (purpose : Purpose) (server : Server) :
    (s.enter purpose (.connect server)).Inv z serve :=
  Inv.start (s := { s with dialed := s.dialed + 1 }) ⟨h.idle, h.sessions, h.results⟩ server
    (.dialing s.dialed) trivial

/-- A lease brings an idle connection, which is at a message boundary, or none yet. -/
lemma Inv.enter {s : ClientState} {maxSize : ℕ} (h : s.Inv z serve) {server : Server}
    {pool : PoolInner TcpConnection} {lease : Lease TcpConnection}
    (hp : s.pool.acquire maxSize server = (pool, some lease)) (purpose : Purpose) :
    (({ s with pool } : ClientState).enter purpose lease).Inv z serve := by
  obtain ⟨hsub, hreused⟩ := PoolInner.acquire_idle hp
  cases lease with
  | reused c =>
    have hbound : (Stage.ready c.conn).Aligned serve purpose.packet :=
      h.idle c (hreused c rfl).1
    exact (h.shrink pool hsub).start c.server (.ready c.conn) hbound
  | connect srv => exact (h.shrink pool hsub).dial purpose srv

/-- The outcome of an event keeps the invariant.

**Proof sketch.** By the outcome. A new stage keeps the session aligned; a failure takes the session
away and has no answer to account for; a result is delivered after the connection is given back. -/
lemma Inv.apply {s : ClientState} (h : s.Inv z serve) (i : ℕ) {x : Session} {outcome : Outcome}
    (ho : outcome.Aligned z serve x.purpose.packet) : (s.apply i x outcome).Inv z serve := by
  cases outcome with
  | stage st => exact h.set i ho
  | abort e =>
    have herr : ∀ a, (.error e : Except TdxError Answer) = .ok a →
        ∀ data ∈ x.purpose.packet, a.Derived z serve data := fun a ha => (nomatch ha)
    have herase := h.erase i
    simp only [ClientState.apply, ClientState.abort]
    split
    · exact herase
    · exact (herase.shrink s.pool.connectFailed fun c hc => hc).deliver herr
  | finish conn result =>
    exact (h.set i (x := { x with stage := .returning conn }) ho.1).deliver ho.2

/-- **Step lemma of the client.** Every step of every activity keeps the invariant.

**Proof sketch.** A borrow hands out an idle connection or reserves a slot (`Inv.enter`); a
network event keeps its activity aligned (`Stage.Aligned.io`); a connection that is pushed has
just completed its handshake; and a guard that is dropped returns its connection to the idle
queue only when it is still healthy, hence at a message boundary. -/
lemma Inv.step (s : ClientState) (e : ClientEvent) (s' : ClientState) (h : s.Inv z serve)
    (hs : clientStep maxSize z serve s e = some s') : s'.Inv z serve := by
  cases e with
  | call packet server =>
    have hacq := PoolInner.borrow_eq_acquire maxSize s.pool server
    simp only [clientStep] at hs
    split at hs
    · rename_i pool lease hb
      obtain rfl := Option.some.inj hs
      rw [hb] at hacq
      exact h.enter hacq.symm _
    · rename_i pool e hb
      obtain rfl := Option.some.inj hs
      rw [hb] at hacq
      exact (h.shrink pool (PoolInner.acquire_idle hacq.symm).1).deliver fun a ha => (nomatch ha)
  | probe server =>
    simp only [clientStep] at hs
    split at hs
    · rename_i pool lease hb
      obtain rfl := Option.some.inj hs
      exact h.enter hb _
    · rename_i pool hb
      obtain rfl := Option.some.inj hs
      exact h.shrink pool (PoolInner.acquire_idle hb).1
  | connect server =>
    obtain rfl := Option.some.inj hs
    exact h.dial _ server
  | io i event =>
    simp only [clientStep] at hs
    split at hs
    · cases hs
    · rename_i x hx
      obtain ⟨outcome, ho, rfl⟩ := Option.map_eq_some_iff.mp hs
      exact h.apply i ((h.sessions x (List.mem_of_getElem? hx)).io ho)
  | push i =>
    simp only [clientStep] at hs
    split at hs
    · rename_i server conn hx
      obtain rfl := Option.some.inj hs
      have hbound : conn.AtBoundary := h.sessions _ (List.mem_of_getElem? hx)
      refine ⟨fun c hc => ?_, (h.erase i).sessions, h.results⟩
      rcases List.mem_append.mp hc with hc | hc
      · exact h.idle c hc
      · obtain rfl := List.mem_singleton.mp hc
        exact hbound
    · cases hs
  | drop i pendingError =>
    simp only [clientStep] at hs
    split at hs
    · rename_i purpose server conn hx
      obtain rfl := Option.some.inj hs
      have hbound : conn.healthy → conn.AtBoundary := h.sessions _ (List.mem_of_getElem? hx)
      refine ⟨fun c hc => ?_, (h.erase i).sessions, h.results⟩
      rcases PoolInner.returnConnection_idle hc with hc | ⟨rfl, hopen⟩
      · exact h.idle c hc
      · simp only [TcpConnection.isOpen, Bool.and_eq_true] at hopen
        exact hbound hopen.1
    · cases hs
  | closeAll =>
    obtain rfl := Option.some.inj hs
    exact h.shrink s.pool.closeAll fun c hc => by simp at hc

/-- A client that has not connected yet. -/
lemma inv_init : ClientState.init.Inv z serve :=
  ⟨fun _ hc => absurd hc List.not_mem_nil, fun _ hx => absurd hx List.not_mem_nil,
    fun _ hr => absurd hr List.not_mem_nil⟩

end ClientState

/-- **Request and response are paired.** After every run of calls, heartbeat probes and
connects over the pool, whatever fails and however the responses are cut and delayed, every idle
connection is at a message boundary, and every body that `try_send_and_recv` returned is derived
from the server's response to the packet of that call.

**Proof sketch.** The invariant says of every connection in the pool that nothing is unread on it,
and of every call under way at which place of its own answer its connection is. `Inv.step` keeps it,
one case for each kind of event, and a result is recorded only when its answer has been read to the
end. -/
theorem sync_paired (maxSize : ℕ) (z : ZlibDecoder) (serve : ℕ → List Bytes → Response)
    (es : List ClientEvent) (s : ClientState)
    (hrun : Transition.run (clientStep maxSize z serve) .init es = some s) :
    (∀ c ∈ s.pool.idle, c.conn.AtBoundary) ∧
      ∀ r ∈ s.results, ∀ a, r.result = .ok a → a.Derived z serve r.packet := by
  have h := Transition.run_invariant ClientState.Inv.step ClientState.inv_init hrun
  exact ⟨h.idle, h.results⟩

lemma length_counting_lt (history : List Bytes) : [UInt8.ofNat history.length].length < 65536 := by
  simp

/-- A server that answers the `k`-th request of each stream with the single byte `k`. -/
def countingStreams (_ : ℕ) (history : List Bytes) : Response :=
  plainResponse [UInt8.ofNat history.length] (length_counting_lt history)

/-- The whole response of `countingStreams` to one request, in two chunks. -/
def exchange (i : ℕ) : List ClientEvent := [.io i .sent, .io i (.read 16), .io i (.read 1)]

/-- A client connects and makes a call; the response to a second call does not come in time,
so that its connection is not reused, and a third call dials a new one. -/
def callsRun : List ClientEvent :=
  [.connect ("a", 7709), .io 0 .dialed] ++ exchange 0 ++ exchange 0 ++ exchange 0 ++ [.push 0] ++
    [.call [10] ("a", 7709)] ++ exchange 0 ++ [.drop 0 false] ++
    [.call [20] ("a", 7709), .io 0 .sent, .io 0 (.readFailed (.io "timed out")), .drop 0 false] ++
    [.call [30] ("a", 7709), .io 0 .dialed] ++ exchange 0 ++ exchange 0 ++ exchange 0 ++
    exchange 0 ++ [.drop 0 false]

/-- The results of `callsRun`: the fourth request of the first stream, a timeout, and the fourth
request of the second stream. -/
theorem sync_paired_three_calls :
    ∃ s, Transition.run (clientStep 5 (fun _ _ => .error "") countingStreams) .init callsRun
        = some s ∧
      s.pool.idle.length = 1 ∧
      s.results.map (fun r => (r.packet, r.result.toOption.map Answer.body)) =
        [([10], some [4]), ([20], none), ([30], some [4])] ∧
      (∀ c ∈ s.pool.idle, c.conn.AtBoundary) ∧
      ∀ r ∈ s.results, ∀ a, r.result = .ok a →
        a.Derived (fun _ _ => .error "") countingStreams r.packet :=
  ⟨_, rfl, rfl, rfl, sync_paired 5 _ _ callsRun _ rfl⟩

end Tdxrs
