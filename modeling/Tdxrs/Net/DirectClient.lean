import Mathlib.Data.List.Perm.Basic
import Tdxrs.Net.SyncClient

set_option relaxedAutoImplicit false
set_option autoImplicit false

/-!
# Requests without a pool

`TdxDirectClient` (`src/net/direct_client.rs`) has no pool: for every request it dials a new
connection, completes the setup commands on it, writes the packet, reads one response and drops the
connection. Any number of threads may make requests at the same time, and the address may change in
between.

What a connection can do, and how a server answers the requests of one stream, is as in
`Tdxrs.Net.SyncClient`: each write and each chunk of a read is a step, and responses may depend on
the stream and on all requests that came over it. The one difference in a request is that the
declared length of a body does not bound its decompression.

## Main definitions

* `Tdxrs.Stage.directIo` — a network event of a request.
* `Tdxrs.DirectClient`, `Tdxrs.directStep` — the client and its steps.
* `Tdxrs.directAnswer` — what a request gets over a stream of its own.

## Main results

* `Tdxrs.direct_requests_isolated` — requests do not get in each other's way.
-/

namespace Tdxrs

open Framing

/-! ## A request -/

/-- The request after a chunk of its response. -/
def Stage.directProgress (z : ZlibDecoder) (conn : TcpConnection) :
    Progress UInt8 ResponseHeader TdxError → Outcome
  | .more phase => .stage (.reading conn phase)
  | .received header body =>
    .finish conn ((responseBody (decompressZlib z) header body).map fun body =>
      ⟨body, conn.id, conn.received⟩)
  | .rejected e => .finish conn (.error e)

/-- One network event of a request. All but the chunks of its own response are those of a request
over the pool. -/
def Stage.directIo (z : ZlibDecoder) (serve : ℕ → List Bytes → Response) (packet : Bytes) :
    Stage → IoEvent → Option Outcome
  | .reading conn phase, .read n =>
    if conn.CanRead phase n then
      some (Stage.directProgress z (conn.recv n)
        (responseFormat.absorb phase (conn.stream.take n)))
    else none
  | stage, event => stage.io z serve (some packet) event

/-- A request under way. -/
structure DirectSession where
  /-- Ghost: the number of the stream that is dialed for it. -/
  id : ℕ
  packet : Bytes
  server : Server
  stage : Stage

/-- What a request returned. -/
structure DirectResult where
  /-- Ghost: the number of its stream. -/
  id : ℕ
  packet : Bytes
  server : Server
  result : Except TdxError Bytes

/-! ## The client -/

/-- The address, the requests under way and the results returned so far. -/
structure DirectClient where
  server : Server
  sessions : List DirectSession
  results : List DirectResult
  /-- Ghost: all requests that have been made, each with the address at that time. -/
  requests : List (Bytes × Server)

/-- The steps of the client's threads, in any interleaving; `io i` is a network event of the `i`-th
request under way. -/
inductive DirectEvent where
  | setServer (server : Server)
  | sendAndRecv (packet : Bytes)
  | io (i : ℕ) (event : IoEvent)
deriving DecidableEq, Repr

namespace DirectClient

/-- A new client for a server. -/
def new (server : Server) : DirectClient := ⟨server, [], [], []⟩

/-- A request begins: the address is read, and a stream is dialed. -/
def begin (s : DirectClient) (packet : Bytes) : DirectClient :=
  let id := s.requests.length
  { s with
    sessions := s.sessions ++ [⟨id, packet, s.server, .dialing id⟩]
    requests := s.requests ++ [(packet, s.server)] }

/-- The `i`-th request `x` returns, and its connection is closed. -/
def deliver (s : DirectClient) (i : ℕ) (x : DirectSession) (result : Except TdxError Bytes) :
    DirectClient :=
  { s with
    sessions := s.sessions.eraseIdx i
    results := s.results ++ [⟨x.id, x.packet, x.server, result⟩] }

/-- The `i`-th request `x` after an event. -/
def apply (s : DirectClient) (i : ℕ) (x : DirectSession) : Outcome → DirectClient
  | .stage stage => { s with sessions := s.sessions.set i { x with stage } }
  | .abort e => s.deliver i x (.error e)
  | .finish _ result => s.deliver i x (result.map Answer.body)

end DirectClient

/-- One step of the client. -/
def directStep (z : ZlibDecoder) (serve : ℕ → List Bytes → Response) (s : DirectClient) :
    DirectEvent → Option DirectClient
  | .setServer server => some { s with server }
  | .sendAndRecv packet => some (s.begin packet)
  | .io i event =>
    match s.sessions[i]? with
    | none => none
    | some x => (x.stage.directIo z serve x.packet event).map (s.apply i x)

/-! ## Requests on their own -/

variable {z : ZlibDecoder} {serve : ℕ → List Bytes → Response}

/-- What a request gets over a stream on which there has been nothing before but the setup. -/
def directAnswer (z : ZlibDecoder) (serve : ℕ → List Bytes → Response) (id : ℕ) (packet : Bytes) :
    Except TdxError Bytes :=
  let response := serve id (setupCmds ++ [packet])
  responseBody (decompressZlib z) response.header response.body

/-- A request on the stream `id`, which has seen nothing else. -/
def Stage.Alone (serve : ℕ → List Bytes → Response) (packet : Bytes) (id : ℕ) : Stage → Prop
  | .dialing k => k = id
  | .greeting conn todo => conn.id = id ∧ conn.AtBoundary ∧ conn.received ++ todo = setupCmds
  | .greetingRead conn todo phase =>
    conn.id = id ∧ conn.Awaits serve phase ∧ conn.received ++ todo = setupCmds
  | .ready conn => conn.id = id ∧ conn.AtBoundary ∧ conn.received = setupCmds
  | .reading conn phase =>
    conn.id = id ∧ conn.Awaits serve phase ∧ conn.received = setupCmds ++ [packet]
  | .returning _ => False

/-- The outcome of an event leaves a request on its own, and its body is the answer. -/
def Outcome.Alone (z : ZlibDecoder) (serve : ℕ → List Bytes → Response) (packet : Bytes) (id : ℕ) :
    Outcome → Prop
  | .stage st => st.Alone serve packet id
  | .abort _ => True
  | .finish _ result => ∀ a, result = .ok a → directAnswer z serve id packet = .ok a.body

lemma exists_of_map_eq_ok {ε α β : Type} {f : α → β} {r : Except ε α} {b : β}
    (h : r.map f = .ok b) : ∃ a, r = .ok a ∧ f a = b := by
  cases r with
  | error e => cases h
  | ok a => exact ⟨a, rfl, Except.ok.inj h⟩

/-- After a setup command has been answered the next one follows, or all have been sent. -/
lemma Stage.alone_afterGreeting {conn : TcpConnection} {todo : List Bytes} {packet : Bytes} {id : ℕ}
    (hid : conn.id = id) (hbound : conn.AtBoundary) (hsent : conn.received ++ todo = setupCmds) :
    (Stage.afterGreeting conn todo).Alone serve packet id := by
  cases todo with
  | nil => exact ⟨hid, hbound, (List.append_nil _).symm.trans hsent⟩
  | cons cmd todo => exact ⟨hid, hbound, hsent⟩

/-- **Step lemma of a request.** A network event leaves it on its own.

**Proof sketch.** The stream begins empty, and each setup command is written when the one before has
been answered completely; so when the packet is written, only its response can come. Failures end
the request. -/
theorem Stage.Alone.directIo {stage : Stage} {packet : Bytes} {id : ℕ} {event : IoEvent}
    {outcome : Outcome} (h : stage.Alone serve packet id)
    (hs : stage.directIo z serve packet event = some outcome) :
    outcome.Alone z serve packet id := by
  unfold Stage.directIo at hs
  split at hs
  · rename_i conn phase n
    obtain ⟨rfl, hawait, hreceived⟩ := h
    obtain ⟨hn, hs⟩ := Option.ite_none_right_eq_some.mp hs
    obtain rfl := Option.some.inj hs
    rcases hawait.recv hn with ⟨phase', habs, hrest⟩ | ⟨habs, -⟩
    · rw [habs]
      exact ⟨rfl, hrest, hreceived⟩
    · rw [habs]
      intro (a : Answer) ha
      obtain ⟨body, hbody, rfl⟩ := exists_of_map_eq_ok ha
      rw [directAnswer, ← hreceived]
      exact hbody
  · rename_i hother
    unfold Stage.io at hs
    split at hs
    · obtain rfl := Option.some.inj hs
      exact ⟨h, rfl, rfl⟩
    · obtain rfl := Option.some.inj hs
      trivial
    · rename_i conn cmd todo
      obtain rfl := Option.some.inj hs
      obtain ⟨hid, hbound, hsent⟩ := h
      exact ⟨hid, hbound.send cmd, (List.append_assoc _ _ _).trans hsent⟩
    · obtain rfl := Option.some.inj hs
      trivial
    · rename_i conn todo phase n
      obtain ⟨hid, hawait, hsent⟩ := h
      obtain ⟨hn, hs⟩ := Option.ite_none_right_eq_some.mp hs
      obtain rfl := Option.some.inj hs
      rcases hawait.recv hn with ⟨phase', habs, hrest⟩ | ⟨habs, hbound⟩
      · rw [habs]
        exact ⟨hid, hrest, hsent⟩
      · rw [habs]
        simp only [Stage.greetingProgress]
        split
        · exact Stage.alone_afterGreeting hid hbound hsent
        · trivial
    · obtain rfl := Option.some.inj hs
      trivial
    · rename_i conn
      obtain ⟨hid, hbound, hreceived⟩ := h
      obtain rfl := Option.some.inj hs
      exact ⟨hid, hbound.send packet, congrArg (· ++ [packet]) hreceived⟩
    · obtain rfl := Option.some.inj hs
      intro (a : Answer) ha
      cases ha
    · rename_i conn phase n
      exact absurd rfl (hother conn phase n rfl)
    · obtain rfl := Option.some.inj hs
      intro (a : Answer) ha
      cases ha
    · cases hs

/-! ## The client -/

/-- Every request is under way or has returned; a request under way is on its own on its stream;
and a body that was returned is the answer over the stream of the request. -/
structure DirectClient.Inv (z : ZlibDecoder) (serve : ℕ → List Bytes → Response)
    (s : DirectClient) : Prop where
  streams : (s.sessions.map DirectSession.id ++ s.results.map DirectResult.id).Perm
    (List.range s.requests.length)
  sessions : ∀ x ∈ s.sessions,
    s.requests[x.id]? = some (x.packet, x.server) ∧ x.stage.Alone serve x.packet x.id
  results : ∀ r ∈ s.results, s.requests[r.id]? = some (r.packet, r.server) ∧
    ∀ body, r.result = .ok body → directAnswer z serve r.id r.packet = .ok body

namespace DirectClient

variable {s : DirectClient}

/-- A request that begins has a new stream.

**Proof sketch.** The new stream is the number of requests so far, so the streams are again each
number once. The new session is that of the request added last, and all earlier requests are where
they were. -/
lemma Inv.begin (h : s.Inv z serve) (packet : Bytes) : (s.begin packet).Inv z serve := by
  have hold {k : ℕ} {request : Bytes × Server} (hk : s.requests[k]? = some request) :
      (s.requests ++ [(packet, s.server)])[k]? = some request := by
    rw [List.getElem?_append_left (List.getElem?_eq_some_iff.mp hk).1, hk]
  refine ⟨?_, fun x hx => ?_, fun r hr => ⟨hold (h.results r hr).1, (h.results r hr).2⟩⟩
  · show (List.map _ (s.sessions ++ [_]) ++ _).Perm (List.range (s.requests ++ [_]).length)
    rw [List.map_append, List.append_assoc, List.length_append, List.length_singleton,
      List.range_succ]
    exact (List.perm_append_comm_assoc _ _ _).trans
      (List.perm_append_comm.trans (h.streams.append_right _))
  · rcases List.mem_append.mp hx with hx | hx
    · exact ⟨hold (h.sessions x hx).1, (h.sessions x hx).2⟩
    · obtain rfl := List.mem_singleton.mp hx
      exact ⟨List.getElem?_concat_length, rfl⟩

/-- A request that returns moves from those under way to the results.

**Proof sketch.** The stream is taken from the sessions and put behind those of the results, so all
streams together are a permutation of what they were. The other sessions and the earlier results are
as before. -/
lemma Inv.deliver (h : s.Inv z serve) {i : ℕ} {x : DirectSession} (hx : s.sessions[i]? = some x)
    {result : Except TdxError Bytes}
    (hresult : ∀ body, result = .ok body → directAnswer z serve x.id x.packet = .ok body) :
    (s.deliver i x result).Inv z serve := by
  have hmem : x ∈ s.sessions := List.mem_of_getElem? hx
  refine ⟨?_, fun y hy => h.sessions y (List.mem_of_mem_eraseIdx hy), fun r hr => ?_⟩
  · obtain ⟨hi, rfl⟩ := List.getElem?_eq_some_iff.mp hx
    have hperm := ((List.getElem_cons_eraseIdx_perm hi).map DirectSession.id).append_right
      (s.results.map DirectResult.id)
    refine List.Perm.trans ?_ (hperm.trans h.streams)
    show (_ ++ List.map _ (s.results ++ [_])).Perm _
    rw [List.map_append, ← List.append_assoc]
    exact List.perm_append_singleton _ _
  · rcases List.mem_append.mp hr with hr | hr
    · exact h.results r hr
    · obtain rfl := List.mem_singleton.mp hr
      exact ⟨(h.sessions x hmem).1, hresult⟩

/-- The outcome of an event keeps the invariant.

**Proof sketch.** By the outcome of the event. A session that goes on keeps its number, so the
numbers of all streams are the same; one that ends gives its result, which is an error or, if it is
a body, the answer of its own stream. -/
lemma Inv.apply (h : s.Inv z serve) {i : ℕ} {x : DirectSession} (hx : s.sessions[i]? = some x)
    {outcome : Outcome} (ho : outcome.Alone z serve x.packet x.id) :
    (s.apply i x outcome).Inv z serve := by
  cases outcome with
  | stage st =>
    refine ⟨?_, fun y hy => ?_, h.results⟩
    · show (List.map _ (s.sessions.set i _) ++ _).Perm _
      have hsame : (s.sessions.set i { x with stage := st }).map DirectSession.id =
          s.sessions.map DirectSession.id := by
        obtain ⟨hi, rfl⟩ := List.getElem?_eq_some_iff.mp hx
        rw [List.map_set, ← List.getElem_map DirectSession.id (h := by simpa using hi)]
        exact List.set_getElem_self _
      rw [hsame]
      exact h.streams
    · rcases List.mem_or_eq_of_mem_set hy with hy | rfl
      · exact h.sessions y hy
      · exact ⟨(h.sessions x (List.mem_of_getElem? hx)).1, ho⟩
  | abort e => exact h.deliver hx fun body hbody => nomatch hbody
  | finish conn result =>
    refine h.deliver hx fun body hbody => ?_
    obtain ⟨a, ha, rfl⟩ := exists_of_map_eq_ok hbody
    exact ho a ha

/-- **Step lemma of the client.**

**Proof sketch.** Another server changes no session. A call begins one, on a stream of its own
(`Inv.begin`), and an event on a stream has one of the outcomes that keep the session alone with it
(`Inv.apply`). -/
lemma Inv.step (s : DirectClient) (e : DirectEvent) (s' : DirectClient) (h : s.Inv z serve)
    (hs : directStep z serve s e = some s') : s'.Inv z serve := by
  cases e with
  | setServer server =>
    obtain rfl := Option.some.inj hs
    exact ⟨h.streams, h.sessions, h.results⟩
  | sendAndRecv packet =>
    obtain rfl := Option.some.inj hs
    exact h.begin packet
  | io i event =>
    simp only [directStep] at hs
    split at hs
    · cases hs
    · rename_i x hx
      obtain ⟨outcome, ho, rfl⟩ := Option.map_eq_some_iff.mp hs
      exact h.apply hx ((h.sessions x (List.mem_of_getElem? hx)).2.directIo ho)

/-- A new client. -/
lemma inv_new (server : Server) : (new server).Inv z serve :=
  ⟨.refl _, fun _ hx => absurd hx List.not_mem_nil, fun _ hr => absurd hr List.not_mem_nil⟩

end DirectClient

/-- **Requests without a pool do not get in each other's way.** After every run of requests and
changes of the address, whatever fails and however the responses are cut and delayed: every request
is under way or has returned exactly once; what it returned is for the packet and the address with
which it was made; and a body is what the server answers to this packet over a stream on which there
has been nothing else but the setup commands, whatever other requests there are, or were, and
however they ended.

**Proof sketch.** The invariant says that each session has its stream for itself and that what is
unread on it belongs to its own request; `Inv.step` keeps it and `inv_new` starts it. Of a finished
call it gives that the result is the answer to its own packet. -/
theorem direct_requests_isolated (z : ZlibDecoder) (serve : ℕ → List Bytes → Response)
    (server : Server) (es : List DirectEvent) (s : DirectClient)
    (hrun : Transition.run (directStep z serve) (.new server) es = some s) :
    (s.sessions.map DirectSession.id ++ s.results.map DirectResult.id).Perm
        (List.range s.requests.length) ∧
      ∀ r ∈ s.results, s.requests[r.id]? = some (r.packet, r.server) ∧
        ∀ body, r.result = .ok body → directAnswer z serve r.id r.packet = .ok body := by
  have h := Transition.run_invariant DirectClient.Inv.step (DirectClient.inv_new server) hrun
  exact ⟨h.streams, h.results⟩

/-- The whole response of `countingStreams` to one request, in two chunks. -/
def directExchange (i : ℕ) : List DirectEvent :=
  [.io i .sent, .io i (.read 16), .io i (.read 1)]

/-- Two requests to different servers begin; the response to the first one does not come in time,
while the second one is answered. -/
def twoRequestsRun : List DirectEvent :=
  [.sendAndRecv [10], .setServer ("b", 7709), .sendAndRecv [20], .io 0 .dialed, .io 1 .dialed] ++
    directExchange 0 ++ directExchange 1 ++ directExchange 0 ++ directExchange 1 ++
    directExchange 0 ++ [.io 0 .sent, .io 0 (.readFailed (.io "timed out"))] ++
    directExchange 0 ++ directExchange 0

/-- The results of `twoRequestsRun`. The fourth request of the second stream is answered. -/
theorem direct_requests_isolated_two :
    ∃ s, Transition.run (directStep (fun _ _ => .error "") countingStreams) (.new ("a", 7709))
        twoRequestsRun = some s ∧
      s.results.map (fun r => (r.id, r.server, r.result.toOption)) =
        [(0, ("a", 7709), none), (1, ("b", 7709), some [4])] ∧
      (s.sessions.map DirectSession.id ++ s.results.map DirectResult.id).Perm
        (List.range s.requests.length) ∧
      ∀ r ∈ s.results, s.requests[r.id]? = some (r.packet, r.server) ∧
        ∀ body, r.result = .ok body →
          directAnswer (fun _ _ => .error "") countingStreams r.id r.packet = .ok body :=
  ⟨_, rfl, rfl, direct_requests_isolated (fun _ _ => .error "") countingStreams ("a", 7709)
    twoRequestsRun _ rfl⟩

end Tdxrs
