import Tdxrs.Library.TransitionSystem
import Tdxrs.Net.Packet

set_option relaxedAutoImplicit false
set_option autoImplicit false

/-!
# The connection task of the asynchronous client

`ConnectionTask` in `src/net/async_client.rs`: a task owns one TCP stream and serves the
requests of its channel one after the other. For each it writes the packet, reads one response
in chunks, and delivers the result on the request's reply channel. Every single read is bounded
by 30 s, and a read that times out or fails ends the request with an error, after which the task
goes on with the next request on the same stream.

The server answers the requests of the stream in order, each with one well-framed response that
may depend on all requests so far. Its bytes are put on `stream` when the request is written and
arrive at any later time: a read takes a prefix of them, or fails. A failed write leaves the
request incomplete on the wire, and the server does not answer it.

## Main definitions

* `Tdxrs.TaskState`, `Tdxrs.TaskEvent`, `Tdxrs.taskStep` — the task with its stream.
* `Tdxrs.Reply.Paired` — a delivered body is the server's response to that very request.
* `Tdxrs.SendsOnCleanStream` — no request is written after a read has failed on the stream.

## Main results

* `Tdxrs.stale_reply` — a response that comes after its timeout is delivered for the next
  request.
* `Tdxrs.reply_paired` — replies are paired in every run that writes no request after a failed
  read.
* `Tdxrs.stream_eq_nil_iff` — in such a run, unread bytes are left behind exactly by a failed
  read.
-/

namespace Tdxrs

open Framing

/-- A request in the channel of a task: the packet and (an identifier of) its reply channel. -/
structure Request where
  data : Bytes
  reply : ℕ
deriving DecidableEq, Repr

/-- The request a task is serving. -/
structure InFlight where
  request : Request
  /-- Ghost: what the server has received on the stream, this request included. -/
  history : List Bytes
  phase : ResponsePhase

/-- A result delivered on a reply channel. -/
structure Reply where
  request : Request
  /-- Ghost: what the server has received on the stream, this request included. -/
  history : List Bytes
  result : Except TdxError Bytes

/-- The task, its channel and its stream. -/
structure TaskState where
  channel : List Request
  current : Option InFlight
  /-- The response bytes that the server has sent, or will send, and no read has taken yet. -/
  stream : Bytes
  /-- Ghost: the requests the server has received on the stream, oldest first. -/
  received : List Bytes
  /-- Ghost: how many reads have timed out or failed. -/
  failedReads : ℕ
  replies : List Reply

/-- A task that has just completed its handshake, whose commands are `received`. -/
def TaskState.init (received : List Bytes) : TaskState := ⟨[], none, [], received, 0, []⟩

/-- The capacity of a task's channel. -/
def channelCapacity : ℕ := 64

/-- How a read can fail. -/
inductive ReadFailure where
  | timeout
  | io (message : String)
  | eof
deriving DecidableEq, Repr

/-- The error of a failed read. -/
def ReadFailure.err : ReadFailure → TdxError
  | .timeout => .connection "recv timeout (30s)"
  | .io message => .connection s!"recv: {message}"
  | .eof => .disconnected

/-- The steps of a task and its channel. A request comes in through the channel, be it from
`try_send` or from the heartbeat; the task takes the oldest one and writes it (`sent`,
`sendFailed`) and then reads chunks of the response (`read n`, `readFailed`). -/
inductive TaskEvent where
  | push (request : Request)
  | sent
  | sendFailed (message : String)
  | read (n : ℕ)
  | readFailed (failure : ReadFailure)
deriving DecidableEq, Repr

/-- The request in flight ends with a result, which is delivered. -/
def TaskState.deliver (s : TaskState) (fl : InFlight) (result : Except TdxError Bytes) :
    TaskState :=
  { s with current := none, replies := s.replies ++ [⟨fl.request, fl.history, result⟩] }

/-- The task after a chunk that took it to `progress`. -/
def TaskState.advance (z : ZlibDecoder) (s : TaskState) (fl : InFlight) :
    Progress UInt8 ResponseHeader TdxError → TaskState
  | .more phase => { s with current := some { fl with phase } }
  | .received header body => s.deliver fl (responseBody (decompressZlib z) header body)
  | .rejected e => s.deliver fl (.error e)

/-- One step of the task, against a server that answers the last request it received with
`serve` of all it received. -/
def taskStep (z : ZlibDecoder) (serve : List Bytes → Response) (s : TaskState) :
    TaskEvent → Option TaskState
  | .push request =>
    if s.channel.length < channelCapacity then
      some { s with channel := s.channel ++ [request] }
    else none
  | .sent =>
    match s.current, s.channel with
    | none, request :: rest =>
      let history := s.received ++ [request.data]
      some { s with
        channel := rest
        current := some ⟨request, history, .start⟩
        stream := s.stream ++ (serve history).bytes
        received := history }
    | _, _ => none
  | .sendFailed message =>
    match s.current, s.channel with
    | none, request :: rest =>
      some { s with
        channel := rest
        replies := s.replies ++
          [⟨request, s.received, .error (.connection s!"send: {message}")⟩] }
    | _, _ => none
  | .read n =>
    match s.current with
    | none => none
    | some fl =>
      if 0 < n ∧ n ≤ responseFormat.want fl.phase ∧ n ≤ s.stream.length then
        some ({ s with stream := s.stream.drop n }.advance z fl
          (responseFormat.absorb fl.phase (s.stream.take n)))
      else none
  | .readFailed failure =>
    match s.current with
    | none => none
    | some fl =>
      some ({ s with failedReads := s.failedReads + 1 }.deliver fl (.error failure.err))

/-- A delivered body is what the server's response to that very request decodes to: the history
at the response ends with the request's packet. -/
def Reply.Paired (z : ZlibDecoder) (serve : List Bytes → Response) (r : Reply) : Prop :=
  ∀ body, r.result = .ok body →
    (∃ earlier, r.history = earlier ++ [r.request.data]) ∧
      responseBody (decompressZlib z) (serve r.history).header (serve r.history).body = .ok body

/-- No request is written to the stream after a read on it has timed out or failed. -/
def SendsOnCleanStream (s : TaskState) (e : TaskEvent) : Prop :=
  e = .sent → s.failedReads = 0

instance (s : TaskState) (e : TaskEvent) : Decidable (SendsOnCleanStream s e) :=
  inferInstanceAs (Decidable (e = .sent → s.failedReads = 0))

/-! ## A late response is delivered for the next request -/

/-- A server that answers its `k`-th request with the single byte `k`. -/
def countingServer (history : List Bytes) : Response :=
  plainResponse [UInt8.ofNat history.length] (by simp)

/-- Two requests; the response to the first comes after its read has timed out. -/
def lateResponseRun : List TaskEvent :=
  [.push ⟨[10], 0⟩, .push ⟨[20], 1⟩, .sent, .readFailed .timeout, .sent, .read 16, .read 1]

/-- **A stale reply.** When the response to the first request arrives after the 30 s of its
read, the task delivers it as the response to the second. -/
theorem stale_reply :
    ∃ s, Transition.run (taskStep (fun _ _ => .error "") countingServer) (.init [])
        lateResponseRun = some s ∧
      ∃ r ∈ s.replies, r.request = ⟨[20], 1⟩ ∧ r.result = .ok [1] ∧
        ¬ r.Paired (fun _ _ => .error "") countingServer := by
  refine ⟨_, rfl, ⟨⟨[20], 1⟩, [[10], [20]], .ok [1]⟩, ?_, rfl, rfl, ?_⟩
  · exact List.mem_cons_of_mem _ List.mem_cons_self
  · intro h
    have := (h [1] rfl).2
    revert this
    decide

/-! ## Pairing in runs that abandon a stream after a failed read -/

variable {z : ZlibDecoder} {serve : List Bytes → Response}

/-- The invariant: while no read has failed, the unread bytes are exactly the rest of the
response to the request in flight; after a failed read none is in flight, and the unread bytes
are the rest of the response that was given up. -/
structure TaskState.Inv (z : ZlibDecoder) (serve : List Bytes → Response) (s : TaskState) :
    Prop where
  boundary : s.failedReads = 0 → s.current = none → s.stream = []
  inside : ∀ fl ∈ s.current, s.failedReads = 0 ∧ Expects (serve fl.history) s.stream fl.phase ∧
    ∃ earlier, fl.history = earlier ++ [fl.request.data]
  stale : s.failedReads ≠ 0 → s.stream ≠ []
  replies : ∀ r ∈ s.replies, r.Paired z serve

/-- A reply with an error is paired. -/
lemma Reply.paired_error (request : Request) (history : List Bytes) (e : TdxError) :
    Reply.Paired z serve ⟨request, history, .error e⟩ :=
  fun _ h => nomatch h

/-- Pairing of one more reply. -/
lemma paired_append {replies : List Reply} {r : Reply} (h : ∀ r ∈ replies, r.Paired z serve)
    (hr : r.Paired z serve) : ∀ r' ∈ replies ++ [r], r'.Paired z serve := by
  intro r' hr'
  rcases List.mem_append.mp hr' with h' | h'
  · exact h r' h'
  · obtain rfl := List.mem_singleton.mp h'
    exact hr

/-- What the task writes when it takes a request from the channel. -/
lemma taskStep_sent {s s' : TaskState} (hs : taskStep z serve s .sent = some s') :
    s.current = none ∧ ∃ request rest, s.channel = request :: rest ∧
      s' = { s with
        channel := rest
        current := some ⟨request, s.received ++ [request.data], .start⟩
        stream := s.stream ++ (serve (s.received ++ [request.data])).bytes
        received := s.received ++ [request.data] } := by
  simp only [taskStep] at hs
  split at hs
  · rename_i request rest hcur hch
    exact ⟨hcur, request, rest, hch, (Option.some.inj hs).symm⟩
  · cases hs

/-- A read takes a prefix of the unread bytes, of at most the length asked for. -/
lemma taskStep_read {s s' : TaskState} {n : ℕ} (hs : taskStep z serve s (.read n) = some s') :
    ∃ fl, s.current = some fl ∧ n ≤ responseFormat.want fl.phase ∧ n ≤ s.stream.length ∧
      s' = { s with stream := s.stream.drop n }.advance z fl
        (responseFormat.absorb fl.phase (s.stream.take n)) := by
  simp only [taskStep] at hs
  split at hs
  · cases hs
  · rename_i fl hcur
    split at hs
    · rename_i hn
      exact ⟨fl, hcur, hn.2.1, hn.2.2, (Option.some.inj hs).symm⟩
    · cases hs

/-- **Step lemma.** A step that writes no request after a failed read keeps the invariant.

**Proof sketch.** A request is written on an empty stream, so the stream then holds exactly its
response (`expects_start`). A read takes a chunk of that response, which leaves the rest of it
or completes it with nothing left (`absorb_expects`), and then the delivered result is the
decoded response. A failed read leaves at least one byte behind (`Expects.rest_ne_nil`). -/
lemma TaskState.Inv.step (s : TaskState) (e : TaskEvent) (s' : TaskState) (h : s.Inv z serve)
    (he : SendsOnCleanStream s e) (hs : taskStep z serve s e = some s') : s'.Inv z serve := by
  cases e with
  | push request =>
    simp only [taskStep] at hs
    split at hs
    · obtain rfl := Option.some.inj hs
      exact ⟨h.boundary, h.inside, h.stale, h.replies⟩
    · cases hs
  | sent =>
    have h0 := he rfl
    obtain ⟨hcur, request, rest, -, rfl⟩ := taskStep_sent hs
    have hempty := h.boundary h0 hcur
    refine ⟨fun _ hnone => (nomatch hnone), ?_, fun hne => absurd h0 hne, h.replies⟩
    intro fl hfl
    obtain rfl := Option.some.inj hfl
    refine ⟨h0, ?_, s.received, rfl⟩
    simp only [hempty, List.nil_append]
    exact expects_start (by decide) _
  | sendFailed message =>
    simp only [taskStep] at hs
    split at hs
    · rename_i request rest hcur hch
      obtain rfl := Option.some.inj hs
      exact ⟨h.boundary, h.inside, h.stale, paired_append h.replies (Reply.paired_error _ _ _)⟩
    · cases hs
  | read n =>
    obtain ⟨fl, hcur, hwant, hlen, rfl⟩ := taskStep_read hs
    obtain ⟨h0, hexp, hhist⟩ := h.inside fl hcur
    have htake : (s.stream.take n).length ≤ responseFormat.want fl.phase :=
      (List.length_take_le n _).trans hwant
    rw [← List.take_append_drop n s.stream] at hexp
    rcases absorb_expects hexp htake with ⟨ph, habs, hexp'⟩ | ⟨habs, hrest⟩
    · rw [habs]
      refine ⟨fun _ hnone => (nomatch hnone), ?_, fun hne => absurd h0 hne, h.replies⟩
      intro fl' hfl'
      obtain rfl := Option.some.inj hfl'
      exact ⟨h0, hexp', hhist⟩
    · rw [habs]
      refine ⟨fun _ _ => hrest, fun fl' hfl' => (nomatch hfl'), fun hne => absurd h0 hne, ?_⟩
      exact paired_append h.replies fun body hbody => ⟨hhist, hbody⟩
  | readFailed failure =>
    simp only [taskStep] at hs
    split at hs
    · cases hs
    · rename_i fl hcur
      obtain rfl := Option.some.inj hs
      obtain ⟨-, hexp, -⟩ := h.inside fl hcur
      exact ⟨fun h0 => absurd h0 (Nat.succ_ne_zero _), fun fl' hfl' => (nomatch hfl'),
        fun _ => hexp.rest_ne_nil, paired_append h.replies (Reply.paired_error _ _ _)⟩

/-- A task starts at a message boundary. -/
lemma TaskState.inv_init (received : List Bytes) : (TaskState.init received).Inv z serve :=
  ⟨fun _ _ => rfl, fun _ h => (nomatch h), fun h => absurd rfl h,
    fun _ h => absurd h List.not_mem_nil⟩

/-- The invariant holds along every run that writes no request after a failed read. -/
lemma TaskState.inv_run {received : List Bytes} {es : List TaskEvent} {s : TaskState}
    (hclean : Transition.Guarded (taskStep z serve) SendsOnCleanStream (.init received) es)
    (hrun : Transition.run (taskStep z serve) (.init received) es = some s) : s.Inv z serve :=
  Transition.run_invariant_of_guarded TaskState.Inv.step (TaskState.inv_init received) hclean hrun

/-- **Request and response are paired** in every run that writes no request to the stream after
a read on it has timed out or failed: whatever the order of requests, the cuts of the responses
into chunks and their delays, a delivered body is the response to that very request.

**Proof sketch.** The invariant says that what is unread is the rest of the answer to the request in
flight, as long as no read has failed. A step that sends nothing on a stream with a failed read
keeps it (`TaskState.Inv.step`), and with it every answer that is returned is the one to its own
request. -/
theorem reply_paired (z : ZlibDecoder) (serve : List Bytes → Response) (received : List Bytes)
    (es : List TaskEvent) (s : TaskState)
    (hclean : Transition.Guarded (taskStep z serve) SendsOnCleanStream (.init received) es)
    (hrun : Transition.run (taskStep z serve) (.init received) es = some s) :
    ∀ r ∈ s.replies, r.Paired z serve :=
  (TaskState.inv_run hclean hrun).replies

/-- Two requests whose responses are read completely, the first in three chunks and the second
in two, before a third request times out. -/
def pairedRun : List TaskEvent :=
  [.push ⟨[10], 0⟩, .push ⟨[20], 1⟩, .sent, .read 10, .read 6, .read 1, .push ⟨[30], 2⟩, .sent,
    .read 16, .read 1, .sent, .readFailed .timeout]

/-- The replies of `pairedRun`: each of the first two requests gets its own response. -/
theorem reply_paired_three :
    ∃ s, Transition.run (taskStep (fun _ _ => .error "") countingServer) (.init []) pairedRun
        = some s ∧
      s.replies.map (fun r => (r.request.reply, r.result)) =
        [(0, .ok [1]), (1, .ok [2]), (2, .error (.connection "recv timeout (30s)"))] ∧
      ∀ r ∈ s.replies, r.Paired (fun _ _ => .error "") countingServer :=
  ⟨_, rfl, rfl, reply_paired _ _ [] pairedRun _ (by decide) rfl⟩

/-- The condition of `reply_paired` is exact for the state of the stream: in such a run the
stream of a task between two requests is at a message boundary if and only if no read has
failed on it. -/
theorem stream_eq_nil_iff {received : List Bytes} {es : List TaskEvent} {s : TaskState}
    (hclean : Transition.Guarded (taskStep z serve) SendsOnCleanStream (.init received) es)
    (hrun : Transition.run (taskStep z serve) (.init received) es = some s)
    (hidle : s.current = none) : s.stream = [] ↔ s.failedReads = 0 := by
  have h := TaskState.inv_run hclean hrun
  constructor
  · intro hnil
    by_contra hne
    exact h.stale hne hnil
  · intro h0
    exact h.boundary h0 hidle

end Tdxrs
