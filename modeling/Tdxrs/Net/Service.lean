import Tdxrs.Net.AsyncTask
import Tdxrs.Net.Requests
import Tdxrs.Net.SyncClient
import Tdxrs.Protocol.MinuteRoundTrip
import Tdxrs.Protocol.QuoteRoundTrip
import Tdxrs.Protocol.ReportRoundTrip
import Tdxrs.Protocol.RoundTrip
import Tdxrs.Protocol.TickRoundTrip
import Tdxrs.Protocol.XdXrRoundTrip

set_option relaxedAutoImplicit false
set_option autoImplicit false

/-!
# The client as a view of a database

What the whole client is for: a server knows the answers to some requests, and a call returns
exactly the answer to its own request. The file puts the layers together. A request travels in the
packet that only it has, the transport pairs the response with the packet under any interleaving,
failure and cut, and the parser reads back the data that the server has encoded. There is one
exception, which is a defect of `parse_index_bars`: of the bars of an index it does not read the
last one, if the record of it has fewer than 24 bytes.

A database is what the servers know. It may differ from stream to stream and change between two
requests.

## Main definitions

* `Tdxrs.DataRequest.Wire`, `Tdxrs.DataRequest.encode` — answers and their bodies.
* `Tdxrs.DataRequest.Encodable` — the answers that the layouts can carry.
* `Tdxrs.DataRequest.kept` — an answer without the index bar that gets lost.
* `Tdxrs.DataRequest.Reads` — what the parser of a request returns of a body.
* `Tdxrs.Database`, `Tdxrs.Serves` — a server answers requests as the database says;
  `Tdxrs.databaseServer` — such a server.

## Main results

* `Tdxrs.DataRequest.reads_encode` — the body of an answer is read back.
* `Tdxrs.service_refines` — the synchronous client returns what the database says.
* `Tdxrs.task_service_refines` — so does the task of an asynchronous connection.
-/

namespace Tdxrs

/-! ## Answers -/

/-- K-lines as a server sends them. Those of an index have two numbers more. -/
inductive KLines where
  | security (rs : List KLineRecord)
  | index (rs : List IndexRecord)

/-- The size of a block file and its hash. -/
structure BlockMetaWire where
  size : ℕ
  separator : UInt8
  hash : Bytes
  trailer : Bytes

/-- What is asked for, as it travels. Some bytes of a response are not read. -/
def DataRequest.Wire : DataRequest → Type
  | .bars _ _ _ _ _ => KLines
  | .securityQuotes _ _ => Bytes × List QuoteRecord
  | .securityCount _ => ℕ
  | .securityList _ _ => List SecurityWire
  | .historyMinuteTimeData _ _ _ => Bytes × List MinuteRecord
  | .transactionData _ _ _ _ => List TickRecord
  | .historyTransactionData _ _ _ _ _ => Bytes × List TickRecord
  | .financeInfo _ _ => FinanceWire
  | .xdxrInfo _ _ => Bytes × List XdXrWire
  | .blockInfoMeta _ => BlockMetaWire
  | .blockInfo _ _ _ => Bytes × Bytes

namespace DataRequest

/-- The body of an answer. -/
def encode : (q : DataRequest) → q.Wire → Bytes
  | .bars category _ _ _ _, .security rs => encodeSecurityBars category rs
  | .bars category _ _ _ _, .index rs => encodeIndexBars category rs
  | .securityQuotes _ _, (skipped, rs) => encodeSecurityQuotes skipped rs
  | .securityCount _, (n : ℕ) => LittleEndian.toLE 2 n
  | .securityList _ _, (rs : List SecurityWire) => encodeSecurityList rs
  | .historyMinuteTimeData _ _ _, (header, rs) => encodeHistoryMinutes header rs
  | .transactionData _ _ _ _, (rs : List TickRecord) => encodeTransactions rs
  | .historyTransactionData _ _ _ _ _, (skipped, rs) => encodeHistoryTransactions skipped rs
  | .financeInfo _ _, (r : FinanceWire) => r.encode
  | .xdxrInfo _ _, (header, rs) => encodeXdXrInfo header rs
  | .blockInfoMeta _, (r : BlockMetaWire) =>
    LittleEndian.toLE 4 r.size ++ ([r.separator] ++ (r.hash ++ r.trailer))
  | .blockInfo _ _ _, (header, data) => header ++ data

/-- The answer can be written in its layout: the numbers of records and the values of their fields
are those that the fields can hold. -/
def Encodable (maxValidYear : ℕ) : (q : DataRequest) → q.Wire → Prop
  | .bars category _ _ _ _, .security rs =>
    rs.length < 2 ^ 16 ∧ ∀ r ∈ rs, r.Encodable maxValidYear category
  | .bars category _ _ _ _, .index rs =>
    rs.length < 2 ^ 16 ∧ ∀ r ∈ rs, r.Encodable maxValidYear category
  | .securityQuotes _ _, (skipped, rs) =>
    skipped.length = 2 ∧ rs.length < 2 ^ 16 ∧ ∀ r ∈ rs, r.Encodable
  | .securityCount _, (n : ℕ) => n < 2 ^ 16
  | .securityList _ _, (rs : List SecurityWire) => rs.length < 2 ^ 16
  | .historyMinuteTimeData _ _ _, (header, rs) => header.length = 6 ∧ MinuteRecord.AllFollow 0 rs
  | .transactionData _ _ _ _, (rs : List TickRecord) =>
    rs.length < 2 ^ 16 ∧ TickRecord.AllFollow 0 rs
  | .historyTransactionData _ _ _ _ _, (skipped, rs) =>
    skipped.length = 4 ∧ rs.length < 2 ^ 16 ∧ TickRecord.AllFollow 0 rs
  | .financeInfo _ _, _ => True
  | .xdxrInfo _ _, (header, rs) => header.length = 9 ∧ rs.length < 2 ^ 16
  | .blockInfoMeta _, (r : BlockMetaWire) =>
    r.size < 2 ^ 32 ∧ r.hash.length = 32 ∧ 0 < r.trailer.length
  | .blockInfo _ _ _, (header, _) => header.length = 4

/-- What the client keeps of an answer: all of it, but for the last bar of an index, whose record is
not read if its prices take fewer than eight bytes. -/
def kept : (q : DataRequest) → q.Wire → q.Wire
  | .bars _ _ _ _ _, .index rs => .index (if LastRoomy 0 rs then rs else rs.dropLast)
  | _, x => x

/-- The parser that the client uses for a request returns the answer of a body. Two calls send the
packet for K-lines: the one for securities and the one for indices. -/
def Reads (maxValidYear : ℕ) (gbk : Bytes → Text) : (q : DataRequest) → q.Wire → Bytes → Prop
  | .bars category _ _ _ _, .security rs, body =>
    parseSecurityBars maxValidYear category body = .ok (rs.map (KLineRecord.bar category))
  | .bars category _ _ _ _, .index rs, body =>
    parseIndexBars maxValidYear category body = .ok (rs.map (IndexRecord.bar category))
  | .securityQuotes _ _, (_, rs), body => parseSecurityQuotes body = .ok (rs.map QuoteRecord.quote)
  | .securityCount _, (n : ℕ), body => parseSecurityCount body = .ok n
  | .securityList _ _, (rs : List SecurityWire), body =>
    parseSecurityList gbk body = .ok (rs.map (SecurityWire.info gbk))
  | .historyMinuteTimeData market code _, (_, rs), body =>
    parseHistoryMinuteTimeData body market code.text.toList =
      .ok (List.ofFn fun k : Fin rs.length =>
        minuteAfter (getSecurityCoefficient market code.text.toList) (rs.take k) rs[k]).reverse
  | .transactionData market code _ _, (rs : List TickRecord), body =>
    parseTransactionDataWithCoefficient body (getSecurityCoefficient market code.text.toList) =
      .ok (rs.map (TickRecord.tick (getSecurityCoefficient market code.text.toList)))
  | .historyTransactionData market code _ _ _, (_, rs), body =>
    parseHistoryTransactionDataWithCoefficient body
        (getSecurityCoefficient market code.text.toList) =
      .ok (rs.map (TickRecord.historyTick (getSecurityCoefficient market code.text.toList)))
  | .financeInfo market code, (r : FinanceWire), body =>
    parseFinanceInfo body market code.text.toList = .ok (r.info market code.text.toList)
  | .xdxrInfo _ _, (_, rs), body => parseXdXrInfo body = .ok (rs.map XdXrWire.record)
  | .blockInfoMeta _, (r : BlockMetaWire), body =>
    parseBlockInfoMeta body = .ok ⟨r.size, r.hash.flatMap hexByte⟩
  | .blockInfo _ _ _, (_, data), body => parseBlockInfo body = .ok data

/-! ## Reading an answer back -/

variable {maxValidYear : ℕ} {gbk : Bytes → Text}

/-- The parser of corporate actions returns all of them. -/
lemma parseXdXrInfo_encode {header : Bytes} (hheader : header.length = 9) {rs : List XdXrWire}
    (hlen : rs.length < 2 ^ 16) :
    parseXdXrInfo (encodeXdXrInfo header rs) = .ok (rs.map XdXrWire.record) := by
  have hlength : (encodeXdXrInfo header rs).length = 11 + 29 * rs.length := by
    have hbytes := Records.Format.length_bytes (F := xdxrFormat) (fun _ r => r.length_encode) rs ()
    simp only [encodeXdXrInfo, List.length_append, hheader, LittleEndian.length_toLE, hbytes]
    omega
  have hall := parseXdXrInfo_take hheader hlen (show 11 ≤ 11 + 29 * rs.length by omega)
  rwa [← hlength, List.take_length, hlength, Nat.add_sub_cancel_left,
    Nat.mul_div_cancel_left _ (by decide), List.take_length] at hall

/-- The parser returns the size of a file and its hash. -/
lemma parseBlockInfoMeta_encode (r : BlockMetaWire)
    (hr : r.size < 2 ^ 32 ∧ r.hash.length = 32 ∧ 0 < r.trailer.length) :
    parseBlockInfoMeta
        (LittleEndian.toLE 4 r.size ++ ([r.separator] ++ (r.hash ++ r.trailer))) =
      .ok ⟨r.size, r.hash.flatMap hexByte⟩ := by
  obtain ⟨hsize, hhash, htrailer⟩ := hr
  set body := LittleEndian.toLE 4 r.size ++ ([r.separator] ++ (r.hash ++ r.trailer)) with hbody
  have hzero : body.drop 0 = LittleEndian.toLE 4 r.size ++ _ := hbody
  have hrest := drop_add (drop_add hzero)
  rw [LittleEndian.length_toLE, List.length_singleton, Nat.zero_add] at hrest
  have hlength : ¬ body.length < 38 := by
    simp only [hbody, List.length_append, LittleEndian.length_toLE, List.length_singleton, hhash]
    omega
  rw [parseBlockInfoMeta, if_neg hlength, readU32_of_drop hzero hsize, hrest,
    List.take_left' hhash]

/-- The parser returns the part of a file behind its header. -/
lemma parseBlockInfo_append {header : Bytes} (hheader : header.length = 4) (data : Bytes) :
    parseBlockInfo (header ++ data) = .ok data := by
  rw [parseBlockInfo, List.length_append, hheader, List.drop_left' hheader]
  split
  · rfl
  · have hempty : data = [] := List.eq_nil_of_length_eq_zero (by omega)
    rw [hempty]

/-- **The body of an answer is read back**, as far as it is kept. One case for each kind of
request.

**Proof sketch.** The round trip of the parser for each kind of request. -/
theorem reads_encode (q : DataRequest) (x : q.Wire) (hx : q.Encodable maxValidYear x) :
    q.Reads maxValidYear gbk (q.kept x) (q.encode x) := by
  cases q with
  | bars category market code start count =>
    cases x with
    | security rs => exact parseSecurityBars_encode hx.1 hx.2
    | index rs => exact parseIndexBars_encode hx.1 hx.2
  | securityQuotes stocks fits =>
    obtain ⟨hskipped, hlen, hrs⟩ := hx
    exact parseSecurityQuotesM_encode inRange_wrapping hskipped hlen hrs
  | securityCount market =>
    have hread := readU16_of_drop (show (LittleEndian.toLE 2 x).drop 0 = LittleEndian.toLE 2 x ++ []
      from (List.append_nil _).symm) hx
    exact congrArg Except.ok hread
  | securityList market start => exact parseSecurityListM_encode inRange_wrapping gbk hx
  | historyMinuteTimeData market code date =>
    exact parseHistoryMinuteTimeData_encode hx.1 hx.2 market _
  | transactionData market code start count =>
    exact parseTransactionDataM_encode inRange_wrapping hx.1 hx.2
  | historyTransactionData market code start count date =>
    exact parseHistoryTransactionDataM_encode inRange_wrapping hx.1 hx.2.1 hx.2.2
  | financeInfo market code => exact parseFinanceInfoM_encode inRange_wrapping x market _
  | xdxrInfo market code => exact parseXdXrInfo_encode hx.1 hx.2
  | blockInfoMeta blockFile => exact parseBlockInfoMeta_encode x hx
  | blockInfo blockFile start size => exact parseBlockInfo_append hx x.2

/-- The body of an answer is not empty.

**Proof sketch.** Every kind of body begins with a word or with a header of some length that is not
zero. -/
lemma encode_ne_nil (q : DataRequest) (x : q.Wire) (hx : q.Encodable maxValidYear x) :
    q.encode x ≠ [] := by
  have hword (n : ℕ) (rest : Bytes) : LittleEndian.toLE 2 n ++ rest ≠ [] := List.cons_ne_nil _ _
  have hheader {header : Bytes} {n : ℕ} (h : header.length = n + 1) (rest : Bytes) :
      header ++ rest ≠ [] :=
    List.append_ne_nil_of_left_ne_nil (List.ne_nil_of_length_eq_add_one h) rest
  cases q with
  | bars category market code start count =>
    cases x with
    | security rs => exact hword _ _
    | index rs => exact hword _ _
  | securityQuotes stocks fits => exact hheader hx.1 _
  | securityCount market => exact List.cons_ne_nil _ _
  | securityList market start => exact hword _ _
  | historyMinuteTimeData market code date => exact hheader hx.1 _
  | transactionData market code start count => exact hword _ _
  | historyTransactionData market code start count date => exact hword _ _
  | financeInfo market code => exact List.ne_nil_of_length_eq_add_one (FinanceWire.length_encode x)
  | xdxrInfo market code => exact hheader hx.1 _
  | blockInfoMeta blockFile => exact List.cons_ne_nil _ _
  | blockInfo blockFile start size => exact hheader hx _

end DataRequest

/-! ## Databases -/

/-- What the servers know: the answer to a request on a stream on which the requests `earlier` have
been made, if there is one. -/
abbrev Database := (stream : ℕ) → (earlier : List Bytes) → (q : DataRequest) → Option q.Wire

/-- The body that the synchronous client takes from a response. -/
def Response.bodyChecked (z : ZlibDecoder) (r : Response) : Except TdxError Bytes :=
  responseBody (decompressZlibChecked z · r.header.unzipSize) r.header r.body

/-- The body that an asynchronous connection takes from a response. -/
def Response.bodyUnchecked (z : ZlibDecoder) (r : Response) : Except TdxError Bytes :=
  responseBody (decompressZlib z) r.header r.body

/-- A server that has an answer sends a response whose body, compressed or not, is that of the
answer. -/
def Serves (maxValidYear : ℕ) (take : Response → Except TdxError Bytes)
    (serve : ℕ → List Bytes → Response) (db : Database) : Prop :=
  ∀ stream earlier (q : DataRequest), ∀ x ∈ db stream earlier q,
    q.Encodable maxValidYear x ∧ take (serve stream (earlier ++ [q.packet])) = .ok (q.encode x)

/-- A response that is not compressed. -/
def plainReply (body : Bytes) : Response :=
  if h : body.length < 65536 then plainResponse body h else plainResponse [0] (by decide)

/-- The server of a database, which reads a request out of the packet. -/
def databaseServer (db : Database) (stream : ℕ) (history : List Bytes) : Response :=
  match history.getLast?.bind DataRequest.ofPacket with
  | none => plainReply [0]
  | some q => plainReply (((db stream history.dropLast q).map q.encode).getD [0])

section

variable {maxValidYear : ℕ} {gbk : Bytes → Text} {db : Database} {z : ZlibDecoder}

/-- A body that is not empty and not too long is taken from its response. -/
lemma responseBody_plainReply (decompress : Bytes → Except TdxError Bytes) {body : Bytes}
    (hne : body ≠ []) (hlen : body.length < 65536) :
    responseBody decompress (plainReply body).header (plainReply body).body = .ok body := by
  rw [plainReply, dif_pos hlen, responseBody]
  change (if body.isEmpty then _ else if body.length ≠ body.length then _ else _) = _
  rw [if_neg (by simpa using hne), if_neg (not_not.mpr rfl)]
  rfl

/-- **The server of a database serves it**, if all bodies fit a response. -/
lemma serves_databaseServer {take : Response → Except TdxError Bytes}
    (htake : ∀ body : Bytes, body ≠ [] → body.length < 65536 → take (plainReply body) = .ok body)
    (hdb : ∀ stream earlier (q : DataRequest), ∀ x ∈ db stream earlier q,
      q.Encodable maxValidYear x ∧ (q.encode x).length < 65536) :
    Serves maxValidYear take (databaseServer db) db := by
  intro stream earlier q x hx
  obtain ⟨hencodable, hlen⟩ := hdb stream earlier q x hx
  have hserver : databaseServer db stream (earlier ++ [q.packet]) = plainReply (q.encode x) := by
    rw [databaseServer, List.getLast?_concat, Option.bind_some, DataRequest.ofPacket_packet,
      List.dropLast_concat]
    simp only [Option.mem_def.mp hx, Option.map_some, Option.getD_some]
  exact ⟨hencodable, hserver ▸ htake _ (q.encode_ne_nil x hencodable) hlen⟩

end

/-! ## The client -/

/-- **The synchronous client is a view of the database.** In every run of calls, probes and connects
over the pool, in any order of their steps, with any failures, delays and cuts of responses, and for
every server that answers as the database says: a call for a request that returns a body has
returned the answer that the database had for this request when the server received it, which is
what the parser of the request makes of the body, but for the last bar of an index if its record has
fewer than 24 bytes.

**Proof sketch.** The body is derived from the response to the packet of the call (`Inv.step`), the
response is that of the server for the request, and its body is read back (`reads_encode`). -/
theorem service_refines (maxSize maxValidYear : ℕ) (gbk : Bytes → Text) (z : ZlibDecoder)
    (serve : ℕ → List Bytes → Response) (db : Database)
    (hserves : Serves maxValidYear (Response.bodyChecked z) serve db) (es : List ClientEvent)
    (s : ClientState) (hrun : Transition.run (clientStep maxSize z serve) .init es = some s)
    (q : DataRequest) :
    ∀ r ∈ s.results, r.packet = q.packet → ∀ a, r.result = .ok a →
      ∃ earlier, a.received = earlier ++ [q.packet] ∧
        ∀ x ∈ db a.stream earlier q, q.Reads maxValidYear gbk (q.kept x) a.body := by
  intro r hr hpacket a ha
  have hinv := Transition.run_invariant ClientState.Inv.step ClientState.inv_init hrun
  obtain ⟨⟨earlier, hreceived⟩, hbody⟩ := hinv.results r hr a ha
  rw [hpacket] at hreceived
  refine ⟨earlier, hreceived, fun x hx => ?_⟩
  obtain ⟨hencodable, hserved⟩ := hserves a.stream earlier q x hx
  have hsame : a.body = q.encode x :=
    Except.ok.inj (((congrArg _ (congrArg _ hreceived)).symm.trans hbody).symm.trans hserved)
  rw [hsame]
  exact q.reads_encode x hencodable

/-- **The task of an asynchronous connection is a view of the database**, in every run that writes
no request after a failed read: a reply to a request is the answer that the database had for it, as
far as the parser keeps it.

**Proof sketch.** On a stream that is written to only while it is clean, the response that is read
is that to the request (`TaskState.inv_run`), and the rest is as for the synchronous client. -/
theorem task_service_refines (maxValidYear : ℕ) (gbk : Bytes → Text) (z : ZlibDecoder)
    (serve : ℕ → List Bytes → Response) (db : Database)
    (hserves : Serves maxValidYear (Response.bodyUnchecked z) serve db) (stream : ℕ)
    (received : List Bytes) (es : List TaskEvent) (s : TaskState)
    (hclean : Transition.Guarded (taskStep z (serve stream)) SendsOnCleanStream (.init received) es)
    (hrun : Transition.run (taskStep z (serve stream)) (.init received) es = some s)
    (q : DataRequest) :
    ∀ r ∈ s.replies, r.request.data = q.packet → ∀ body, r.result = .ok body →
      ∃ earlier, r.history = earlier ++ [q.packet] ∧
        ∀ x ∈ db stream earlier q, q.Reads maxValidYear gbk (q.kept x) body := by
  intro r hr hpacket body hbody
  obtain ⟨⟨earlier, hhistory⟩, htaken⟩ := (TaskState.inv_run hclean hrun).replies r hr body hbody
  rw [hpacket] at hhistory
  refine ⟨earlier, hhistory, fun x hx => ?_⟩
  obtain ⟨hencodable, hserved⟩ := hserves stream earlier q x hx
  rw [← hhistory] at hserved
  rw [Except.ok.inj (htaken.symm.trans hserved)]
  exact q.reads_encode x hencodable

/-! ## A database that counts -/

/-- A database of numbers of securities, which grow with every request. -/
def countDatabase : Database
  | _, earlier, .securityCount _ => some (21000 + earlier.length % 10 : ℕ)
  | _, _, _ => none

lemma countDatabase_fits (stream : ℕ) (earlier : List Bytes) (q : DataRequest) :
    ∀ x ∈ countDatabase stream earlier q,
      q.Encodable 2036 x ∧ (q.encode x).length < 65536 := by
  intro x hx
  cases q with
  | securityCount market =>
    obtain rfl := Option.some.inj hx
    refine ⟨?_, (LittleEndian.length_toLE 2 _).trans_lt (by decide)⟩
    change 21000 + earlier.length % 10 < 2 ^ 16
    omega
  | _ => cases hx

/-- A client connects and asks for the number of securities of the second market. -/
def countCall : List ClientEvent :=
  [.connect ("a", 7709), .io 0 .dialed] ++ exchange 0 ++ exchange 0 ++ exchange 0 ++ [.push 0] ++
    [.call (DataRequest.securityCount 1).packet ("a", 7709), .io 0 .sent, .io 0 (.read 16),
      .io 0 (.read 1), .io 0 (.read 1), .drop 0 false]

/-- The fourth request of the stream, behind those of the handshake. -/
theorem service_refines_count :
    ∃ s, Transition.run (clientStep 5 (fun _ _ => .error "") (databaseServer countDatabase)) .init
        countCall = some s ∧
      ∃ r ∈ s.results, ∃ a, r.result = .ok a ∧ parseSecurityCount a.body = .ok 21003 := by
  have hserves : Serves 2036 (Response.bodyChecked fun _ _ => .error "")
      (databaseServer countDatabase) countDatabase :=
    serves_databaseServer (fun _ hne hlen => responseBody_plainReply _ hne hlen) countDatabase_fits
  have hrefines := service_refines 5 2036 asciiText (fun _ _ => .error "") _ countDatabase hserves
    countCall _ rfl (.securityCount 1)
  obtain ⟨earlier, hreceived, hanswer⟩ := hrefines _ (List.mem_singleton_self _) rfl _ rfl
  refine ⟨_, rfl, _, List.mem_singleton_self _, _, rfl, ?_⟩
  have hlength : earlier.length = 3 := by
    have hfour : 4 = (earlier ++ [_]).length := congrArg List.length hreceived
    rw [List.length_append, List.length_singleton] at hfour
    omega
  have hcount := hanswer _ rfl
  rwa [hlength] at hcount

/-- Two probes of the heartbeat. -/
def countProbes : List TaskEvent :=
  [.push ⟨heartbeatPacket, 0⟩, .push ⟨heartbeatPacket, 1⟩, .sent, .read 16, .read 2, .sent,
    .read 16, .read 2]

/-- The second one is the fifth request of the stream. -/
theorem task_service_refines_count :
    ∃ s, Transition.run (taskStep (fun _ _ => .error "") (databaseServer countDatabase 7))
        (.init setupCmds) countProbes = some s ∧
      ∃ r ∈ s.replies, ∃ body, r.result = .ok body ∧ parseSecurityCount body = .ok 21004 := by
  have hserves : Serves 2036 (Response.bodyUnchecked fun _ _ => .error "")
      (databaseServer countDatabase) countDatabase :=
    serves_databaseServer (fun _ hne hlen => responseBody_plainReply _ hne hlen) countDatabase_fits
  have hrefines := task_service_refines 2036 asciiText (fun _ _ => .error "") _ countDatabase
    hserves 7 setupCmds countProbes _ (by decide +kernel) rfl (.securityCount marketSz)
  obtain ⟨earlier, hhistory, hanswer⟩ :=
    hrefines _ (List.mem_cons_of_mem _ List.mem_cons_self) rfl _ rfl
  refine ⟨_, rfl, _, List.mem_cons_of_mem _ List.mem_cons_self, _, rfl, ?_⟩
  have hlength : earlier.length = 4 := by
    have hfive : 5 = (earlier ++ [_]).length := congrArg List.length hhistory
    rw [List.length_append, List.length_singleton] at hfive
    omega
  have hcount := hanswer _ rfl
  rwa [hlength] at hcount

end Tdxrs
