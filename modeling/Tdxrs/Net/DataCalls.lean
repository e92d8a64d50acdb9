import Tdxrs.Net.Requests
import Tdxrs.Protocol.MinuteData
import Tdxrs.Protocol.Reports
import Tdxrs.Protocol.Transactions

set_option relaxedAutoImplicit false
set_option autoImplicit false

/-!
# The data calls of the client

The calls of `TdxHqClient` (`src/net/client.rs`) that ask a server for data, as programs over one
try of a request, the reconnects and the setting `auto_retry`, like those of
`Tdxrs.Net.HqProgram`. The calls for lists of securities, which are answered from caches where they
can be, are the programs of `Tdxrs.Net.SecurityCaches`.

Each call may send several requests: tries of the same one, the pages of a list of K-lines, the
batches of a list of quotes, the chunks of a file, or what an adjustment needs. Whatever the servers
answer, and whatever happens to the connection in between, all of them are requests for what the
call was asked for. Most calls check the code. Those for indices check only that it is no block, and
those for files check nothing.

## Main definitions

* `Tdxrs.HqProgram.getTransactionData` and others — the calls.
* `Tdxrs.DataCall` — the calls with their arguments, `Tdxrs.DataCall.program` — what they do.
* `Tdxrs.DataCall.Asks` — the requests that a call may send.
* `Tdxrs.ListCall` — the calls for lists of securities.

## Main results

* `Tdxrs.HqProgram.exec_getSecurityBarsAll`, `Tdxrs.HqProgram.exec_getIndexBarsAll`,
  `Tdxrs.HqProgram.exec_getAndParseBlockInfo` — executed in one go, the paged calls and the call for
  a block file are the functions of `Tdxrs.Net.HqClient` and `Tdxrs.Net.BlockFile`.
* `Tdxrs.data_calls_ask` — a call sends no other packets than those of its requests.
-/

namespace Tdxrs

/-! ## The calls -/

namespace HqProgram

/-- A request for a security. The code is checked first. -/
def requestCode {β : Type} (parse : Bytes → Except TdxError β) (packet : Bytes → Bytes)
    (code : String) : HqProgram (Except TdxError β) :=
  match codeBytesStrict code with
  | .error e => pure (.error e)
  | .ok codeBuf => requestParsed parse (packet codeBuf)

/-- The minutes of a day. -/
def getHistoryMinuteTimeData (market : UInt8) (code : String) (date : UInt32) :
    HqProgram (Except TdxError (List MinuteTimePrice)) :=
  requestCode (parseHistoryMinuteTimeData · market code.toList)
    (buildHistoryMinutePacket market · date.toNat) code

/-- The minutes of today, by the date that `today_yyyymmdd` finds. -/
def getMinuteTimeData (market : UInt8) (code : String) (today : UInt32) :
    HqProgram (Except TdxError (List MinuteTimePrice)) :=
  getHistoryMinuteTimeData market code today

/-- The transactions of today. -/
def getTransactionData (market : UInt8) (code : String) (start count : UInt16) :
    HqProgram (Except TdxError (List TickData)) :=
  requestCode
    (parseTransactionDataWithCoefficient · (getSecurityCoefficient market code.toList))
    (buildTransactionPacket market · start.toNat count.toNat) code

/-- The transactions of a day. -/
def getHistoryTransactionData (market : UInt8) (code : String) (start count : UInt16)
    (date : UInt32) : HqProgram (Except TdxError (List TickData)) :=
  requestCode
    (parseHistoryTransactionDataWithCoefficient · (getSecurityCoefficient market code.toList))
    (buildHistoryTransactionPacket market · start.toNat count.toNat date.toNat) code

/-- The finance report of a security. -/
def getFinanceInfo (market : UInt8) (code : String) : HqProgram (Except TdxError FinanceInfo) :=
  requestCode (parseFinanceInfo · market code.toList) (buildFinanceInfoPacket market) code

/-- The corporate actions of a security, with all their fields. -/
def getXdxrRecords (market : UInt8) (code : String) :
    HqProgram (Except TdxError (List XdXrRecord)) :=
  requestCode parseXdXrInfo (buildXdXrInfoPacket market) code

/-- The size of a block file and its hash. -/
def getBlockInfoMeta (blockFile : String) : HqProgram (Except TdxError BlockInfoMeta) :=
  requestParsed parseBlockInfoMeta (blockInfoMetaPacket blockFile)

/-- A chunk of a block file. -/
def getBlockInfo (blockFile : String) (start size : ℕ) : HqProgram (Except TdxError Bytes) :=
  requestParsed parseBlockInfo (blockInfoPacket blockFile start size)

/-- The chunks that are left. The offset moves on by what was asked for. -/
def blockChunks (blockFile : String) (size offset : ℕ) (allData : Bytes) :
    HqProgram (Except TdxError Bytes) :=
  if offset < size then do
    let readSize := min blockChunkSize (size - offset)
    match ← getBlockInfo blockFile offset readSize with
    | .error e => pure (.error e)
    | .ok chunk => blockChunks blockFile size (offset + readSize) (allData ++ chunk)
  else pure (.ok allData)
termination_by size - offset
decreasing_by simp only [blockChunkSize]; omega

/-- Fetches and parses a block file. -/
def getAndParseBlockInfo (gbk : Bytes → Text) (blockFile : String) :
    HqProgram (Except TdxError (List BlockRecord)) := do
  match ← getBlockInfoMeta blockFile with
  | .error e => pure (.error e)
  | .ok info => do
    match ← blockChunks blockFile info.size 0 [] with
    | .error e => pure (.error e)
    | .ok allData => pure (parseBlock gbk allData)

variable (settings : HqSettings)

/-- One K-line call for an index. The code is checked for blocks only. -/
def getIndexBars (category market : UInt8) (code : String) (start count : ℕ) :
    HqProgram (Except TdxError (List IndexBar)) :=
  match HqEnv.checkNotBlockCode code with
  | .error e => pure (.error e)
  | .ok _ =>
    attemptBars
      (requestParsed (parseIndexBars settings.maxValidYear category)
        (buildIndexBarsPacket category market code start count))
      (4 ≤ category) (if 4 ≤ category then 3 else 1)

/-- The pages of a paged call that are left, from `offset` on. Each page is older than the bars
at hand and goes in front of them; a short page is the last one. -/
def allPages {β : Type} (page : ℕ → ℕ → HqProgram (Except TdxError (List β)))
    (offset remaining : ℕ) (all : List β) : HqProgram (Except TdxError (List β)) :=
  if 0 < remaining then do
    let batch := min remaining maxKlineCount
    match ← page offset batch with
    | .error e => pure (.error e)
    | .ok bars =>
      if bars.isEmpty then pure (.ok all)
      else
        -- the number of bars is counted in 16 bits
        let fetched := bars.length % 65536
        if fetched < batch then pure (.ok (bars ++ all))
        else allPages page (offset + fetched) (remaining - fetched) (bars ++ all)
  else pure (.ok all)
termination_by remaining
decreasing_by
  have : 0 < maxKlineCount := by decide
  omega

/-- The paged call for a security. -/
def getSecurityBarsAll (category market : UInt8) (code : String) (count : UInt16) (fq : UInt8) :
    HqProgram (Except TdxError (List SecurityBar)) :=
  allPages (fun offset batch => getSecurityBars settings category market code offset batch fq) 0
    count.toNat []

/-- The paged call for an index. -/
def getIndexBarsAll (category market : UInt8) (code : String) (count : UInt16) :
    HqProgram (Except TdxError (List IndexBar)) :=
  allPages (fun offset batch => getIndexBars settings category market code offset batch) 0
    count.toNat []

/-! ### Execution in one go -/

section Exec

variable {σ : Type} (env : HqEnv σ)

/-- A request whose answer is parsed. -/
lemma exec_requestParsed_eq {β : Type} (parse : Bytes → Except TdxError β) (packet : Bytes)
    (w : σ) :
    (requestParsed parse packet).exec (handle env) w =
      match env.sendAndRecvLimited packet w with
      | (.error e, w) => (.error e, w)
      | (.ok body, w) => (parse body, w) := by
  rw [requestParsed, Program.exec_bind, exec_sendAndRecv]
  rcases env.sendAndRecvLimited packet w with ⟨_ | body, w'⟩ <;> rfl

/-- One K-line call for an index. -/
lemma exec_getIndexBars (hyear : env.maxValidYear = settings.maxValidYear)
    (category market : UInt8) (code : String) (start count : ℕ) (fq : UInt8) (s : HqState σ) :
    (getIndexBars settings category market code start count).exec (handle env) s.world =
      (env.getIndexBars category market code start count fq s).map id HqState.world := by
  unfold getIndexBars HqEnv.getIndexBars
  rcases HqEnv.checkNotBlockCode code with e | _
  · rfl
  rw [← hyear]
  exact exec_attemptBars env (fun s => exec_requestParsed env _ _ start s) _ _ s

/-- **The paging loop executed in one go** is that of the client, if the pages are those of the
client.

**Proof sketch.** Induction on the number of bars that are left to fetch. A round executes the page
and looks at it, in both loops in the same way; where they go on, they do so with the same offset
and the same bars at hand. -/
theorem exec_allPages {β : Type} {page : ℕ → ℕ → HqProgram (Except TdxError (List β))}
    {page' : ℕ → ℕ → HqState σ → Except TdxError (List β) × HqState σ}
    (hpage : ∀ offset batch s, (page offset batch).exec (handle env) s.world =
      (page' offset batch s).map id HqState.world)
    (offset remaining : ℕ) (all : List β) (s : HqState σ) :
    (allPages page offset remaining all).exec (handle env) s.world =
      (HqEnv.allPages page' offset remaining all s).map id HqState.world := by
  induction remaining using Nat.strong_induction_on generalizing offset all s with
  | _ remaining ih =>
    rw [allPages, HqEnv.allPages]
    by_cases hleft : 0 < remaining
    · rw [if_pos hleft, if_pos hleft]
      dsimp only
      rw [Program.exec_bind, hpage]
      rcases page' offset (min remaining maxKlineCount) s with ⟨e | bars, s'⟩
      · rfl
      · simp only [Prod.map, id]
        by_cases hempty : bars.isEmpty = true
        · rw [if_pos hempty, if_pos hempty]
          rfl
        · rw [if_neg hempty, if_neg hempty]
          by_cases hlast : bars.length % 65536 < min remaining maxKlineCount
          · rw [if_pos hlast, if_pos hlast]
            rfl
          · rw [if_neg hlast, if_neg hlast]
            refine ih _ ?_ _ _ s'
            have : 0 < maxKlineCount := by decide
            omega
    · rw [if_neg hleft, if_neg hleft]
      rfl

/-- **The paged call for a security executed in one go** is the function of the client. -/
theorem exec_getSecurityBarsAll (htier : env.fqContextTier = settings.fqContextTier)
    (hyear : env.maxValidYear = settings.maxValidYear)
    (hxdxr : ∀ market code w,
      (getXdXrInfo settings market code).exec (handle env) w = env.getXdxrInfo market code w)
    (category market : UInt8) (code : String) (count : UInt16) (fq : UInt8) (s : HqState σ) :
    (getSecurityBarsAll settings category market code count fq).exec (handle env) s.world =
      (env.getSecurityBarsAll category market code count fq s).map id HqState.world :=
  exec_allPages env
    (fun offset batch s => exec_getSecurityBars settings env htier hyear hxdxr category market code
      offset batch fq s) 0 count.toNat [] s

/-- **The paged call for an index executed in one go** is the function of the client. -/
theorem exec_getIndexBarsAll (hyear : env.maxValidYear = settings.maxValidYear)
    (category market : UInt8) (code : String) (count : UInt16) (fq : UInt8) (s : HqState σ) :
    (getIndexBarsAll settings category market code count).exec (handle env) s.world =
      (env.getIndexBarsAll category market code count fq s).map id HqState.world :=
  exec_allPages env
    (fun offset batch s => exec_getIndexBars settings env hyear category market code offset batch
      fq s) 0 count.toNat [] s

/-- The chunks of a block file.

**Proof sketch.** Strong induction on the bytes that are left: both ask for the same chunk, and a
chunk that is not refused moves the offset on. -/
lemma exec_blockChunks (blockFile : String) (size offset : ℕ) (allData : Bytes) (w : σ) :
    (blockChunks blockFile size offset allData).exec (handle env) w =
      Tdxrs.blockChunks env.sendAndRecvLimited blockFile size offset allData w := by
  induction hleft : size - offset using Nat.strong_induction_on generalizing offset allData w with
  | _ left ih =>
    rw [blockChunks, Tdxrs.blockChunks]
    by_cases hmore : offset < size
    · rw [if_pos hmore, if_pos hmore, Program.exec_bind]
      simp only [getBlockInfo, Tdxrs.getBlockInfo, exec_requestParsed_eq]
      rcases env.sendAndRecvLimited _ w with ⟨e | body, w'⟩
      · rfl
      · dsimp only
        rcases parseBlockInfo body with e | chunk
        · rfl
        · refine ih _ ?_ _ _ w' rfl
          simp only [blockChunkSize]
          omega
    · rw [if_neg hmore, if_neg hmore]
      rfl

/-- **The call for a block file executed in one go** is the function of the client.

**Proof sketch.** Step by step: the request for the size, its answer, the chunks, and the parser. -/
theorem exec_getAndParseBlockInfo (gbk : Bytes → Text) (blockFile : String) (w : σ) :
    (getAndParseBlockInfo gbk blockFile).exec (handle env) w =
      env.getAndParseBlockInfo gbk blockFile w := by
  rw [getAndParseBlockInfo, HqEnv.getAndParseBlockInfo, Tdxrs.getAndParseBlockInfo,
    Program.exec_bind, getBlockInfoMeta, Tdxrs.getBlockInfoMeta, exec_requestParsed_eq]
  rcases env.sendAndRecvLimited _ w with ⟨e | body, w'⟩
  · rfl
  · dsimp only
    rcases parseBlockInfoMeta body with e | info
    · rfl
    · dsimp only
      rw [Program.exec_bind, exec_blockChunks]
      rcases Tdxrs.blockChunks env.sendAndRecvLimited blockFile info.size 0 [] w' with
        ⟨e | allData, w''⟩ <;> rfl

end Exec

end HqProgram

/-- A data call with its arguments. -/
inductive DataCall where
  | securityBars (category market : UInt8) (code : String) (start : UInt32) (count : UInt16)
      (fq : UInt8)
  | securityBarsAll (category market : UInt8) (code : String) (count : UInt16) (fq : UInt8)
  | indexBars (category market : UInt8) (code : String) (start : UInt32) (count : UInt16)
  | indexBarsAll (category market : UInt8) (code : String) (count : UInt16)
  | securityQuotes (stocks : List (UInt8 × String))
  | minuteTimeData (market : UInt8) (code : String) (today : UInt32)
  | historyMinuteTimeData (market : UInt8) (code : String) (date : UInt32)
  | transactionData (market : UInt8) (code : String) (start count : UInt16)
  | historyTransactionData (market : UInt8) (code : String) (start count : UInt16) (date : UInt32)
  | financeInfo (market : UInt8) (code : String)
  | xdxrInfo (market : UInt8) (code : String)
  | blockInfoMeta (name : String)
  | blockInfo (name : String) (start size : UInt32)
  | blockFile (name : String)
deriving DecidableEq

namespace DataCall

/-- What a call returns. -/
def Result : DataCall → Type
  | securityBars _ _ _ _ _ _ | securityBarsAll _ _ _ _ _ => List SecurityBar
  | indexBars _ _ _ _ _ | indexBarsAll _ _ _ _ => List IndexBar
  | securityQuotes _ => List SecurityQuote
  | minuteTimeData _ _ _ | historyMinuteTimeData _ _ _ => List MinuteTimePrice
  | transactionData _ _ _ _ | historyTransactionData _ _ _ _ _ => List TickData
  | financeInfo _ _ => FinanceInfo
  | xdxrInfo _ _ => List XdXrRecord
  | blockInfoMeta _ => BlockInfoMeta
  | blockInfo _ _ _ => Bytes
  | blockFile _ => List BlockRecord

/-- What a call does. -/
def program (settings : HqSettings) (gbk : Bytes → Text) :
    (call : DataCall) → HqProgram (Except TdxError call.Result)
  | securityBars category market code start count fq =>
    HqProgram.getSecurityBars settings category market code start.toNat count.toNat fq
  | securityBarsAll category market code count fq =>
    HqProgram.getSecurityBarsAll settings category market code count fq
  | indexBars category market code start count =>
    HqProgram.getIndexBars settings category market code start.toNat count.toNat
  | indexBarsAll category market code count =>
    HqProgram.getIndexBarsAll settings category market code count
  | securityQuotes stocks => HqProgram.getSecurityQuotes stocks
  | minuteTimeData market code today => HqProgram.getMinuteTimeData market code today
  | historyMinuteTimeData market code date => HqProgram.getHistoryMinuteTimeData market code date
  | transactionData market code start count =>
    HqProgram.getTransactionData market code start count
  | historyTransactionData market code start count date =>
    HqProgram.getHistoryTransactionData market code start count date
  | financeInfo market code => HqProgram.getFinanceInfo market code
  | xdxrInfo market code => HqProgram.getXdxrRecords market code
  | blockInfoMeta name => HqProgram.getBlockInfoMeta name
  | blockInfo name start size => HqProgram.getBlockInfo name start.toNat size.toNat
  | blockFile name => HqProgram.getAndParseBlockInfo gbk name

/-- The requests that a call may send. A page of K-lines has at most 800, and an adjustment needs
the corporate actions and older pages. -/
def Asks : DataCall → DataRequest → Prop
  | securityBars category market code start count fq, q =>
    ∃ six : SixAlphanumerics code,
      q = .bars category market ⟨code, six⟩ (.ofNat start.toNat) count ∨
        fq ≠ 0 ∧ (q = .xdxrInfo market ⟨code, six⟩ ∨
          ∃ page, q = .bars category market ⟨code, six⟩ (.ofNat (page * maxKlineCount)) 800)
  | securityBarsAll category market code _ fq, q =>
    ∃ six : SixAlphanumerics code,
      (∃ start count, count ≤ 800 ∧ q = .bars category market ⟨code, six⟩ start count) ∨
        fq ≠ 0 ∧ q = .xdxrInfo market ⟨code, six⟩
  | indexBars category market code start count, q =>
    ∃ six, q = .bars category market ⟨code, six⟩ (.ofNat start.toNat) count
  | indexBarsAll category market code _, q =>
    ∃ six start count, count ≤ 800 ∧ q = .bars category market ⟨code, six⟩ start count
  | securityQuotes stocks, q =>
    ∃ batch fits, stockTexts batch <:+: stocks ∧ q = .securityQuotes batch fits
  | minuteTimeData market code date, q | historyMinuteTimeData market code date, q =>
    ∃ six, q = .historyMinuteTimeData market ⟨code, six⟩ date
  | transactionData market code start count, q =>
    ∃ six, q = .transactionData market ⟨code, six⟩ start count
  | historyTransactionData market code start count date, q =>
    ∃ six, q = .historyTransactionData market ⟨code, six⟩ start count date
  | financeInfo market code, q => ∃ six, q = .financeInfo market ⟨code, six⟩
  | xdxrInfo market code, q => ∃ six, q = .xdxrInfo market ⟨code, six⟩
  | blockInfoMeta name, q => ∃ fits, q = .blockInfoMeta ⟨name, fits⟩
  | blockInfo name start size, q => ∃ fits, q = .blockInfo ⟨name, fits⟩ start size
  | blockFile name, q =>
    (∃ fits, q = .blockInfoMeta ⟨name, fits⟩) ∨
      ∃ fits start size, q = .blockInfo ⟨name, fits⟩ start size

/-- What a call does not check: the code of an index, and the name of a file. -/
def ArgumentsFit : DataCall → Prop
  | indexBars _ _ code _ _ | indexBarsAll _ _ code _ => SixAlphanumerics code
  | blockInfoMeta name | blockFile name =>
    (asBytes name).length ≤ 40 ∧ (asBytes name).getLast? ≠ some 0
  | blockInfo name _ _ => (asBytes name).length ≤ 100 ∧ (asBytes name).getLast? ≠ some 0
  | _ => True

end DataCall

/-- A call for the number or for a part of the list of the securities of a market. -/
inductive ListCall where
  | securityCount (market : UInt8)
  | securityList (market : UInt8) (start : UInt16)
deriving DecidableEq

namespace ListCall

/-- What a call returns. -/
def Result : ListCall → Type
  | securityCount _ => ℕ
  | securityList _ _ => List SecurityInfo

/-- What a call does. -/
def program (gbk : Bytes → Text) : (call : ListCall) → CacheProgram (Except TdxError call.Result)
  | securityCount market => CacheProgram.getSecurityCount market
  | securityList market start => CacheProgram.getSecurityList gbk market start

/-- The request that a call sends if no cache answers it. -/
def request : ListCall → DataRequest
  | securityCount market => .securityCount market
  | securityList market start => .securityList market start

end ListCall

/-! ## What the programs send -/

/-- A try is one of a request that is asked for. -/
def TriesOf (asks : DataRequest → Prop) : HqOp → Prop
  | .trySendAndRecv packet => ∃ q, asks q ∧ q.packet = packet
  | _ => True

namespace HqProgram

variable {asks : DataRequest → Prop} {packet : Bytes} {α β : Type}

lemma within_try (h : ∃ q, asks q ∧ q.packet = packet) :
    Program.Within (TriesOf asks) (trySendAndRecv packet) :=
  Program.within_call.mpr ⟨h, fun _ => Program.within_done _⟩

/-- The tries of one request. -/
lemma within_retryLoop (h : ∃ q, asks q ∧ q.packet = packet) (left : ℕ) :
    Program.Within (TriesOf asks) (retryLoop packet left) := by
  induction left with
  | zero => exact Program.within_done _
  | succ left ih =>
    refine .bind (Program.within_perform trivial) fun _ => ?_
    refine .bind (within_try h) fun result => ?_
    cases result with
    | error e => exact ih
    | ok body => exact Program.within_done _

/-- A request with its retries. -/
lemma within_sendAndRecv (h : ∃ q, asks q ∧ q.packet = packet) :
    Program.Within (TriesOf asks) (sendAndRecv packet) := by
  refine .bind (within_try h) fun result => ?_
  cases result with
  | error e =>
    refine .bind (Program.within_perform trivial) fun retry => ?_
    split
    · exact Program.within_done _
    · exact within_retryLoop h _
  | ok body => exact Program.within_done _

/-- A request whose answer is parsed. -/
lemma within_requestParsed (parse : Bytes → Except TdxError β)
    (h : ∃ q, asks q ∧ q.packet = packet) :
    Program.Within (TriesOf asks) (requestParsed parse packet) := by
  refine .bind (within_sendAndRecv h) fun result => ?_
  cases result <;> exact Program.within_done _

/-- The attempts at a K-line call.

**Proof sketch.** By induction on the attempts that are left; between two of them there is at most a
pause, which sends nothing. -/
lemma within_attemptBars {request : HqProgram (Except TdxError (List β))}
    (h : Program.Within (TriesOf asks) request) (shouldRetryEmpty : Bool) (left : ℕ) :
    Program.Within (TriesOf asks) (attemptBars request shouldRetryEmpty left) := by
  induction left with
  | zero => exact Program.within_done _
  | succ left ih =>
    refine .bind h fun result => ?_
    cases result with
    | error e => exact Program.within_done _
    | ok parsed =>
      dsimp only
      split
      · exact Program.within_done _
      · split
        · exact .bind (Program.within_perform trivial) fun _ => ih
        · exact ih

/-- A request for a security, as far as the code is one. -/
lemma within_requestCode (parse : Bytes → Except TdxError β) {build : Bytes → Bytes} {code : String}
    (h : SixAlphanumerics code → ∃ q, asks q ∧ q.packet = build (asBytes code)) :
    Program.Within (TriesOf asks) (requestCode parse build code) := by
  unfold requestCode
  rcases codeBytesStrict_eq code with ⟨hsix, hcode⟩ | ⟨-, e, hcode⟩
  · rw [hcode]
    exact within_requestParsed parse (h hsix)
  · rw [hcode]
    exact Program.within_done _

/-- The packet of a request for K-lines, with the start and the count in 16 bits. -/
lemma packet_bars (category market : UInt8) {code : String} (six : SixAlphanumerics code)
    (start count : ℕ) :
    (DataRequest.bars category market ⟨code, six⟩ (.ofNat start) (.ofNat count)).packet =
      buildSecurityBarsPacket category market code start count := by
  have hword (n : ℕ) :
      LittleEndian.toLE 2 (UInt16.ofNat n).toNat = LittleEndian.toLE 2 n := by
    rw [UInt16.toNat_ofNat']
    exact LittleEndian.toLE_mod 2 n
  simp only [DataRequest.packet, buildSecurityBarsPacket, hword]

variable {settings : HqSettings} {category market : UInt8} {code : String}

/-- The pages of context.

**Proof sketch.** Induction on the pages that are left: each sends the request of its page, and
every branch then ends the loop or goes on to the next page. -/
lemma within_fetchContextPages
    (h : ∀ page, ∃ q, asks q ∧
      q.packet = buildSecurityBarsPacket category market code (page * maxKlineCount) maxKlineCount)
    (earliest left page : ℕ) (context : List SecurityBar) :
    Program.Within (TriesOf asks)
      (fetchContextPages settings category market code earliest left (page * maxKlineCount)
        context) := by
  induction left generalizing page context with
  | zero => exact Program.within_done _
  | succ left ih =>
    refine .bind (within_sendAndRecv (h page)) fun result => ?_
    cases result with
    | error e => exact Program.within_done _
    | ok body =>
      dsimp only
      split
      · exact Program.within_done _
      · exact Program.within_done _
      · split
        · exact Program.within_done _
        · split
          · exact Program.within_done _
          · rw [← Nat.succ_mul]
            exact ih _ _

/-- What an adjustment needs, if there is one.

**Proof sketch.** Without adjustment, or without bars, nothing is sent. With it, the corporate
actions are asked for and then the pages of context, if there are events. -/
lemma within_adjustFetched {fq : UInt8}
    (hxdxr : fq ≠ 0 → ∀ six, asks (.xdxrInfo market ⟨code, six⟩))
    (hpages : fq ≠ 0 → ∀ page, ∃ q, asks q ∧
      q.packet = buildSecurityBarsPacket category market code (page * maxKlineCount) maxKlineCount)
    (bars : List SecurityBar) :
    Program.Within (TriesOf asks) (adjustFetched settings category market code fq bars) := by
  unfold adjustFetched
  split
  · rename_i hfq
    refine .bind ?_ fun result => ?_
    · exact within_requestCode _ fun six => ⟨_, hxdxr hfq.1 six, rfl⟩
    · cases result with
      | error e => exact Program.within_done _
      | ok xdxr =>
        refine .bind ?_ fun older => Program.within_done _
        unfold fetchContextBarsForAdjust
        split
        · split
          · exact Program.within_done _
          · rw [← Nat.one_mul maxKlineCount]
            exact within_fetchContextPages (hpages hfq.1) _ _ 1 []
        · exact Program.within_done _
  · exact Program.within_done _

/-- One K-line call for a security.

**Proof sketch.** A code of a block or one that is not made of six letters or digits is refused
before anything is sent. Otherwise the bars are asked for, and the adjustment asks for the corporate
actions and the pages of the context. -/
lemma within_getSecurityBars {start count : ℕ} {fq : UInt8}
    (hbars : SixAlphanumerics code → ∃ q, asks q ∧
      q.packet = buildSecurityBarsPacket category market code start count)
    (hxdxr : fq ≠ 0 → ∀ six, asks (.xdxrInfo market ⟨code, six⟩))
    (hpages : fq ≠ 0 → SixAlphanumerics code → ∀ page, ∃ q, asks q ∧ q.packet =
      buildSecurityBarsPacket category market code (page * maxKlineCount) maxKlineCount) :
    Program.Within (TriesOf asks)
      (getSecurityBars settings category market code start count fq) := by
  unfold getSecurityBars
  rcases HqEnv.checkNotBlockCode code with e | _
  · exact Program.within_done _
  rcases codeBytesStrict_eq code with ⟨hsix, hcode⟩ | ⟨-, e, hcode⟩
  · rw [hcode]
    refine .bind (within_attemptBars (within_requestParsed _ (hbars hsix)) _ _) fun result => ?_
    cases result with
    | error e => exact Program.within_done _
    | ok bars =>
      exact .bind (within_adjustFetched hxdxr (fun hfq => hpages hfq hsix) bars) fun _ =>
        Program.within_done _
  · rw [hcode]
    exact Program.within_done _

/-- One K-line call for an index. -/
lemma within_getIndexBars {start count : ℕ}
    (hbars : ∃ q, asks q ∧ q.packet = buildSecurityBarsPacket category market code start count) :
    Program.Within (TriesOf asks) (getIndexBars settings category market code start count) := by
  unfold getIndexBars
  rcases HqEnv.checkNotBlockCode code with e | _
  · exact Program.within_done _
  · exact within_attemptBars (within_requestParsed _ hbars) _ _

/-- The pages of a paged call.

**Proof sketch.** Strong induction on the bars that are left: a page asks for at most 800 of them,
and the loop ends or goes on with fewer. -/
lemma within_allPages {page : ℕ → ℕ → HqProgram (Except TdxError (List β))}
    (h : ∀ offset batch, batch ≤ maxKlineCount → Program.Within (TriesOf asks) (page offset batch))
    (offset remaining : ℕ) (all : List β) :
    Program.Within (TriesOf asks) (allPages page offset remaining all) := by
  induction remaining using Nat.strong_induction_on generalizing offset all with
  | _ remaining ih =>
    rw [allPages]
    split
    · refine .bind (h _ _ (min_le_right _ _)) fun result => ?_
      cases result with
      | error e => exact Program.within_done _
      | ok bars =>
        dsimp only
        split
        · exact Program.within_done _
        · split
          · exact Program.within_done _
          · refine ih _ ?_ _ _
            have : 0 < maxKlineCount := by decide
            omega
    · exact Program.within_done _

/-- The chunks of a file.

**Proof sketch.** By induction on the bytes that are left, which each chunk makes fewer. -/
lemma within_blockChunks {blockFile : String}
    (h : ∀ start size, ∃ q, asks q ∧ q.packet = blockInfoPacket blockFile start size)
    (size offset : ℕ) (allData : Bytes) :
    Program.Within (TriesOf asks) (blockChunks blockFile size offset allData) := by
  induction hleft : size - offset using Nat.strong_induction_on generalizing offset allData with
  | _ left ih =>
    rw [blockChunks]
    split
    · refine .bind (within_requestParsed _ (h _ _)) fun result => ?_
      cases result with
      | error e => exact Program.within_done _
      | ok chunk =>
        refine ih _ ?_ _ _ rfl
        simp only [blockChunkSize]
        omega
    · exact Program.within_done _

/-- The pieces of a list are parts of it, and not longer than asked for. -/
lemma infix_of_mem_chunks {γ : Type} {size : ℕ} {l chunk : List γ} (h : chunk ∈ chunks size l) :
    chunk <:+: l ∧ chunk.length ≤ size := by
  induction l using chunks.induct size with
  | case1 l hdone =>
    rw [chunks, dif_pos hdone] at h
    exact absurd h List.not_mem_nil
  | case2 l hmore ih =>
    rw [chunks, dif_neg hmore, List.mem_cons] at h
    rcases h with rfl | h
    · exact ⟨(List.take_prefix _ _).isInfix, List.length_take_le _ _⟩
    · exact ⟨(ih h).1.trans (List.drop_suffix _ _).isInfix, (ih h).2⟩

/-- Securities whose codes are accepted are those of a request. -/
lemma exists_stockTexts_eq {stocks : List (UInt8 × String)}
    (h : ∀ stock ∈ stocks, SixAlphanumerics stock.2) : ∃ batch, stockTexts batch = stocks := by
  induction stocks with
  | nil => exact ⟨[], rfl⟩
  | cons stock stocks ih =>
    obtain ⟨hstock, hstocks⟩ := List.forall_mem_cons.mp h
    obtain ⟨batch, rfl⟩ := ih hstocks
    exact ⟨(stock.1, ⟨stock.2, hstock⟩) :: batch, rfl⟩

/-- Codes that are accepted are six ASCII alphanumerics each.

**Proof sketch.** Induction on the stocks: each code has passed the strict check, which only six
alphanumerics do (`codeBytesStrict_eq`). -/
lemma sixAlphanumerics_of_checkCodes {stocks : List (UInt8 × String)}
    (h : checkCodes stocks = .ok ()) : ∀ stock ∈ stocks, SixAlphanumerics stock.2 := by
  induction stocks with
  | nil => exact List.forall_mem_nil _
  | cons stock stocks ih =>
    rw [checkCodes] at h
    rcases codeBytesStrict_eq stock.2 with ⟨hsix, hcode⟩ | ⟨-, e, hcode⟩
    · rw [hcode] at h
      rcases hblock : HqEnv.checkNotBlockCode stock.2 with e | _
      · rw [hblock] at h
        cases h
      · rw [hblock] at h
        exact List.forall_mem_cons.mpr ⟨hsix, ih h⟩
    · rw [hcode] at h
      rcases hblock : HqEnv.checkNotBlockCode stock.2 with e' | _
      · rw [hblock] at h
        cases h
      · rw [hblock] at h
        cases h

/-- One batch of quotes. -/
lemma within_getSecurityQuotesBatch {stocks : List (UInt8 × String)}
    (h : ∃ q, asks q ∧ q.packet = buildSecurityQuotesPacket stocks) :
    Program.Within (TriesOf asks) (getSecurityQuotesBatch stocks) := by
  refine .bind (within_requestParsed _ h) fun result => ?_
  cases result <;> exact Program.within_done _

/-- The batches of quotes that are left. -/
lemma within_batchesLeft {batches : List (List (UInt8 × String))}
    (h : ∀ batch ∈ batches, ∃ q, asks q ∧ q.packet = buildSecurityQuotesPacket batch)
    (result : List SecurityQuote) :
    Program.Within (TriesOf asks) (batchesLeft batches result) := by
  induction batches generalizing result with
  | nil => exact Program.within_done _
  | cons batch batches ih =>
    obtain ⟨hbatch, hbatches⟩ := List.forall_mem_cons.mp h
    refine .bind (within_getSecurityQuotesBatch hbatch) fun answer => ?_
    cases answer with
    | error e => exact Program.within_done _
    | ok quotes => exact ih hbatches _

/-- A call for quotes.

**Proof sketch.** The codes are checked first, so every batch is of six alphanumerics each and can
be written as a request. The batches are consecutive parts of the stocks with at most 60 of them
(`infix_of_mem_chunks`). -/
lemma within_getSecurityQuotes {stocks : List (UInt8 × String)}
    (h : ∀ batch fits, stockTexts batch <:+: stocks → asks (.securityQuotes batch fits)) :
    Program.Within (TriesOf asks) (getSecurityQuotes stocks) := by
  unfold getSecurityQuotes
  cases hcheck : checkCodes stocks with
  | error e => exact Program.within_done _
  | ok _ =>
    have hsix := sixAlphanumerics_of_checkCodes hcheck
    have hbatch {batch : List (UInt8 × String)} (hpart : batch <:+: stocks)
        (hfits : batch.length ≤ maxQuotesCount) :
        ∃ q, asks q ∧ q.packet = buildSecurityQuotesPacket batch := by
      obtain ⟨codes, rfl⟩ :=
        exists_stockTexts_eq fun stock hstock => hsix stock (hpart.subset hstock)
      exact ⟨.securityQuotes codes (by simpa [stockTexts] using hfits), h _ _ hpart, rfl⟩
    dsimp only
    split
    · rename_i hfew
      exact within_getSecurityQuotesBatch (hbatch List.infix_rfl hfew)
    · refine within_batchesLeft (fun batch hmem => ?_) []
      obtain ⟨hpart, hfits⟩ := infix_of_mem_chunks hmem
      exact hbatch hpart hfits

end HqProgram

/-! ## Calls with caches -/

/-- The tries among the operations of the client with its caches. -/
def CacheTriesOf (asks : DataRequest → Prop) : CacheOp → Prop
  | .hq op => TriesOf asks op
  | _ => True

lemma TriesOf.mono {asks asks' : DataRequest → Prop} (h : ∀ q, asks q → asks' q) {op : HqOp}
    (hop : TriesOf asks op) : TriesOf asks' op := by
  cases op with
  | trySendAndRecv packet =>
    obtain ⟨q, hq, hpacket⟩ := hop
    exact ⟨q, h q hq, hpacket⟩
  | _ => trivial

lemma CacheTriesOf.mono {asks asks' : DataRequest → Prop} (h : ∀ q, asks q → asks' q) {op : CacheOp}
    (hop : CacheTriesOf asks op) : CacheTriesOf asks' op := by
  cases op with
  | hq op => exact TriesOf.mono h hop
  | _ => trivial

namespace CacheProgram

variable {asks : DataRequest → Prop}

/-- A request of the client with its caches. -/
lemma within_request {α : Type} {p : HqProgram α} (h : Program.Within (TriesOf asks) p) :
    Program.Within (CacheTriesOf asks) (request p) :=
  Program.Within.embed (P := CacheTriesOf asks) h

/-- The number of the securities of a market. -/
lemma within_getSecurityCount {market : UInt8} (h : asks (.securityCount market)) :
    Program.Within (CacheTriesOf asks) (getSecurityCount market) := by
  refine .bind (Program.within_perform trivial) fun cached => ?_
  cases cached with
  | some count => exact Program.within_done _
  | none =>
    refine .bind (within_request (HqProgram.within_requestParsed _ ⟨_, h, rfl⟩)) fun result => ?_
    cases result with
    | error e => exact Program.within_done _
    | ok count => exact .bind (Program.within_perform trivial) fun _ => Program.within_done _

/-- A part of the list of the securities of a market.

**Proof sketch.** The first page may be in the cache, and then nothing is sent. In every other case
the one request of the page is. -/
lemma within_getSecurityList (gbk : Bytes → Text) {market : UInt8} {start : UInt16}
    (h : asks (.securityList market start)) :
    Program.Within (CacheTriesOf asks) (getSecurityList gbk market start) := by
  have hfetch : Program.Within (CacheTriesOf asks) (request (HqProgram.requestParsed
      (parseSecurityList gbk) (buildSecurityListPacket market start))) :=
    within_request (HqProgram.within_requestParsed _ ⟨_, h, rfl⟩)
  unfold getSecurityList
  split
  · refine .bind (Program.within_perform trivial) fun cached => ?_
    cases cached with
    | some list => exact Program.within_done _
    | none =>
      refine .bind hfetch fun result => ?_
      cases result with
      | error e => exact Program.within_done _
      | ok list => exact .bind (Program.within_perform trivial) fun _ => Program.within_done _
  · exact hfetch

end CacheProgram

/-! ## The requests of a call -/

/-- A call sends the requests that it may send, if its arguments fit. One lemma for each program
above; here the packet of a request is found at each place where one is sent.

**Proof sketch.** By the kind of call. Where the client takes a number to a word of the packet,
taking it to a word of the request first gives the same bytes. -/
lemma DataCall.within_program (settings : HqSettings) (gbk : Bytes → Text) (call : DataCall)
    (hfit : call.ArgumentsFit) :
    Program.Within (TriesOf call.Asks) (call.program settings gbk) := by
  have hbars (category market : UInt8) {code : String} (six : SixAlphanumerics code) (start : ℕ)
      (count : UInt16) :
      (DataRequest.bars category market ⟨code, six⟩ (.ofNat start) count).packet =
        buildSecurityBarsPacket category market code start count.toNat := by
    rw [← HqProgram.packet_bars category market six, UInt16.ofNat_toNat]
  have hbatch {batch : ℕ} (h : batch ≤ maxKlineCount) : UInt16.ofNat batch ≤ 800 := by
    unfold maxKlineCount at h
    rw [UInt16.le_iff_toNat_le, UInt16.toNat_ofNat', Nat.mod_eq_of_lt (by omega)]
    exact h
  cases call with
  | securityBars category market code start count fq =>
    exact HqProgram.within_getSecurityBars
      (fun six => ⟨_, ⟨six, .inl rfl⟩, hbars category market six start.toNat count⟩)
      (fun hfq six => ⟨six, .inr ⟨hfq, .inl rfl⟩⟩)
      fun hfq six page => ⟨_, ⟨six, .inr ⟨hfq, .inr ⟨page, rfl⟩⟩⟩,
        hbars category market six (page * maxKlineCount) 800⟩
  | securityBarsAll category market code count fq =>
    refine HqProgram.within_allPages (fun offset batch hle => ?_) _ _ _
    exact HqProgram.within_getSecurityBars
      (fun six => ⟨_, ⟨six, .inl ⟨_, _, hbatch hle, rfl⟩⟩,
        HqProgram.packet_bars category market six offset batch⟩)
      (fun hfq six => ⟨six, .inr ⟨hfq, rfl⟩⟩)
      fun hfq six page => ⟨_, ⟨six, .inl ⟨_, 800, by decide, rfl⟩⟩,
        hbars category market six (page * maxKlineCount) 800⟩
  | indexBars category market code start count =>
    exact HqProgram.within_getIndexBars
      ⟨_, ⟨hfit, rfl⟩, hbars category market hfit start.toNat count⟩
  | indexBarsAll category market code count =>
    refine HqProgram.within_allPages (fun offset batch hle => ?_) _ _ _
    exact HqProgram.within_getIndexBars
      ⟨_, ⟨hfit, _, _, hbatch hle, rfl⟩, HqProgram.packet_bars category market hfit offset batch⟩
  | securityQuotes stocks =>
    exact HqProgram.within_getSecurityQuotes fun batch fits hpart => ⟨batch, fits, hpart, rfl⟩
  | minuteTimeData market code date | historyMinuteTimeData market code date =>
    exact HqProgram.within_requestCode _ fun six => ⟨_, ⟨six, rfl⟩, rfl⟩
  | transactionData market code start count =>
    exact HqProgram.within_requestCode _ fun six => ⟨_, ⟨six, rfl⟩, rfl⟩
  | historyTransactionData market code start count date =>
    exact HqProgram.within_requestCode _ fun six => ⟨_, ⟨six, rfl⟩, rfl⟩
  | financeInfo market code => exact HqProgram.within_requestCode _ fun six => ⟨_, ⟨six, rfl⟩, rfl⟩
  | xdxrInfo market code => exact HqProgram.within_requestCode _ fun six => ⟨_, ⟨six, rfl⟩, rfl⟩
  | blockInfoMeta name => exact HqProgram.within_requestParsed _ ⟨_, ⟨hfit, rfl⟩, rfl⟩
  | blockInfo name start size => exact HqProgram.within_requestParsed _ ⟨_, ⟨hfit, rfl⟩, rfl⟩
  | blockFile name =>
    have hfit' : (asBytes name).length ≤ 100 ∧ (asBytes name).getLast? ≠ some 0 :=
      ⟨hfit.1.trans (by decide), hfit.2⟩
    have hchunk (start size : ℕ) :
        (DataRequest.blockInfo ⟨name, hfit'⟩ (.ofNat start) (.ofNat size)).packet =
          blockInfoPacket name start size := by
      have hword (n : ℕ) : LittleEndian.toLE 4 (UInt32.ofNat n).toNat = LittleEndian.toLE 4 n := by
        rw [UInt32.toNat_ofNat']
        exact LittleEndian.toLE_mod 4 n
      simp only [DataRequest.packet, blockInfoPacket, hword]
    refine .bind (HqProgram.within_requestParsed _
      ⟨.blockInfoMeta ⟨name, hfit⟩, .inl ⟨hfit, rfl⟩, rfl⟩) fun result => ?_
    cases result with
    | error e => exact Program.within_done _
    | ok info =>
      refine .bind ?_ fun result => ?_
      · exact HqProgram.within_blockChunks
          (fun start size => ⟨_, .inr ⟨hfit', _, _, rfl⟩, hchunk start size⟩) _ _ _
      · cases result <;> exact Program.within_done _

/-- A call for a list sends its request only. -/
lemma ListCall.within_program (gbk : Bytes → Text) (call : ListCall) :
    Program.Within (CacheTriesOf (· = call.request)) (call.program gbk) := by
  cases call with
  | securityCount market => exact CacheProgram.within_getSecurityCount rfl
  | securityList market start => exact CacheProgram.within_getSecurityList gbk rfl

/-- **A data call sends only its own requests.** Whatever the servers answer to them, and whatever
happens to the connection in between, every packet that a call hands over is that of a request for
what the call was asked for: for this security, category, date or file, this page (with its start
in 16 bits) or one of the pages, and nothing else but what an adjustment needs. In particular a call
for a code that is not one hands over nothing, if it checks the code. A call for the number or for a
part of the list of the securities of a market hands over the packet of that request, unless a cache
answers.

**Proof sketch.** A contract says which packets may be handed over, whatever is answered
(`Program.Within`); by the rule of sequence a program meets it if its parts do. There is one lemma
for each program, by induction on the tries, batches, pages or chunks that are left; the packet of a
request of the call is found at each place where one is sent. -/
theorem data_calls_ask (settings : HqSettings) (gbk : Bytes → Text) :
    (∀ call : DataCall, call.ArgumentsFit →
      Program.Within (TriesOf call.Asks) (call.program settings gbk)) ∧
    ∀ call : ListCall, Program.Within (CacheTriesOf (· = call.request)) (call.program gbk) :=
  ⟨fun call hfit => call.within_program settings gbk hfit, fun call => call.within_program gbk⟩

/-- The first packets of a call for an index and of one for the second part of a list. -/
theorem data_calls_ask_index :
    (∃ q, (DataCall.indexBars 4 1 "000001" 0 10).Asks q ∧
      q.packet = buildIndexBarsPacket 4 1 "000001" 0 10) ∧
    ∃ q, q = (ListCall.securityList 1 1000).request ∧
      q.packet = CacheProgram.buildSecurityListPacket 1 1000 := by
  have h := data_calls_ask ⟨fun _ => .ok [], .mid, 2100⟩ fun _ => []
  have hindex := h.1 (.indexBars 4 1 "000001" 0 10) (show SixAlphanumerics "000001" by decide)
  exact ⟨(Program.within_call.mp hindex).1, (Program.within_call.mp (h.2 (.securityList 1 1000))).1⟩

end Tdxrs
