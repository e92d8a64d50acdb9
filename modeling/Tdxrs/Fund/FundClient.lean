import Tdxrs.Fund.FundList
import Tdxrs.Net.DataCalls

set_option relaxedAutoImplicit false
set_option autoImplicit false

/-!
# The client of funds

The calls of `TdxHqFundClient` in `src/fund/client.rs`, with the checks of `src/fund/utils.rs` and
the data of `src/fund/types.rs`; the list of funds is in `Tdxrs.Fund.FundList`. A call checks that
it is about funds, passes on to the client inside, which is that of `Tdxrs.Net.DataCalls`, and keeps
part of what it returns.

The client inside may be asked for anything, and may ask for more than it was asked for: an
adjustment would do so, and so do retries, pages and batches. What the servers of a client of funds
get to see are nevertheless requests for funds, in whatever order its calls are made and whatever
happens to the connection.

## Main definitions

* `Tdxrs.validateFundCode`, `Tdxrs.validateFundStocks` — the checks.
* `Tdxrs.FundCall` — the calls with their arguments, `Tdxrs.FundCall.program` — what they do.
* `Tdxrs.FundCall.system` — a client of funds that makes calls, and what it sends.
* `Tdxrs.DataRequest.OfFunds` — the requests that are for funds.

## Main results

* `Tdxrs.fund_client_asks_for_funds` — a client of funds sends requests for funds only.
-/

namespace Tdxrs

/-! ## The checks -/

/-- What is wrong with a code. -/
inductive FundError where
  | invalidFundCode (code : String)
deriving DecidableEq, Repr

/-- The text of an error. -/
def FundError.message : FundError → String
  | .invalidFundCode code => s!"Invalid fund code: {code}"

/-- Whether a security is a fund. -/
def validateFundCode (market : UInt8) (code : String) : Except FundError Unit :=
  if ¬ isFund market code.toList then .error (.invalidFundCode s!"{market}:{code} is not a fund")
  else .ok ()

/-- Whether all securities are funds. The first one that is none is named. -/
def validateFundStocks : List (UInt8 × String) → Except FundError Unit
  | [] => .ok ()
  | (market, code) :: stocks =>
    match validateFundCode market code with
    | .error e => .error e
    | .ok _ => validateFundStocks stocks

/-! ## The data -/

/-- A K-line bar of a fund. -/
structure FundBar where
  «open» : ℚ
  close : ℚ
  high : ℚ
  low : ℚ
  vol : ℚ
  amount : ℚ
  year : ℕ
  month : ℕ
  day : ℕ
  hour : ℕ
  minute : ℕ
  datetime : Text
deriving DecidableEq

def FundBar.fromSecurityBar (bar : SecurityBar) : FundBar where
  «open» := bar.open
  close := bar.close
  high := bar.high
  low := bar.low
  vol := bar.vol
  amount := bar.amount
  year := bar.year
  month := bar.month
  day := bar.day
  hour := bar.hour
  minute := bar.minute
  datetime := bar.datetime

/-- A quote of a fund. -/
structure FundQuote where
  market : UInt8
  code : Text
  price : ℚ
  lastClose : ℚ
  «open» : ℚ
  high : ℚ
  low : ℚ
  vol : ℚ
  amount : ℚ
  bids : List ℚ
  bidVols : List ℚ
  asks : List ℚ
  askVols : List ℚ
  servertime : Text
deriving DecidableEq

def FundQuote.fromSecurityQuote (quote : SecurityQuote) : FundQuote where
  market := quote.market
  code := quote.code
  price := quote.price
  lastClose := quote.lastClose
  «open» := quote.open
  high := quote.high
  low := quote.low
  vol := quote.vol
  amount := quote.amount
  bids := quote.bids
  bidVols := quote.bidVols
  asks := quote.asks
  askVols := quote.askVols
  servertime := quote.servertime

/-- A corporate action of a fund. -/
structure FundXdXrInfo where
  year : ℕ
  month : ℕ
  day : ℕ
  category : ℕ
  fenhong : Option Single
  peigujia : Option Single
  songzhuangu : Option Single
  peigu : Option Single
  suogu : Option Single
deriving DecidableEq

def FundXdXrInfo.fromXdxrInfo (info : XdXrRecord) : FundXdXrInfo where
  year := info.year
  month := info.month
  day := info.day
  category := info.category
  fenhong := info.fenhong
  peigujia := info.peigujia
  songzhuangu := info.songzhuangu
  peigu := info.peigu
  suogu := info.suogu

/-- The finance report of a fund. -/
structure FundFinanceInfo where
  market : UInt8
  code : Text
  zongguben : Single
  liutongguben : Single
  meigujingzichan : Single
  zongzichan : Single
  jingzichan : Single
deriving DecidableEq

def FundFinanceInfo.fromFinanceInfo (info : FinanceInfo) : FundFinanceInfo where
  market := info.market
  code := info.code
  zongguben := info.zongguben
  liutongguben := info.liutongguben
  meigujingzichan := info.meigujingzichan
  zongzichan := info.zongzichan
  jingzichan := info.jingzichan

/-! ## The calls -/

namespace HqProgram

/-- A call of the client inside, behind a check. -/
def checkedCall {β γ : Type} (check : Except FundError Unit) (code : ErrorCode) (convert : β → γ)
    (inner : HqProgram (Except TdxError β)) : HqProgram (Except TdxError γ) :=
  match check with
  | .error e => pure (.error (code.err e.message))
  | .ok _ => do
    let result ← inner
    pure (result.map convert)

/-- A call for one fund. -/
def fundCall {β γ : Type} (market : UInt8) (code : String) (convert : β → γ)
    (inner : HqProgram (Except TdxError β)) : HqProgram (Except TdxError γ) :=
  checkedCall (validateFundCode market code) .fundCodeNotSupported convert inner

variable (settings : HqSettings)

def getFundBars (category market : UInt8) (code : String) (start : UInt32) (count : UInt16) :
    HqProgram (Except TdxError (List FundBar)) :=
  fundCall market code (List.map FundBar.fromSecurityBar)
    (getSecurityBars settings category market code start.toNat count.toNat 0)

def getFundBarsAll (category market : UInt8) (code : String) (count : UInt16) :
    HqProgram (Except TdxError (List FundBar)) :=
  fundCall market code (List.map FundBar.fromSecurityBar)
    (getSecurityBarsAll settings category market code count 0)

def getFundQuotes (stocks : List (UInt8 × String)) : HqProgram (Except TdxError (List FundQuote)) :=
  checkedCall (validateFundStocks stocks) .invalidFormat (List.map FundQuote.fromSecurityQuote)
    (getSecurityQuotes stocks)

/-- The minutes of today, by the date that `today_yyyymmdd` finds. -/
def getFundMinuteTimeData (market : UInt8) (code : String) (today : UInt32) :
    HqProgram (Except TdxError (List MinuteTimePrice)) :=
  fundCall market code id (getMinuteTimeData market code today)

def getFundHistoryMinuteTimeData (market : UInt8) (code : String) (date : UInt32) :
    HqProgram (Except TdxError (List MinuteTimePrice)) :=
  fundCall market code id (getHistoryMinuteTimeData market code date)

def getFundTransactionData (market : UInt8) (code : String) (start count : UInt16) :
    HqProgram (Except TdxError (List TickData)) :=
  fundCall market code id (getTransactionData market code start count)

def getFundHistoryTransactionData (market : UInt8) (code : String) (start count : UInt16)
    (date : UInt32) : HqProgram (Except TdxError (List TickData)) :=
  fundCall market code id (getHistoryTransactionData market code start count date)

def getFundXdxrInfo (market : UInt8) (code : String) :
    HqProgram (Except TdxError (List FundXdXrInfo)) :=
  fundCall market code (List.map FundXdXrInfo.fromXdxrInfo) (getXdxrRecords market code)

def getFundFinanceInfo (market : UInt8) (code : String) :
    HqProgram (Except TdxError FundFinanceInfo) :=
  fundCall market code FundFinanceInfo.fromFinanceInfo (getFinanceInfo market code)

end HqProgram

/-- A call with its arguments. -/
inductive FundCall where
  | bars (category market : UInt8) (code : String) (start : UInt32) (count : UInt16)
  | barsAll (category market : UInt8) (code : String) (count : UInt16)
  | quotes (stocks : List (UInt8 × String))
  | minuteTimeData (market : UInt8) (code : String) (today : UInt32)
  | historyMinuteTimeData (market : UInt8) (code : String) (date : UInt32)
  | transactionData (market : UInt8) (code : String) (start count : UInt16)
  | historyTransactionData (market : UInt8) (code : String) (start count : UInt16) (date : UInt32)
  | xdxrInfo (market : UInt8) (code : String)
  | financeInfo (market : UInt8) (code : String)
deriving DecidableEq

namespace FundCall

/-- The call of the client inside. -/
def inner : FundCall → DataCall
  | bars category market code start count => .securityBars category market code start count 0
  | barsAll category market code count => .securityBarsAll category market code count 0
  | quotes stocks => .securityQuotes stocks
  | minuteTimeData market code today => .minuteTimeData market code today
  | historyMinuteTimeData market code date => .historyMinuteTimeData market code date
  | transactionData market code start count => .transactionData market code start count
  | historyTransactionData market code start count date =>
    .historyTransactionData market code start count date
  | xdxrInfo market code => .xdxrInfo market code
  | financeInfo market code => .financeInfo market code

/-- The securities that a call is about. -/
def securities : FundCall → List (UInt8 × String)
  | bars _ market code _ _ | barsAll _ market code _ | minuteTimeData market code _
  | historyMinuteTimeData market code _ | transactionData market code _ _
  | historyTransactionData market code _ _ _ | xdxrInfo market code
  | financeInfo market code => [(market, code)]
  | quotes stocks => stocks

/-- The error code of a call that is not about funds. -/
def refusal : FundCall → ErrorCode
  | quotes _ => .invalidFormat
  | _ => .fundCodeNotSupported

/-- What a call returns. -/
def Result : FundCall → Type
  | bars _ _ _ _ _ | barsAll _ _ _ _ => List FundBar
  | quotes _ => List FundQuote
  | minuteTimeData _ _ _ | historyMinuteTimeData _ _ _ => List MinuteTimePrice
  | transactionData _ _ _ _ | historyTransactionData _ _ _ _ _ => List TickData
  | xdxrInfo _ _ => List FundXdXrInfo
  | financeInfo _ _ => FundFinanceInfo

/-- What a call keeps of what the client inside returns. -/
def convert : (call : FundCall) → call.inner.Result → call.Result
  | bars _ _ _ _ _ => List.map FundBar.fromSecurityBar
  | barsAll _ _ _ _ => List.map FundBar.fromSecurityBar
  | quotes _ => List.map FundQuote.fromSecurityQuote
  | minuteTimeData _ _ _ => id
  | historyMinuteTimeData _ _ _ => id
  | transactionData _ _ _ _ => id
  | historyTransactionData _ _ _ _ _ => id
  | xdxrInfo _ _ => List.map FundXdXrInfo.fromXdxrInfo
  | financeInfo _ _ => FundFinanceInfo.fromFinanceInfo

variable (settings : HqSettings)

/-- What a call does. -/
def program : (call : FundCall) → HqProgram (Except TdxError call.Result)
  | bars category market code start count =>
    HqProgram.getFundBars settings category market code start count
  | barsAll category market code count =>
    HqProgram.getFundBarsAll settings category market code count
  | quotes stocks => HqProgram.getFundQuotes stocks
  | minuteTimeData market code today => HqProgram.getFundMinuteTimeData market code today
  | historyMinuteTimeData market code date =>
    HqProgram.getFundHistoryMinuteTimeData market code date
  | transactionData market code start count =>
    HqProgram.getFundTransactionData market code start count
  | historyTransactionData market code start count date =>
    HqProgram.getFundHistoryTransactionData market code start count date
  | xdxrInfo market code => HqProgram.getFundXdxrInfo market code
  | financeInfo market code => HqProgram.getFundFinanceInfo market code

end FundCall

/-! ## The client -/

/-- A call of the user: the list of the funds of a market, a call for data, or a connect, a
disconnect or a switch to another server. -/
inductive FundClientCall where
  | list (market : UInt8)
  | data (call : FundCall)
  | user (e : HqEvent)

/-- The program of a call; what it returns is not looked at. -/
def FundClientCall.program (settings : HqSettings) (gbk : Bytes → Text) :
    FundClientCall → CacheProgram Unit
  | .list market => do
    let _ ← getFundList gbk market
    pure ()
  | .data call => do
    let _ ← CacheProgram.request (call.program settings)
    pure ()
  | .user e => .perform (CacheOp.user e)

/-- The client inside. -/
structure FundClient where
  inner : CachingClient
  /-- Ghost: the packets that have been handed over for the calls. -/
  sent : List Bytes

/-- The packets that an operation hands over. -/
def CacheOp.packets : CacheOp → List Bytes
  | .hq (.trySendAndRecv packet) => [packet]
  | _ => []

namespace FundClient

/-- A new client at a time. -/
def new (now : ℕ) : FundClient := ⟨.new now, []⟩

/-- An operation of the client inside. -/
def perform (lists : ServerLists) (op : CacheOp) (s : FundClient) (input : CacheInput) :
    Option (op.Ans × FundClient) :=
  (CachingClient.perform lists op s.inner input).map fun r =>
    (r.1, ⟨r.2, s.sent ++ op.packets⟩)

/-- What goes on beside the calls. -/
def environment (lists : ServerLists) (s : FundClient) (e : CacheEnvironment) :
    Option FundClient :=
  (CachingClient.environment lists s.inner e).map fun inner => { s with inner }

/-- The client as a system. -/
def system (lists : ServerLists) (settings : HqSettings) (gbk : Bytes → Text) :
    Program.System CacheOp CacheOp.Ans FundClient CacheInput CacheEnvironment FundClientCall where
  perform := perform lists
  environment := environment lists
  program := FundClientCall.program settings gbk

end FundClient

/-! ## Requests for funds -/

/-- A request is for funds: for one, or for quotes of any number of them. -/
def DataRequest.OfFunds : DataRequest → Prop
  | .bars _ market code _ _ | .historyMinuteTimeData market code _
  | .transactionData market code _ _ | .historyTransactionData market code _ _ _
  | .financeInfo market code | .xdxrInfo market code => isFund market code.text.toList = true
  | .securityQuotes stocks _ => ∀ stock ∈ stocks, isFund stock.1 stock.2.text.toList = true
  | .securityCount _ | .securityList _ _ | .blockInfoMeta _ | .blockInfo _ _ _ => False

/-- A request is for the list of the securities of a market. -/
def DataRequest.OfListing : DataRequest → Prop
  | .securityCount _ | .securityList _ _ => True
  | _ => False

/-- The packets that have been handed over are those of requests for funds and for the lists of
securities. -/
def FundClient.AsksForFunds (s : FundClient) : Prop :=
  ∀ packet ∈ s.sent, ∃ q : DataRequest, (q.OfFunds ∨ q.OfListing) ∧ q.packet = packet

/-! ## The checks decide -/

/-- The first security that is no fund decides. -/
lemma validateFundStocks_eq (stocks : List (UInt8 × String)) :
    validateFundStocks stocks =
      (stocks.find? fun stock => !isFund stock.1 stock.2.toList).elim (.ok ()) fun stock =>
        .error (.invalidFundCode s!"{stock.1}:{stock.2} is not a fund") := by
  induction stocks with
  | nil => rfl
  | cons stock stocks ih =>
    rw [validateFundStocks, validateFundCode]
    by_cases hfund : isFund stock.1 stock.2.toList = true
    · rw [if_neg (not_not_intro hfund), List.find?_cons_of_neg (by simp [hfund])]
      exact ih
    · rw [if_pos hfund, List.find?_cons_of_pos (by simp [hfund])]
      rfl

/-- One security is checked like a list of one. -/
lemma validateFundStocks_singleton (market : UInt8) (code : String) :
    validateFundStocks [(market, code)] = validateFundCode market code := by
  rw [validateFundStocks]
  rcases validateFundCode market code with _ | ⟨⟩ <;> rfl

namespace FundCall

/-- A call is a check before the call of the client inside. -/
lemma program_eq (settings : HqSettings) (gbk : Bytes → Text) (call : FundCall) :
    call.program settings =
      HqProgram.checkedCall (validateFundStocks call.securities) call.refusal call.convert
        (call.inner.program settings gbk) := by
  cases call with
  | quotes stocks => rfl
  | _ =>
    simp only [securities, validateFundStocks_singleton]
    rfl

/-- What the client inside asks for, for a call that is about funds.

**Proof sketch.** By the kind of the call: a batch of quotes is a part of the stocks of the call,
and every other request is about its one security. The calls for bars do not adjust, so that they do
not ask for corporate actions. -/
lemma ofFunds_of_asks {call : FundCall}
    (hfunds : ∀ stock ∈ call.securities, isFund stock.1 stock.2.toList = true) {q : DataRequest}
    (hq : call.inner.Asks q) : q.OfFunds := by
  cases call with
  | quotes stocks =>
    obtain ⟨batch, fits, hpart, rfl⟩ := hq
    intro stock hstock
    exact hfunds _ (hpart.subset (List.mem_map.mpr ⟨stock, hstock, rfl⟩))
  | bars category market code start count =>
    obtain ⟨six, rfl | ⟨hfq, -⟩⟩ := hq
    · exact hfunds _ List.mem_cons_self
    · exact absurd rfl hfq
  | barsAll category market code count =>
    obtain ⟨six, ⟨start, count, -, rfl⟩ | ⟨hfq, -⟩⟩ := hq
    · exact hfunds _ List.mem_cons_self
    · exact absurd rfl hfq
  | _ =>
    obtain ⟨six, rfl⟩ := hq
    exact hfunds _ List.mem_cons_self

/-- A call for data sends requests for funds. -/
lemma within_program (settings : HqSettings) (call : FundCall) :
    Program.Within (TriesOf DataRequest.OfFunds) (call.program settings) := by
  rw [call.program_eq settings fun _ => [], validateFundStocks_eq]
  cases hfind : call.securities.find? fun stock => !isFund stock.1 stock.2.toList with
  | some stock => exact Program.within_done _
  | none =>
    have hfunds : ∀ stock ∈ call.securities, isFund stock.1 stock.2.toList = true := by
      simpa using hfind
    have hinner := call.inner.within_program settings (fun _ => [])
      (by cases call <;> trivial)
    refine .bind (hinner.mono fun op hop => hop.mono fun q hq => ofFunds_of_asks hfunds hq) ?_
    exact fun _ => Program.within_done _

/-- A call executed in one go. -/
lemma exec_program (settings : HqSettings) (gbk : Bytes → Text) (call : FundCall) {σ : Type}
    (handle : (op : HqOp) → σ → op.Ans × σ) (w : σ) :
    (call.program settings).exec handle w =
      (call.securities.find? fun stock => !isFund stock.1 stock.2.toList).elim
        (((call.inner.program settings gbk).exec handle w).map (Except.map call.convert) id)
        fun stock => (.error (call.refusal.err
          s!"Invalid fund code: {stock.1}:{stock.2} is not a fund"), w) := by
  rw [call.program_eq settings gbk, validateFundStocks_eq]
  cases call.securities.find? fun stock => !isFund stock.1 stock.2.toList with
  | some stock => rfl
  | none => exact Program.exec_bind handle _ _ w

end FundCall

/-! ## The list of funds -/

/-- The list of funds.

**Proof sketch.** The call asks for the number of securities, and then for one page after the other,
by induction on the starts that are left: every branch of the loop either ends it or goes on to the
next page. -/
lemma within_getFundList (gbk : Bytes → Text) (market : UInt8) :
    Program.Within (CacheTriesOf DataRequest.OfListing) (getFundList gbk market) := by
  have hpages (starts : List UInt16) (funds : List FundInfo) :
      Program.Within (CacheTriesOf DataRequest.OfListing)
        (fundPages gbk market starts funds) := by
    induction starts generalizing funds with
    | nil => exact Program.within_done _
    | cons start starts ih =>
      refine .bind (CacheProgram.within_getSecurityList gbk trivial) fun result => ?_
      cases result with
      | error e => exact Program.within_done _
      | ok secList =>
        dsimp only
        split
        · exact Program.within_done _
        · split
          · exact Program.within_done _
          · split
            · exact Program.within_done _
            · exact ih _
  refine .bind (CacheProgram.within_getSecurityCount trivial) fun result => ?_
  cases result with
  | error e => exact Program.within_done _
  | ok total => exact hpages _ _

/-! ## Runs -/

/-- What a call hands over, whatever is answered. -/
lemma FundClientCall.within_program (settings : HqSettings) (gbk : Bytes → Text)
    (call : FundClientCall) :
    Program.Within (CacheTriesOf fun q => q.OfFunds ∨ q.OfListing) (call.program settings gbk) := by
  cases call with
  | list market =>
    exact .bind ((within_getFundList gbk market).mono fun op hop => hop.mono fun _ => .inr) fun _ =>
      Program.within_done _
  | data call =>
    exact .bind (CacheProgram.within_request ((call.within_program settings).mono fun op hop =>
      hop.mono fun _ => .inl)) fun _ => Program.within_done _
  | user e => exact Program.within_perform trivial

/-- **A client of funds asks for funds only.** Its user may make calls in any order, with any
arguments, while its heartbeat moves it between servers and requests fail: every packet that is
handed over for a call is that of a request for funds, or of one for the list of the securities of a
market. A call with a security that is no fund hands over nothing and names the first one; the other
calls are those of the client inside, without what funds do not have.

**Proof sketch.** A call is a check before the call of the client inside (`FundCall.program_eq`). If
the check fails, the program sends nothing. Otherwise the client inside sends its own requests only,
which are for the securities of the call, and these are funds; an adjustment, which would ask for
more, is never asked for. The list of funds sends requests for the list of the securities. A system
whose programs keep within such packets keeps them in every run (`Program.System.run_within`),
whatever the heartbeat does between the operations. -/
theorem fund_client_asks_for_funds (lists : ServerLists) (settings : HqSettings)
    (gbk : Bytes → Text) :
    (∀ now events c,
      Transition.run (FundClient.system lists settings gbk).step ⟨.new now, .done ()⟩ events =
        some c →
      c.state.AsksForFunds) ∧
    ∀ (call : FundCall) (σ : Type) (handle : (op : HqOp) → σ → op.Ans × σ) (w : σ),
      (call.program settings).exec handle w =
        (call.securities.find? fun stock => !isFund stock.1 stock.2.toList).elim
          (((call.inner.program settings gbk).exec handle w).map (Except.map call.convert) id)
          fun stock => (.error (call.refusal.err
            s!"Invalid fund code: {stock.1}:{stock.2} is not a fund"), w) := by
  refine ⟨fun now events c hrun => ?_,
    fun call _ handle w => call.exec_program settings gbk handle w⟩
  have hnew : (FundClient.new now).AsksForFunds := List.forall_mem_nil _
  refine Program.System.run_within (FundClientCall.within_program settings gbk) ?_ ?_ hnew hrun
  · intro op s input r s' hop hgood hperform
    obtain ⟨⟨r', inner⟩, -, heq⟩ := Option.map_eq_some_iff.mp hperform
    obtain ⟨-, rfl⟩ := Prod.mk.inj heq
    refine List.forall_mem_append.mpr ⟨hgood, ?_⟩
    cases op with
    | hq op =>
      cases op with
      | trySendAndRecv packet => exact List.forall_mem_singleton.mpr hop
      | _ => exact List.forall_mem_nil _
    | _ => exact List.forall_mem_nil _
  · intro s e s' hgood henv
    obtain ⟨inner, -, rfl⟩ := Option.map_eq_some_iff.mp henv
    exact hgood

/-- The user connects and asks for the K-line of a fund, and the request gets no answer. -/
def fundBarsRun : List (Program.Event CacheInput CacheEnvironment FundClientCall) :=
  [.start (.user (.connect ("59.36.5.11", 7709) .connected)), .perform plainInput,
    .start (.data (.bars 4 1 "510300" 0 10)), .perform plainInput]

/-- One packet has been handed over. -/
theorem fund_client_asks_for_funds_once :
    ∃ c, Transition.run (FundClient.system twoPrimaries ⟨fun _ => .ok [], .mid, 2100⟩
        fun _ => []).step ⟨.new 0, .done ()⟩ fundBarsRun = some c ∧
      c.state.sent = [buildSecurityBarsPacket 4 1 "510300" 0 10] ∧ c.state.AsksForFunds :=
  ⟨_, rfl, rfl, (fund_client_asks_for_funds twoPrimaries ⟨fun _ => .ok [], .mid, 2100⟩
    fun _ => []).1 0 fundBarsRun _ rfl⟩

end Tdxrs
