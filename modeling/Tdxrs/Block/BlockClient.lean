import Tdxrs.Net.DataCalls
import Tdxrs.Net.QuoteBatches
import Tdxrs.Net.SliceServer

set_option relaxedAutoImplicit false
set_option autoImplicit false

/-!
# The client for blocks

`TdxBlockClient` in `src/block/client.rs` asks for K-lines, quotes and lists of blocks over the
client without a pool, past its checks against block codes. What it is for is to keep limits: no
K-lines by the minute, few bars of the short categories, and never more than a page; a number of
bars that is left open is filled in. Only the lower 16 bits of a start are sent, and of the bars of
an answer the last one is lost if its record has fewer than 24 bytes, as in every call for the
K-line of an index.

## Main definitions

* `Tdxrs.klineLimit` — the limits by category.
* `Tdxrs.getBlockBars` and others — the calls; `Tdxrs.BlockCall` — the calls with their arguments.
* `Tdxrs.BlockAsks` — the packets within the limits.

## Main results

* `Tdxrs.block_client_keeps_limits` — the calls send no other packets, and return what is there up
  to the limits.
-/

namespace Tdxrs

open Window

variable {σ : Type}

/-! ## The calls -/

/-- The limits for K-lines of a category. -/
structure KlineLimit where
  defaultCount : UInt16
  maxCount : UInt16
  allowed : Bool
deriving DecidableEq, Repr

/-- The limits by category. Categories that are not listed have those of days. -/
def klineLimit (category : UInt8) : KlineLimit :=
  if category ∈ [4, 5, 6, 10, 11] then ⟨100, 800, true⟩
  else if category = 3 then ⟨200, 800, true⟩
  else if category = 2 then ⟨50, 200, true⟩
  else if category = 1 then ⟨50, 200, true⟩
  else if category = 0 then ⟨50, 200, true⟩
  else if category ∈ [7, 8] then ⟨0, 0, false⟩
  else ⟨100, 800, true⟩

/-- The number of bars that is asked for. -/
def KlineLimit.actualCount (limit : KlineLimit) (count : UInt16) : UInt16 :=
  if count = 0 then limit.defaultCount else min count limit.maxCount

/-- K-lines of an index without the check against block codes. -/
def DirectEnv.getIndexBarsInner (env : DirectEnv σ) (category market : UInt8) (code : String)
    (start count : ℕ) (w : σ) : Except TdxError (List IndexBar) × σ :=
  match env.sendAndRecv (buildIndexBarsPacket category market code start count) w with
  | (.error e, w) => (.error e, w)
  | (.ok body, w) => (parseIndexBars env.maxValidYear category body, w)

section Call

variable (env : DirectEnv σ) (gbk : Bytes → Text)

/-- K-lines of a block. -/
def getBlockBars (category : UInt8) (code : String) (start : UInt32) (count : UInt16) (w : σ) :
    Except TdxError (List IndexBar) × σ :=
  let limit := klineLimit category
  if !limit.allowed then
    (.error (.invalidData
      s!"category={category} (1min/扩展1min) is not allowed for block queries"), w)
  else
    env.getIndexBarsInner category 1 code start.toNat (limit.actualCount count).toNat w

/-- The newest K-lines of a block. -/
def getBlockBarsDefault (category : UInt8) (code : String) (w : σ) :
    Except TdxError (List IndexBar) × σ :=
  getBlockBars env category code 0 0 w

/-- Quotes of blocks, past the check against block codes. -/
def getBlockQuotes (codes : List String) (w : σ) : Except TdxError (List SecurityQuote) × σ :=
  requestQuotes env.sendAndRecv (codes.map fun code => (1, code)) w

/-- The records of a block file. -/
def getBlockList (blockFile : String) (w : σ) : Except TdxError (List BlockRecord) × σ :=
  env.getAndParseBlockInfo gbk blockFile w

def getIndustryBlocks (w : σ) : Except TdxError (List BlockRecord) × σ :=
  getBlockList env gbk "block_fg.dat" w

def getConceptBlocks (w : σ) : Except TdxError (List BlockRecord) × σ :=
  getBlockList env gbk "block_gn.dat" w

def getIndexBlocks (w : σ) : Except TdxError (List BlockRecord) × σ :=
  getBlockList env gbk "block_zs.dat" w

end Call

/-- A call with its arguments. -/
inductive BlockCall where
  | bars (category : UInt8) (code : String) (start : UInt32) (count : UInt16)
  | barsDefault (category : UInt8) (code : String)
  | quotes (codes : List String)
  | list (blockFile : String)
  | industryBlocks
  | conceptBlocks
  | indexBlocks
deriving DecidableEq

/-- The world after a call. -/
def BlockCall.run (env : DirectEnv σ) (gbk : Bytes → Text) (w : σ) : BlockCall → σ
  | bars category code start count => (getBlockBars env category code start count w).2
  | barsDefault category code => (getBlockBarsDefault env category code w).2
  | quotes codes => (getBlockQuotes env codes w).2
  | list blockFile => (getBlockList env gbk blockFile w).2
  | industryBlocks => (getIndustryBlocks env gbk w).2
  | conceptBlocks => (getConceptBlocks env gbk w).2
  | indexBlocks => (getIndexBlocks env gbk w).2

/-! ## Limits -/

/-- A packet within the limits: for K-lines of a block, but not by the minute, for at most a page of
them, or 200 of the short categories; for quotes in one batch; or for a block file, in chunks. -/
inductive BlockAsks : Bytes → Prop where
  | bars {category : UInt8} (code : String) (start : ℕ) {count : ℕ}
      (hcategory : category ≠ 7 ∧ category ≠ 8) (hcount : 0 < count ∧ count ≤ maxKlineCount)
      (hshort : category ≤ 2 → count ≤ 200) :
      BlockAsks (buildIndexBarsPacket category 1 code start count)
  | quotes {codes : List String} (hfew : codes.length ≤ maxQuotesCount) :
      BlockAsks (HqProgram.buildSecurityQuotesPacket (codes.map fun code => (1, code)))
  | blockInfoMeta (blockFile : String) : BlockAsks (blockInfoMetaPacket blockFile)
  | blockInfo (blockFile : String) (start : ℕ) {size : ℕ} (hsize : size ≤ blockChunkSize) :
      BlockAsks (blockInfoPacket blockFile start size)

/-- Both numbers of bars of a limit are in a range. -/
def KlineLimit.UpTo (limit : KlineLimit) (n : UInt16) : Prop :=
  (0 < limit.defaultCount ∧ limit.defaultCount ≤ n) ∧ 0 < limit.maxCount ∧ limit.maxCount ≤ n

/-- What is asked for is in the range of the limit. -/
lemma KlineLimit.UpTo.actualCount {limit : KlineLimit} {n : UInt16} (h : limit.UpTo n)
    (count : UInt16) : 0 < limit.actualCount count ∧ limit.actualCount count ≤ n := by
  unfold KlineLimit.actualCount
  split
  · exact h.1
  · rename_i hcount
    rw [show min count limit.maxCount = if count ≤ limit.maxCount then count else limit.maxCount
      from rfl]
    split
    · rename_i hle
      exact ⟨UInt16.pos_iff_ne_zero.mpr hcount, UInt16.le_trans hle h.2.2⟩
    · exact h.2

/-- The limits of the categories that are allowed.

**Proof sketch.** By the branches of the table of limits: each allowed category has a page of at
most 800, the short ones one of at most 200, and the categories of one minute are not allowed. -/
lemma klineLimit_upTo {category : UInt8} (h : (klineLimit category).allowed = true) :
    (category ≠ 7 ∧ category ≠ 8) ∧ (klineLimit category).UpTo 800 ∧
      (category ≤ 2 → (klineLimit category).UpTo 200) := by
  unfold klineLimit at h ⊢
  simp only [List.mem_cons, List.not_mem_nil, or_false] at h ⊢
  split_ifs at h ⊢ with hlong hour half quarter five minute
  · refine ⟨?_, ⟨by decide, by decide⟩, fun hle => ?_⟩
    · rcases hlong with rfl | rfl | rfl | rfl | rfl <;> decide
    · rcases hlong with rfl | rfl | rfl | rfl | rfl <;> exact absurd hle (by decide)
  · subst hour
    exact ⟨by decide, ⟨by decide, by decide⟩, fun hle => absurd hle (by decide)⟩
  · subst half
    exact ⟨by decide, ⟨by decide, by decide⟩, fun _ => ⟨by decide, by decide⟩⟩
  · subst quarter
    exact ⟨by decide, ⟨by decide, by decide⟩, fun _ => ⟨by decide, by decide⟩⟩
  · subst five
    exact ⟨by decide, ⟨by decide, by decide⟩, fun _ => ⟨by decide, by decide⟩⟩
  · refine ⟨not_or.mp minute, ⟨by decide, by decide⟩, fun hle => ?_⟩
    grind

/-! ## What the calls send -/

variable {env : DirectEnv σ} {gbk : Bytes → Text}

/-- A property of the world is kept by the packets within the limits. -/
def KeptWithin (env : DirectEnv σ) (Kept : σ → Prop) : Prop :=
  ∀ packet w, BlockAsks packet → Kept w → Kept (env.sendAndRecv packet w).2

namespace KeptWithin

variable {Kept : σ → Prop} {w : σ}

/-- K-lines.

**Proof sketch.** A category that is not allowed is refused before anything is sent. Otherwise one
request is sent, with a count within the limits of the category (`klineLimit_upTo`), and `h` keeps
the property whatever the answer is. -/
lemma getBlockBars (h : KeptWithin env Kept) (category : UInt8) (code : String) (start : UInt32)
    (count : UInt16) (hw : Kept w) : Kept (getBlockBars env category code start count w).2 := by
  unfold Tdxrs.getBlockBars
  dsimp only
  split
  · exact hw
  · rename_i hallowed
    obtain ⟨hcategory, hpage, hshort⟩ := klineLimit_upTo (by simpa using hallowed)
    obtain ⟨hpos, hle⟩ := hpage.actualCount count
    have hcount : 0 < ((klineLimit category).actualCount count).toNat ∧
        ((klineLimit category).actualCount count).toNat ≤ maxKlineCount :=
      ⟨UInt16.lt_iff_toNat_lt.mp hpos, UInt16.le_iff_toNat_le.mp hle⟩
    have hsent := h _ w (.bars code start.toNat hcategory hcount fun hle =>
      UInt16.le_iff_toNat_le.mp ((hshort hle).actualCount count).2) hw
    unfold DirectEnv.getIndexBarsInner
    rcases hreply : env.sendAndRecv (buildIndexBarsPacket category 1 code start.toNat
      ((klineLimit category).actualCount count).toNat) w with ⟨e | body, w'⟩ <;>
      rw [hreply] at hsent <;> exact hsent

/-- One batch of quotes.

**Proof sketch.** All stocks of the batch are on market 1, so the packet is the one of their codes,
which `h` allows; the answer changes nothing any more. -/
lemma requestQuotesBatch (h : KeptWithin env Kept) {stocks : List (UInt8 × String)}
    (hblocks : ∀ stock ∈ stocks, stock.1 = 1) (hfew : stocks.length ≤ maxQuotesCount)
    (hw : Kept w) : Kept (requestQuotesBatch env.sendAndRecv stocks w).2 := by
  have hcodes : (stocks.map Prod.snd).map (fun code => ((1 : UInt8), code)) = stocks := by
    rw [List.map_map]
    refine (List.map_congr_left fun stock hstock => ?_).trans (List.map_id stocks)
    exact Prod.ext (hblocks stock hstock).symm rfl
  have hfew' : (stocks.map Prod.snd).length ≤ maxQuotesCount := by rwa [List.length_map]
  have hsent := h _ w (.quotes hfew') hw
  rw [hcodes] at hsent
  unfold Tdxrs.requestQuotesBatch
  rcases hreply : env.sendAndRecv (HqProgram.buildSecurityQuotesPacket stocks) w with
    ⟨e | body, w'⟩ <;> rw [hreply] at hsent
  · exact hsent
  · dsimp only
    split <;> exact hsent

/-- Quotes.

**Proof sketch.** Every code is asked for on market 1, and every batch has at most the allowed
number of stocks. The batches that are left are asked for one after the other, by induction on them,
each by `requestQuotesBatch`. -/
lemma getBlockQuotes (h : KeptWithin env Kept) (codes : List String) (hw : Kept w) :
    Kept (getBlockQuotes env codes w).2 := by
  have hblocks : ∀ stock ∈ codes.map fun code => ((1 : UInt8), code), stock.1 = 1 := by
    intro stock hstock
    obtain ⟨code, -, rfl⟩ := List.mem_map.mp hstock
    rfl
  have hleft (batches : List (List (UInt8 × String))) (quotes : List SecurityQuote)
      (hbatches : ∀ batch ∈ batches, (∀ stock ∈ batch, stock.1 = 1) ∧
        batch.length ≤ maxQuotesCount) (w : σ) (hw : Kept w) :
      Kept (requestQuotesLeft env.sendAndRecv batches quotes w).2 := by
    induction batches generalizing quotes w with
    | nil => exact hw
    | cons batch batches ih =>
      obtain ⟨hbatch, hbatches⟩ := List.forall_mem_cons.mp hbatches
      have hsent := h.requestQuotesBatch hbatch.1 hbatch.2 hw
      rw [requestQuotesLeft]
      rcases hreply : Tdxrs.requestQuotesBatch env.sendAndRecv batch w with ⟨e | new, w'⟩ <;>
        rw [hreply] at hsent
      · exact hsent
      · exact ih _ hbatches w' hsent
  unfold Tdxrs.getBlockQuotes requestQuotes
  split
  · rename_i hfew
    exact h.requestQuotesBatch hblocks hfew hw
  · refine hleft _ [] (fun batch hbatch => ?_) w hw
    obtain ⟨hpart, hfew⟩ := HqProgram.infix_of_mem_chunks hbatch
    exact ⟨fun stock hstock => hblocks stock (hpart.subset hstock), hfew⟩

/-- The chunks of a file.

**Proof sketch.** Strong induction on the number of bytes that are left: a chunk that is not refused
moves the offset on by its length, which is at most a chunk and at most what is left. -/
lemma blockChunks (h : KeptWithin env Kept) (blockFile : String) (size offset : ℕ)
    (allData : Bytes) (hw : Kept w) :
    Kept (blockChunks env.sendAndRecv blockFile size offset allData w).2 := by
  induction hleft : size - offset using Nat.strong_induction_on generalizing offset allData w with
  | _ left ih =>
    rw [Tdxrs.blockChunks]
    split
    · have hsent := h _ w (.blockInfo blockFile offset (min_le_left _ (size - offset))) hw
      dsimp only
      unfold getBlockInfo
      rcases hreply : env.sendAndRecv (blockInfoPacket blockFile offset
        (min blockChunkSize (size - offset))) w with ⟨e | body, w'⟩ <;> rw [hreply] at hsent
      · exact hsent
      · dsimp only
        rcases parseBlockInfo body with e | chunk
        · exact hsent
        · refine ih _ ?_ _ _ hsent rfl
          simp only [blockChunkSize]
          omega
    · exact hw

/-- Block files. -/
lemma getBlockList (h : KeptWithin env Kept) (blockFile : String) (hw : Kept w) :
    Kept (getBlockList env gbk blockFile w).2 := by
  have hsent := h _ w (.blockInfoMeta blockFile) hw
  unfold Tdxrs.getBlockList DirectEnv.getAndParseBlockInfo getAndParseBlockInfo getBlockInfoMeta
  rcases hreply : env.sendAndRecv (blockInfoMetaPacket blockFile) w with ⟨e | body, w'⟩ <;>
    rw [hreply] at hsent
  · exact hsent
  · dsimp only
    rcases parseBlockInfoMeta body with e | info
    · exact hsent
    · have hchunks := h.blockChunks blockFile info.size 0 [] hsent
      dsimp only
      rcases hrest : Tdxrs.blockChunks env.sendAndRecv blockFile info.size 0 [] w' with
        ⟨e | allData, w''⟩ <;> rw [hrest] at hchunks <;> exact hchunks

/-- Every call. -/
lemma run (h : KeptWithin env Kept) (call : BlockCall) (hw : Kept w) :
    Kept (call.run env gbk w) := by
  cases call with
  | bars category code start count => exact h.getBlockBars category code start count hw
  | barsDefault category code => exact h.getBlockBars category code 0 0 hw
  | quotes codes => exact h.getBlockQuotes codes hw
  | _ => exact h.getBlockList _ hw

end KeptWithin

/-! ## What is returned -/

/-- K-lines from a server that answers with slices of its records.

**Proof sketch.** The call has a result only if the category is allowed and the server answers. The
answer encodes a slice of the records, from the start that 16 bits of the packet carry
(`AnswersRecords.build`), and `parseIndexBars_encode` says which of its bars the parser reads. -/
lemma getBlockBars_eq {category : UInt8} {code : String} {records : List IndexRecord}
    (hrecords : ∀ r ∈ records, r.Encodable env.maxValidYear category)
    (hanswers : AnswersRecords env.sendAndRecv (encodeIndexBars category) category 1 code records)
    {start : UInt32} {count : UInt16} {w w' : σ} {bars : List IndexBar}
    (hcall : getBlockBars env category code start count w = (.ok bars, w')) :
    bars = barsRead category (slice records (start.toNat % 65536)
      ((klineLimit category).actualCount count).toNat) := by
  unfold getBlockBars DirectEnv.getIndexBarsInner at hcall
  dsimp only at hcall
  split at hcall
  · cases (Prod.mk.inj hcall).1
  · have hcount := ((klineLimit category).actualCount count).toNat_lt
    rcases hreply : env.sendAndRecv (buildIndexBarsPacket category 1 code start.toNat
      ((klineLimit category).actualCount count).toNat) w with ⟨e | body, w₁⟩ <;>
      rw [hreply] at hcall
    · cases (Prod.mk.inj hcall).1
    · have hparse := (Prod.mk.inj hcall).1
      have hlen : (slice records (start.toNat % 65536)
          ((klineLimit category).actualCount count).toNat).length < 2 ^ 16 := by
        rw [length_slice]
        omega
      rw [hanswers.build (by omega) hreply, parseIndexBars_encode hlen fun r hr =>
        hrecords r ((slice_sublist _ _ _).subset hr)] at hparse
      exact (Except.ok.inj hparse).symm

/-- **The client for blocks keeps its limits.** Whatever its calls and the answers to them, it sends
no packets but those within the limits: for K-lines of the second market, at least one bar and at
most a page, no minutes and at most 200 bars of the short categories; for quotes in batches; and for
block files in chunks. K-lines by the minute are refused with nothing sent; and from a server that
answers with slices of its records, bars that are returned are those from the lower 16 bits of the
start on, as many as were asked for up to the limit, and as many as the category has by default if
no number is given; the last of them is missing if its record has fewer than 24 bytes.

**Proof sketch.** A property of the world that packets within the limits keep is kept by every call:
for the limits of the categories one case each, for quotes and files by induction on the batches and
the chunks. What is returned is what the parser reads of the encoded slice. -/
theorem block_client_keeps_limits (env : DirectEnv σ) (gbk : Bytes → Text) :
    (∀ Kept : σ → Prop, KeptWithin env Kept → ∀ (call : BlockCall) w, Kept w →
      Kept (call.run env gbk w)) ∧
    (∀ (category : UInt8) code start count w, category = 7 ∨ category = 8 →
      getBlockBars env category code start count w = (.error (.invalidData
        s!"category={category} (1min/扩展1min) is not allowed for block queries"), w)) ∧
    ∀ (category : UInt8) (code : String) (records : List IndexRecord),
      (∀ r ∈ records, r.Encodable env.maxValidYear category) →
      AnswersRecords env.sendAndRecv (encodeIndexBars category) category 1 code records →
      ∀ (start : UInt32) (count : UInt16) w bars w',
        getBlockBars env category code start count w = (.ok bars, w') →
        bars = barsRead category (slice records (start.toNat % 65536)
          ((klineLimit category).actualCount count).toNat) := by
  refine ⟨fun _ h call _ hw => h.run call hw, ?_,
    fun _ _ _ hrecords hanswers _ _ _ _ _ hcall => getBlockBars_eq hrecords hanswers hcall⟩
  rintro category code start count w (rfl | rfl) <;> rfl

/-- A server without bars that keeps a record of the packets. -/
def recordingDirect : DirectEnv (List Bytes) where
  sendAndRecv packet log := (.ok [0, 0], log ++ [packet])
  getXdxrInfo _ _ log := (.ok [], log)
  fqContextTier := .mid
  maxValidYear := 2036

/-- A client whose server has the records of an index. -/
def indexDirect (records : List IndexRecord) : DirectEnv Unit where
  sendAndRecv := (indexEnv records).trySendAndRecv
  getXdxrInfo _ _ w := (.ok [], w)
  fqContextTier := .mid
  maxValidYear := 2036

lemma indexDirect_answers (records : List IndexRecord) (category : UInt8) (code : String) :
    AnswersRecords (indexDirect records).sendAndRecv (encodeIndexBars category) category 1 code
      records := by
  intro packet start count w body w' hpacket hsend
  obtain ⟨w₁, hserved⟩ := indexEnv_serves records category 1 code packet start count w hpacket
  exact Except.ok.inj (Prod.mk.inj (hsend.symm.trans hserved)).1

/-- Of 500 bars of five minutes 200 are asked for; and the first of two days is returned. -/
theorem block_client_keeps_limits_short :
    ((BlockCall.bars 0 "880301" 0 500).run recordingDirect (fun _ => []) [] =
        [buildIndexBarsPacket 0 1 "880301" 0 200] ∧
      ∀ packet ∈ (BlockCall.bars 0 "880301" 0 500).run recordingDirect (fun _ => []) [],
        BlockAsks packet) ∧
      ∃ bars, (getBlockBars (indexDirect quietDays) 4 "880301" 65536 0 ()).1 = .ok bars ∧
        bars = barsRead 4 (slice quietDays 0 100) := by
  have hkept : KeptWithin recordingDirect fun log => ∀ packet ∈ log, BlockAsks packet :=
    fun packet log hasks hlog => List.forall_mem_append.mpr
      ⟨hlog, List.forall_mem_singleton.mpr hasks⟩
  refine ⟨⟨by decide +kernel, (block_client_keeps_limits recordingDirect fun _ => []).1 _ hkept _ []
    (List.forall_mem_nil _)⟩, ?_⟩
  have hok : (getBlockBars (indexDirect quietDays) 4 "880301" 65536 0 ()).1.isOk = true := by
    decide +kernel
  rcases hcall : getBlockBars (indexDirect quietDays) 4 "880301" 65536 0 () with ⟨e | bars, w⟩
  · rw [hcall] at hok
    cases hok
  · exact ⟨bars, rfl, (block_client_keeps_limits (indexDirect quietDays) fun _ => []).2.2 4 "880301"
      quietDays quietDays_encodable (indexDirect_answers quietDays 4 "880301") 65536 0 () bars w
      hcall⟩

end Tdxrs
