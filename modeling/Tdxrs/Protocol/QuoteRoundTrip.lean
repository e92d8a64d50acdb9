import Tdxrs.Protocol.FieldEncoding
import Tdxrs.Protocol.Quotes

set_option relaxedAutoImplicit false
set_option autoImplicit false

/-!
# The round trip of quotes

What a server sends for a list of quotes, and that `parse_security_quotes` returns them. All prices
of a quote but the first travel as differences to the first. The shortest quote has 56 bytes, which
is exactly what the parser asks for before it reads one.

## Main definitions

* `Tdxrs.QuoteRecord`, `Tdxrs.QuoteLevel` — a quote as it travels, with its five levels.
* `Tdxrs.QuoteRecord.quote` — the quote that is to be read.
* `Tdxrs.encodeSecurityQuotes` — the response.

## Main results

* `Tdxrs.reads_quote` — a record is read back.
* `Tdxrs.quotes_round_trip` — the parser returns the quotes that were encoded.
-/

namespace Tdxrs

/-! ## Records -/

/-- A level of a quote: the prices that are bid and asked, in units, and their volumes. -/
structure QuoteLevel where
  bid : ℤ
  ask : ℤ
  bidVol : ℤ
  askVol : ℤ
deriving DecidableEq

/-- A quote as it travels, with its prices in units. -/
structure QuoteRecord where
  market : UInt8
  code : Bytes
  active1 : ℕ
  price : ℤ
  lastClose : ℤ
  «open» : ℤ
  high : ℤ
  low : ℤ
  reserved0 : ℕ
  reserved1 : ℕ
  vol : ℤ
  curVol : ℤ
  amount : ℕ
  sVol : ℤ
  bVol : ℤ
  reserved2 : ℕ
  reserved3 : ℕ
  level1 : QuoteLevel
  level2 : QuoteLevel
  level3 : QuoteLevel
  level4 : QuoteLevel
  level5 : QuoteLevel
  reserved4 : ℕ
  reserved5 : ℕ
  reserved6 : ℕ
  reserved7 : ℕ
  reserved8 : ℕ
  reserved9 : ℤ
  active2 : ℕ
deriving DecidableEq

/-- A price that can be written as the difference to another one. -/
def PriceFitsBase (base price : ℤ) : Prop := price.natAbs < 2 ^ 62 ∧ (price - base).natAbs < 2 ^ 62

/-- The level can be written as differences to a price. -/
structure QuoteLevel.Encodable (base : ℤ) (l : QuoteLevel) : Prop where
  prices : PriceFitsBase base l.bid ∧ PriceFitsBase base l.ask
  vols : l.bidVol.natAbs < 2 ^ 62 ∧ l.askVol.natAbs < 2 ^ 62

namespace QuoteRecord

variable (r : QuoteRecord)

/-- The five levels, the best one first. -/
def levels : List QuoteLevel := [r.level1, r.level2, r.level3, r.level4, r.level5]

/-- The quotes that the format can carry. -/
structure Encodable : Prop where
  code : r.code.length = 6 ∧ (∀ b ∈ r.code, b < 0x80) ∧ r.code.getLast? ≠ some 0
  active : r.active1 < 2 ^ 16 ∧ r.active2 < 2 ^ 16
  price : r.price.natAbs < 2 ^ 62
  prices : ∀ z ∈ [r.lastClose, r.open, r.high, r.low], PriceFitsBase r.price z
  vols : ∀ z ∈ [r.vol, r.curVol, r.sVol, r.bVol], z.natAbs < 2 ^ 62
  amount : r.amount < 2 ^ 32
  levels : ∀ l ∈ r.levels, l.Encodable r.price
  reserved : ∀ n ∈ [r.reserved0, r.reserved1, r.reserved2, r.reserved3, r.reserved5, r.reserved6,
    r.reserved7, r.reserved8], n < 2 ^ 32
  reserved4 : r.reserved4 < 2 ^ 16
  reserved9 : -2 ^ 15 ≤ r.reserved9 ∧ r.reserved9 < 2 ^ 15

/-- The quote of a record. -/
def quote : SecurityQuote :=
  let code := asciiText r.code
  let scaled (z : ℤ) : ℚ := z * getSecurityCoefficient r.market code
  { market := r.market
    code := code
    active1 := r.active1
    price := scaled r.price
    lastClose := scaled r.lastClose
    «open» := scaled r.open
    high := scaled r.high
    low := scaled r.low
    servertime := formatServertime r.reserved0
    vol := r.vol
    curVol := r.curVol
    amount := getVolume r.amount
    sVol := r.sVol
    bVol := r.bVol
    bids := r.levels.map fun l => scaled l.bid
    bidVols := r.levels.map fun l => (l.bidVol : ℚ)
    asks := r.levels.map fun l => scaled l.ask
    askVols := r.levels.map fun l => (l.askVol : ℚ)
    reversedBytes0 := r.reserved0
    reversedBytes1 := r.reserved1
    reversedBytes2 := r.reserved2
    reversedBytes3 := r.reserved3
    reversedBytes4 := r.reserved4
    reversedBytes5 := r.reserved5
    reversedBytes6 := r.reserved6
    reversedBytes7 := r.reserved7
    reversedBytes8 := r.reserved8
    reversedBytes9 := (r.reserved9 % 2 ^ 32).toNat
    active2 := r.active2 }

/-- The price, and what is written up to the amount. -/
def headValues : List ℤ :=
  [r.price, r.lastClose - r.price, r.open - r.price, r.high - r.price, r.low - r.price,
    r.reserved0, r.reserved1, r.vol, r.curVol]

/-- What is written for the levels. -/
def levelDiffs : List ℤ :=
  r.levels.flatMap fun l => [l.bid - r.price, l.ask - r.price, l.bidVol, l.askVol]

/-- What is written in the fields of a record. -/
def values : List ℤ :=
  r.headValues ++ [(r.amount : ℤ)] ++ [r.sVol, r.bVol, r.reserved2, r.reserved3] ++ r.levelDiffs ++
    [(r.reserved4 : ℤ)] ++ [(r.reserved5 : ℤ), r.reserved6, r.reserved7, r.reserved8]

/-- The bytes of a record. -/
def encode : Bytes :=
  [r.market] ++ (r.code ++ (LittleEndian.toLE 2 r.active1 ++ (putFields quoteFields r.values ++
    (LittleEndian.toLE 2 (r.reserved9 % 2 ^ 16).toNat ++ LittleEndian.toLE 2 r.active2))))

end QuoteRecord

/-- The records of a response. -/
def quoteFormat : Records.Format Unit QuoteRecord UInt8 where
  write _ r := r.encode
  next _ _ := ()

/-- The response with quotes: two bytes are skipped before the count. -/
def encodeSecurityQuotes (skipped : Bytes) (rs : List QuoteRecord) : Bytes :=
  skipped ++ (LittleEndian.toLE 2 rs.length ++ quoteFormat.bytes () rs)

/-! ## The fields of a record -/

/-- Prices that are written one after the other. -/
lemma forall₂_replicate_price {zs : List ℤ} (hzs : ∀ z ∈ zs, z.natAbs < 2 ^ 62) :
    List.Forall₂ Field.Fits (List.replicate zs.length .price) zs := by
  induction zs with
  | nil => exact .nil
  | cons z zs ih =>
    obtain ⟨hz, hzs⟩ := List.forall_mem_cons.mp hzs
    exact .cons hz (ih hzs)

lemma natAbs_word {n : ℕ} (hn : n < 2 ^ 32) : (n : ℤ).natAbs < 2 ^ 62 := by
  omega

section

variable {r : QuoteRecord}

/-- The price, and what is written up to the amount. -/
lemma QuoteRecord.Encodable.headValues_fit (hr : r.Encodable) :
    ∀ z ∈ r.headValues, z.natAbs < 2 ^ 62 := by
  have hprices := hr.prices
  have hvols := hr.vols
  have hreserved := hr.reserved
  simp only [List.forall_mem_cons] at hprices hvols hreserved
  obtain ⟨hclose, hopen, hhigh, hlow, -⟩ := hprices
  obtain ⟨hvol, hcurVol, -⟩ := hvols
  obtain ⟨h0, h1, -⟩ := hreserved
  simp only [QuoteRecord.headValues, List.forall_mem_cons]
  exact ⟨hr.price, hclose.2, hopen.2, hhigh.2, hlow.2, natAbs_word h0, natAbs_word h1, hvol,
    hcurVol, fun z hz => absurd hz List.not_mem_nil⟩

/-- What is written between the amount and the levels. -/
lemma QuoteRecord.Encodable.midValues_fit (hr : r.Encodable) :
    ∀ z ∈ [r.sVol, r.bVol, r.reserved2, r.reserved3], z.natAbs < 2 ^ 62 := by
  have hvols := hr.vols
  have hreserved := hr.reserved
  simp only [List.forall_mem_cons] at hvols hreserved ⊢
  obtain ⟨-, -, hsVol, hbVol, -⟩ := hvols
  obtain ⟨-, -, h2, h3, -⟩ := hreserved
  exact ⟨hsVol, hbVol, natAbs_word h2, natAbs_word h3, fun z hz => absurd hz List.not_mem_nil⟩

/-- What is written for the levels. -/
lemma QuoteRecord.Encodable.levelDiffs_fit (hr : r.Encodable) :
    ∀ z ∈ r.levelDiffs, z.natAbs < 2 ^ 62 := by
  intro z hz
  obtain ⟨l, hl, hz⟩ := List.mem_flatMap.mp hz
  have hlevel := hr.levels l hl
  simp only [List.mem_cons, List.not_mem_nil, or_false] at hz
  rcases hz with rfl | rfl | rfl | rfl
  · exact hlevel.prices.1.2
  · exact hlevel.prices.2.2
  · exact hlevel.vols.1
  · exact hlevel.vols.2

/-- What is written at the end. -/
lemma QuoteRecord.Encodable.endValues_fit (hr : r.Encodable) :
    ∀ z ∈ [(r.reserved5 : ℤ), r.reserved6, r.reserved7, r.reserved8], z.natAbs < 2 ^ 62 := by
  have hreserved := hr.reserved
  simp only [List.forall_mem_cons] at hreserved ⊢
  obtain ⟨-, -, -, -, h5, h6, h7, h8, -⟩ := hreserved
  exact ⟨natAbs_word h5, natAbs_word h6, natAbs_word h7, natAbs_word h8,
    fun z hz => absurd hz List.not_mem_nil⟩

/-- **The fields of a quote can be written.** -/
lemma QuoteRecord.Encodable.values_fit (hr : r.Encodable) :
    List.Forall₂ Field.Fits quoteFields r.values := by
  have hamount : List.Forall₂ Field.Fits [.u32] [(r.amount : ℤ)] :=
    .cons ⟨by omega, by have := hr.amount; omega⟩ .nil
  have hreserved4 : List.Forall₂ Field.Fits [.u16] [(r.reserved4 : ℤ)] :=
    .cons ⟨by omega, by have := hr.reserved4; omega⟩ .nil
  unfold quoteFields QuoteRecord.values
  have hhead := List.rel_append (forall₂_replicate_price hr.headValues_fit) hamount
  have hmid := List.rel_append hhead (forall₂_replicate_price hr.midValues_fit)
  have hlevels := List.rel_append hmid (forall₂_replicate_price hr.levelDiffs_fit)
  exact List.rel_append (List.rel_append hlevels hreserved4)
    (forall₂_replicate_price hr.endValues_fit)

/-- A quote takes at least 56 bytes: 43 in its fields, each as short as it can be. -/
lemma QuoteRecord.Encodable.le_length (hr : r.Encodable) : 56 ≤ r.encode.length := by
  have hfields := Records.le_length_writeFields Field.least_le hr.values_fit.length_eq
  have hsum : (quoteFields.map Field.least).sum = 43 := by decide +kernel
  rw [hsum] at hfields
  simp only [QuoteRecord.encode, List.length_append, List.length_singleton, hr.code.1,
    LittleEndian.length_toLE, putFields]
  omega

end

/-! ## Reading records back -/

section

variable {m : Type → Type} [Monad m] [LawfulMonad m] {M : Machine m} {r : QuoteRecord}

/-- The prices that are given as differences are read back. -/
lemma addAllM_ofInt (hM : M.InRange) {base : ℤ} (hbase : base.natAbs < 2 ^ 62) {zs : List ℤ}
    (hzs : ∀ z ∈ zs, PriceFitsBase base z) :
    addAllM M (Int64.ofInt base) (zs.map fun z => Int64.ofInt (z - base)) =
      pure (zs.map Int64.ofInt) := by
  induction zs with
  | nil => rfl
  | cons z zs ih =>
    obtain ⟨hz, hzs⟩ := List.forall_mem_cons.mp hzs
    have hsum : base + (z - base) = z := by omega
    rw [List.map_cons, addAllM, add_ofInt hM hbase hz.2, hsum, pure_bind, ih hzs, pure_bind,
      List.map_cons]

/-- The values of the levels, each from its own place. -/
lemma levelValues_bids : levelValues (r.values.map Int64.ofInt) 0 =
    (r.levels.map QuoteLevel.bid).map fun z => Int64.ofInt (z - r.price) := rfl

lemma levelValues_asks : levelValues (r.values.map Int64.ofInt) 1 =
    (r.levels.map QuoteLevel.ask).map fun z => Int64.ofInt (z - r.price) := rfl

lemma asU64_ofInt {n : ℕ} (hn : n < 2 ^ 32) : asU64 (Int64.ofInt n) = n := by
  rw [asU64, toInt_ofInt_of_lt (natAbs_word hn), Int.emod_eq_of_lt (by omega) (by omega),
    Int.toNat_natCast]

/-- Sixteen bits with a sign are extended with the sign. -/
lemma signedAsU32_emod {z : ℤ} (hz : -2 ^ 15 ≤ z ∧ z < 2 ^ 15) :
    signedAsU32 (z % 2 ^ 16).toNat = (z % 2 ^ 32).toNat := by
  unfold signedAsU32
  split <;> omega

/-- Numbers of a list that are read exactly. -/
lemma map_toInt {α : Type} (f : α → ℤ) {l : List α} (hl : ∀ a ∈ l, (f a).natAbs < 2 ^ 62)
    (g : ℤ → ℚ) :
    ((l.map f).map Int64.ofInt).map (fun n => g n.toInt) = l.map fun a => g (f a) := by
  rw [List.map_map, List.map_map]
  refine List.map_congr_left fun a ha => ?_
  simp only [Function.comp_apply, toInt_ofInt_of_lt (hl a ha)]

/-- **A quote is put together** from what is read in the fields of its record.

**Proof sketch.** Every value of an encodable record is below `2 ^ 62` in size, or below `2 ^ 32`
where it is read as an unsigned word, so the 64-bit integers stand for it. The fields of the quote
are then compared one by one. -/
lemma quoteOf_values (hr : r.Encodable) :
    quoteOf ⟨r.market, asciiText r.code, r.active1⟩ (r.values.map Int64.ofInt)
        (getVolume r.amount) ((r.levels.map QuoteLevel.bid).map Int64.ofInt)
        ((r.levels.map QuoteLevel.ask).map Int64.ofInt)
        ([r.lastClose, r.open, r.high, r.low].map Int64.ofInt) (r.reserved9 % 2 ^ 16).toNat
        r.active2 =
      r.quote := by
  have hvols := hr.vols
  have hreserved := hr.reserved
  simp only [List.forall_mem_cons] at hvols hreserved
  obtain ⟨hvol, hcurVol, hsVol, hbVol, -⟩ := hvols
  obtain ⟨h0, h1, h2, h3, h5, h6, h7, h8, -⟩ := hreserved
  have h4 : r.reserved4 < 2 ^ 32 := hr.reserved4.trans (by decide)
  have hprices := hr.prices
  simp only [List.forall_mem_cons] at hprices
  obtain ⟨hclose, hopen, hhigh, hlow, -⟩ := hprices
  have hplain {z : ℤ} (hz : z.natAbs < 2 ^ 62) : ((Int64.ofInt z).toInt : ℚ) = z :=
    congrArg _ (toInt_ofInt_of_lt hz)
  have hscaled {z : ℤ} (hz : z.natAbs < 2 ^ 62) (c : ℚ) : ((Int64.ofInt z).toInt : ℚ) * c = z * c :=
    congrArg (· * c) (hplain hz)
  simp only [quoteOf, QuoteRecord.quote, SecurityQuote.mk.injEq, true_and]
  exact ⟨hscaled hr.price _, hscaled hclose.1 _, hscaled hopen.1 _, hscaled hhigh.1 _,
    hscaled hlow.1 _, congrArg formatServertime (asU64_ofInt h0), hplain hvol, hplain hcurVol,
    hplain hsVol, hplain hbVol,
    map_toInt QuoteLevel.bid (fun l hl => (hr.levels l hl).prices.1.1) (· * _),
    map_toInt QuoteLevel.bidVol (fun l hl => (hr.levels l hl).vols.1) (·),
    map_toInt QuoteLevel.ask (fun l hl => (hr.levels l hl).prices.2.1) (· * _),
    map_toInt QuoteLevel.askVol (fun l hl => (hr.levels l hl).vols.2) (·),
    asU32_ofInt h0, asU32_ofInt h1, asU32_ofInt h2, asU32_ofInt h3, asU32_ofInt h4, asU32_ofInt h5,
    asU32_ofInt h6, asU32_ofInt h7, asU32_ofInt h8, signedAsU32_emod hr.reserved9, trivial⟩

/-- The rest of a quote is read back, once its fields are.

**Proof sketch.** The last four bytes hold the ninth reserved word and the second activity
(`readU16_of_drop`). The differences to the price are added back, those of the five levels and those
of the four other prices (`addAllM_ofInt`), and `quoteOf_values` puts the quote together. -/
lemma finishQuoteM_of_drop (hM : M.InRange) (hr : r.Encodable) {body rest : Bytes} {pos : ℕ}
    (hdrop : body.drop pos = LittleEndian.toLE 2 (r.reserved9 % 2 ^ 16).toNat ++
      (LittleEndian.toLE 2 r.active2 ++ rest)) :
    finishQuoteM M body ⟨r.market, asciiText r.code, r.active1⟩ (r.values.map Int64.ofInt) pos =
      pure (some (r.quote, pos + 4, ())) := by
  have hend := le_length_of_drop hdrop (by simp)
  have hactive := drop_add hdrop
  rw [LittleEndian.length_toLE] at hend hactive
  have hreserved9 : LittleEndian.field body pos 2 = (r.reserved9 % 2 ^ 16).toNat := by
    have hread := readU16_of_drop hdrop (by omega)
    rwa [readU16, if_neg (by omega)] at hread
  have hprice : (r.values.map Int64.ofInt).getD 0 0 = Int64.ofInt r.price := rfl
  have hamount : word ((r.values.map Int64.ofInt).getD 9 0) = r.amount := word_ofNat hr.amount
  have hdiffs : [(r.values.map Int64.ofInt).getD 1 0, (r.values.map Int64.ofInt).getD 2 0,
      (r.values.map Int64.ofInt).getD 3 0, (r.values.map Int64.ofInt).getD 4 0] =
      [r.lastClose, r.open, r.high, r.low].map fun z => Int64.ofInt (z - r.price) := rfl
  have hlevels {f : QuoteLevel → ℤ} (hf : ∀ l ∈ r.levels, PriceFitsBase r.price (f l)) :
      ∀ z ∈ r.levels.map f, PriceFitsBase r.price z := by
    intro z hz
    obtain ⟨l, hl, rfl⟩ := List.mem_map.mp hz
    exact hf l hl
  have hbids := hlevels fun l hl => (hr.levels l hl).prices.1
  have hasks := hlevels fun l hl => (hr.levels l hl).prices.2
  unfold finishQuoteM
  simp only [hprice, hamount, hdiffs, levelValues_bids, levelValues_asks]
  rw [getVolumeM_eq hM hr.amount, pure_bind, addAllM_ofInt hM hr.price hbids, pure_bind,
    addAllM_ofInt hM hr.price hasks, pure_bind, if_neg (by omega),
    addAllM_ofInt hM hr.price hr.prices, pure_bind, hreserved9, readU16_of_drop hactive hr.active.2,
    quoteOf_values hr]

/-- **A record is read back** on every machine.

**Proof sketch.** The record is the market, the six bytes of the code, the activity, the fields of
variable length and four more bytes, one behind the other. Each part is read where the one before it
ends; `readFieldsM_of_drop` reads the fields, and `finishQuoteM_of_drop` the rest. -/
lemma reads_quote (hM : M.InRange) (body : Bytes) :
    quoteFormat.Reads (fun _ r => r.quote) (fun _ r => r.Encodable) id body
      (fun pos _ => parseSecurityQuoteM M body pos) := by
  intro pos _ r rest hr hdrop
  simp only [quoteFormat, QuoteRecord.encode, List.append_assoc] at hdrop
  have hcode := drop_add hdrop
  have hactive := drop_add hcode
  have hfields := drop_add hactive
  have hfinish := drop_add hfields
  have hend := le_length_of_drop hcode (by rw [hr.code.1]; decide)
  rw [LittleEndian.length_toLE] at hfields hfinish
  rw [hr.code.1] at hactive hfields hfinish hend
  rw [List.length_singleton] at hcode hactive hfields hfinish hend
  have hmarket : body.getD pos 0 = r.market := by
    rw [List.getD_eq_getElem?_getD, ← List.head?_drop, hdrop]
    rfl
  have hslice : decodeCode ((body.drop (pos + 1)).take 6) = asciiText r.code := by
    have hpadded := decodeCode_ascii hr.code.2.1 hr.code.2.2 0
    rw [hcode, List.take_left' hr.code.1]
    exact (congrArg decodeCode (List.append_nil r.code).symm).trans hpadded
  have hactive1 : readU16 body (pos + 7) = r.active1 := readU16_of_drop hactive hr.active.1
  have hread := readFieldsM_of_drop hM hr.values_fit (show body.drop (pos + 9) = _ from hfields)
  show parseSecurityQuoteM M body pos = _
  unfold parseSecurityQuoteM
  rw [hM.index (by omega), pure_bind, hM.slice hend, pure_bind, hmarket, hslice, hactive1, hread,
    pure_bind]
  refine (finishQuoteM_of_drop hM hr hfinish).trans ?_
  refine congrArg pure (congrArg some (Prod.ext rfl (Prod.ext ?_ rfl)))
  simp only [quoteFormat, QuoteRecord.encode, List.length_append, List.length_singleton, hr.code.1,
    LittleEndian.length_toLE]
  omega

/-- The response is read back on every machine.

**Proof sketch.** Behind two bytes stands the number of the records, and behind it the records,
which the loop reads back one by one (`Records.Format.loopM_bytes` with `reads_quote`). The guard of
56 bytes is met by every record (`QuoteRecord.Encodable.le_length`). -/
lemma parseSecurityQuotesM_encode (hM : M.InRange) {skipped : Bytes} (hskipped : skipped.length = 2)
    {rs : List QuoteRecord} (hlen : rs.length < 2 ^ 16) (hrs : ∀ r ∈ rs, r.Encodable) :
    parseSecurityQuotesM M (encodeSecurityQuotes skipped rs) =
      pure (.ok (rs.map QuoteRecord.quote)) := by
  have hzero : (encodeSecurityQuotes skipped rs).drop 0 =
      skipped ++ (LittleEndian.toLE 2 rs.length ++ quoteFormat.bytes () rs) := rfl
  have hcount := drop_add hzero
  have hrecords := drop_add hcount
  have hend := le_length_of_drop hcount (by simp)
  rw [LittleEndian.length_toLE, ← List.append_nil (quoteFormat.bytes () rs)] at hrecords
  rw [LittleEndian.length_toLE] at hend
  rw [Nat.zero_add, hskipped] at hcount hrecords hend
  have hloop := Records.Format.loopM_bytes (reads_quote hM (encodeSecurityQuotes skipped rs))
    (show 0 < 56 by decide) (fun _ r hr => hr.le_length) 0 (.inl rfl)
    (Records.Format.along_of_forall (fun _ _ hr => hr) hrs ()) hrecords
  rw [parseSecurityQuotesM, if_neg (by omega), readU16_of_drop hcount hlen]
  refine (congrArg (· >>= _) hloop).trans ?_
  rw [pure_bind, Records.Format.values_eq_map]

end

/-- **The round trip of quotes.** Up to 65535 quotes, encoded behind any two bytes, are what the
parser returns, in their order, with and without overflow checks.

**Proof sketch.** `parseSecurityQuotesM_encode` for a machine that wraps and for one that checks. -/
theorem quotes_round_trip (skipped : Bytes) (hskipped : skipped.length = 2) (rs : List QuoteRecord)
    (hlen : rs.length ≤ 65535) (hrs : ∀ r ∈ rs, r.Encodable) :
    parseSecurityQuotes (encodeSecurityQuotes skipped rs) = .ok (rs.map QuoteRecord.quote) ∧
      parseSecurityQuotesM Machine.checked (encodeSecurityQuotes skipped rs) =
        .ok (.ok (rs.map QuoteRecord.quote)) :=
  ⟨parseSecurityQuotesM_encode inRange_wrapping hskipped (by omega) hrs,
    parseSecurityQuotesM_encode inRange_checked hskipped (by omega) hrs⟩

/-- The shortest quote, with its five levels around a price of ten units. -/
def shortestQuote : QuoteRecord where
  market := 0
  code := [0x30, 0x30, 0x30, 0x30, 0x30, 0x31]
  active1 := 1
  price := 10
  lastClose := 9
  «open» := 11
  high := 12
  low := 8
  reserved0 := 5
  reserved1 := 6
  vol := 7
  curVol := 8
  amount := 0x4A800000
  sVol := 1
  bVol := 2
  reserved2 := 3
  reserved3 := 4
  level1 := ⟨9, 11, 1, 2⟩
  level2 := ⟨8, 12, 3, 4⟩
  level3 := ⟨7, 13, 5, 6⟩
  level4 := ⟨6, 14, 7, 8⟩
  level5 := ⟨5, 15, 9, 10⟩
  reserved4 := 1
  reserved5 := 2
  reserved6 := 3
  reserved7 := 4
  reserved8 := 5
  reserved9 := -1
  active2 := 1

lemma encodable_shortestQuote : shortestQuote.Encodable := by
  have hlevels : ∀ l ∈ shortestQuote.levels,
      (PriceFitsBase 10 l.bid ∧ PriceFitsBase 10 l.ask) ∧
        l.bidVol.natAbs < 2 ^ 62 ∧ l.askVol.natAbs < 2 ^ 62 := by
    unfold PriceFitsBase
    decide +kernel
  have hprices : ∀ z ∈ [9, 11, 12, 8], PriceFitsBase 10 z := by
    unfold PriceFitsBase
    decide +kernel
  exact ⟨by decide +kernel, by decide, by decide, hprices, by decide, by decide,
    fun l hl => ⟨(hlevels l hl).1, (hlevels l hl).2⟩, by decide, by decide, by decide⟩

/-- A response with the shortest quote, of 56 bytes. -/
theorem quotes_round_trip_shortest :
    shortestQuote.encode.length = 56 ∧
      parseSecurityQuotes (encodeSecurityQuotes [0xB1, 0xCB] [shortestQuote]) =
        .ok [shortestQuote.quote] ∧
      parseSecurityQuotesM Machine.checked (encodeSecurityQuotes [0xB1, 0xCB] [shortestQuote]) =
        .ok (.ok [shortestQuote.quote]) :=
  ⟨by decide +kernel, quotes_round_trip [0xB1, 0xCB] rfl [shortestQuote] (by decide)
    (List.forall_mem_singleton.mpr encodable_shortestQuote)⟩

end Tdxrs
