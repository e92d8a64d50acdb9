import Tdxrs.Protocol.Codes
import Tdxrs.Protocol.Transactions

set_option relaxedAutoImplicit false
set_option autoImplicit false

/-!
# Parsing quotes

`parse_security_quotes` of `src/protocol/parsers.rs`. A record holds a market, a code and 39 fields,
among them five levels of bids and asks whose prices are differences to the price of the record, and
ends with four bytes of which only the first two are checked.

## Main definitions

* `Tdxrs.SecurityQuote` — a quote.
* `Tdxrs.formatServertime` — the text of the time that the server sends.
* `Tdxrs.parseSecurityQuoteM` — a record, on a machine.
* `Tdxrs.parseSecurityQuotes` — the parser.
* `Tdxrs.filterQuotesByRequest` — the quotes that have been asked for.

## Main results

* `Tdxrs.parseSecurityQuote_eq` — what a record is.
* `Tdxrs.runs_parseSecurityQuotes` — when the parser does not panic.
-/

namespace Tdxrs

/-- A quote. The four lists have an entry for each of the five levels. -/
structure SecurityQuote where
  market : UInt8
  code : Text
  active1 : ℕ
  price : ℚ
  lastClose : ℚ
  «open» : ℚ
  high : ℚ
  low : ℚ
  servertime : Text
  vol : ℚ
  curVol : ℚ
  amount : ℚ
  sVol : ℚ
  bVol : ℚ
  bids : List ℚ
  bidVols : List ℚ
  asks : List ℚ
  askVols : List ℚ
  reversedBytes0 : ℕ
  reversedBytes1 : ℕ
  reversedBytes2 : ℕ
  reversedBytes3 : ℕ
  reversedBytes4 : ℕ
  reversedBytes5 : ℕ
  reversedBytes6 : ℕ
  reversedBytes7 : ℕ
  reversedBytes8 : ℕ
  reversedBytes9 : ℕ
  active2 : ℕ
deriving DecidableEq

/-- The text of a time, with the seconds in thousandths: `HH:MM:SS.mmm`. -/
def timeText (hours minutes thousandths : ℕ) : Text :=
  Decimal.pad 2 hours ++ ':' :: Decimal.pad 2 minutes ++ ':' ::
    Decimal.pad 2 (thousandths / 1000) ++ '.' :: Decimal.pad 3 (thousandths % 1000)

/-- The text of the time that a server sends. The last six digits are two of the minutes and four
of a fraction of a minute, or all of them a fraction of an hour; those before are the hours. -/
def formatServertime (ts : ℕ) : Text :=
  let hh := ts / 10 ^ 6
  let rest := ts % 10 ^ 6
  if ts < 10 ^ 6 then Nat.toDigits 10 ts
  else if 100 ≤ hh then Nat.toDigits 10 ts
  else if rest / 10 ^ 4 < 60 then timeText hh (rest / 10 ^ 4) (rest % 10 ^ 4 * 6)
  -- the minutes are out of range; the seconds are rounded
  else timeText hh (rest * 60 / 10 ^ 6) ((rest * 60 % 10 ^ 6 * 6 + 50) / 100)

example : formatServertime 15298827 = "15:29:52.962".toList := by decide +kernel

/-- Conversion from `i64` to `u64`. -/
def asU64 (v : Int64) : ℕ := (v.toInt % 2 ^ 64).toNat

/-- Conversion of 16 bits, as a signed number, to `u32`. -/
def signedAsU32 (n : ℕ) : ℕ := if n < 2 ^ 15 then n else n + (2 ^ 32 - 2 ^ 16)

/-! ## The parser on a machine -/

/-- The fields of a quote. Unfolding all of them in a proof is slow. -/
@[irreducible] def quoteFields : List Field :=
  -- price, last close, open, high, low, two reserved ones, volume and current volume
  List.replicate 9 .price ++
  -- amount
  [.u32] ++
  -- volumes sold and bought, and two reserved ones
  List.replicate 4 .price ++
  -- bid, ask, bid volume and ask volume of each level
  List.replicate 20 .price ++
  -- five reserved ones
  [.u16] ++ List.replicate 4 .price

/-- The entries of a level in the list of values. -/
def levelValues (v : List Int64) (offset : ℕ) : List Int64 :=
  (List.range 5).map fun i => v.getD (14 + 4 * i + offset) 0

/-- What is read before the fields: market, code and the first activity. -/
structure QuoteHead where
  market : UInt8
  code : Text
  active1 : ℕ

/-- A quote from its parts. -/
def quoteOf (h : QuoteHead) (v : List Int64) (amount : ℚ)
    (bidPrices askPrices diffPrices : List Int64) (reversedBytes9 active2 : ℕ) : SecurityQuote :=
  let coefficient := getSecurityCoefficient h.market h.code
  let scaled (n : Int64) : ℚ := n.toInt * coefficient
  let plain (n : Int64) : ℚ := n.toInt
  { market := h.market
    code := h.code
    active1 := h.active1
    price := scaled (v.getD 0 0)
    lastClose := scaled (diffPrices.getD 0 0)
    «open» := scaled (diffPrices.getD 1 0)
    high := scaled (diffPrices.getD 2 0)
    low := scaled (diffPrices.getD 3 0)
    servertime := formatServertime (asU64 (v.getD 5 0))
    vol := plain (v.getD 7 0)
    curVol := plain (v.getD 8 0)
    amount
    sVol := plain (v.getD 10 0)
    bVol := plain (v.getD 11 0)
    bids := bidPrices.map scaled
    bidVols := (levelValues v 2).map plain
    asks := askPrices.map scaled
    askVols := (levelValues v 3).map plain
    reversedBytes0 := asU32 (v.getD 5 0)
    reversedBytes1 := asU32 (v.getD 6 0)
    reversedBytes2 := asU32 (v.getD 12 0)
    reversedBytes3 := asU32 (v.getD 13 0)
    reversedBytes4 := asU32 (v.getD 34 0)
    reversedBytes5 := asU32 (v.getD 35 0)
    reversedBytes6 := asU32 (v.getD 36 0)
    reversedBytes7 := asU32 (v.getD 37 0)
    reversedBytes8 := asU32 (v.getD 38 0)
    reversedBytes9 := signedAsU32 reversedBytes9
    active2 }

section

variable {m : Type → Type} [Monad m] (M : Machine m)

/-- The prices that are given as differences. -/
def addAllM (priceRaw : Int64) : List Int64 → m (List Int64)
  | [] => pure []
  | diff :: diffs => do
    let price ← M.add priceRaw diff
    let prices ← addAllM priceRaw diffs
    pure (price :: prices)

/-- The rest of a quote, once its fields are read up to `pos`. A record whose last but one number is
not all there ends the list. -/
def finishQuoteM (body : Bytes) (head : QuoteHead) (v : List Int64) (pos : ℕ) :
    m (Option (SecurityQuote × ℕ × Unit)) := do
  let priceRaw := v.getD 0 0
  let amount ← getVolumeM M (word (v.getD 9 0))
  let bidPrices ← addAllM M priceRaw (levelValues v 0)
  let askPrices ← addAllM M priceRaw (levelValues v 1)
  if body.length < pos + 2 then pure none
  else
    let reversedBytes9 := LittleEndian.field body pos 2
    let active2 := readU16 body (pos + 2)
    -- last close, open, high and low
    let diffPrices ← addAllM M priceRaw [v.getD 1 0, v.getD 2 0, v.getD 3 0, v.getD 4 0]
    pure (some (quoteOf head v amount bidPrices askPrices diffPrices reversedBytes9 active2,
      pos + 4, ()))

/-- A quote. -/
def parseSecurityQuoteM (body : Bytes) (pos : ℕ) : m (Option (SecurityQuote × ℕ × Unit)) := do
  let market ← M.index body pos
  let codeBytes ← M.slice body (pos + 1) 6
  let active1 := readU16 body (pos + 7)
  let (v, pos) ← readFieldsM M quoteFields body (pos + 9)
  finishQuoteM M body ⟨market, decodeCode codeBytes, active1⟩ v pos

/-- Parses quotes, on a machine. -/
def parseSecurityQuotesM (body : Bytes) : m (Except TdxError (List SecurityQuote)) :=
  if body.length < 4 then pure (.error (ErrorCode.responseLengthMismatch.err "body too short"))
  else do
    let result ← Records.loopM body.length 56 (fun pos _ => parseSecurityQuoteM M body pos)
      (readU16 body 2) 4 ()
    pure (.ok result)

end

/-! ## The parser -/

/-- A quote of the release build. -/
def parseSecurityQuote (body : Bytes) (pos : ℕ) : Option (SecurityQuote × ℕ × Unit) :=
  parseSecurityQuoteM Machine.wrapping body pos

/-- Parses quotes. -/
def parseSecurityQuotes (body : Bytes) : Except TdxError (List SecurityQuote) :=
  parseSecurityQuotesM Machine.wrapping body

/-- What is read before the fields of a record. -/
def quoteHead (body : Bytes) (pos : ℕ) : QuoteHead :=
  ⟨body.getD pos 0, decodeCode ((body.drop (pos + 1)).take 6), readU16 body (pos + 7)⟩

/-- What is made of the fields of a record, which end at `pos`. -/
def finishQuote (body : Bytes) (head : QuoteHead) (v : List Int64) (pos : ℕ) :
    Option (SecurityQuote × ℕ × Unit) :=
  let priced (diffs : List Int64) : List Int64 := diffs.map fun diff => v.getD 0 0 + diff
  if body.length < pos + 2 then none
  else
    some
      (quoteOf head v (getVolume (word (v.getD 9 0))) (priced (levelValues v 0))
        (priced (levelValues v 1)) (priced [v.getD 1 0, v.getD 2 0, v.getD 3 0, v.getD 4 0])
        (LittleEndian.field body pos 2) (readU16 body (pos + 2)),
        pos + 4, ())

/-- Keeps the quotes that have been asked for, the first one of each security: `allowed` are the
securities that have no quote yet. -/
def keepRequested : List (UInt8 × Text) → List SecurityQuote → List SecurityQuote
  | _, [] => []
  | allowed, quote :: quotes =>
    if (quote.market, quote.code) ∈ allowed then
      quote :: keepRequested (allowed.filter fun other => other ≠ (quote.market, quote.code)) quotes
    else keepRequested allowed quotes

/-- Keeps the quotes that have been asked for. -/
def filterQuotesByRequest (requested : List (UInt8 × String)) (quotes : List SecurityQuote) :
    List SecurityQuote :=
  keepRequested (requested.map fun stock => (stock.1, stock.2.toList)) quotes

variable {body : Bytes}

/-- The amount of a quote is a 32-bit word. -/
lemma quote_amount_lt (pos : ℕ) : word ((readFields quoteFields body pos).1.getD 9 0) < 2 ^ 32 := by
  have hsplit : quoteFields = List.replicate 9 .price ++ .u32 :: quoteFields.drop 10 := by
    decide +kernel
  have hlength : (readFields (List.replicate 9 .price) body pos).1.length = 9 := by
    rw [Records.length_readFields, List.length_replicate]
  rw [hsplit, readFields, Records.readFields_append, List.getD_eq_getElem?_getD,
    List.getElem?_append_right hlength.le, hlength]
  generalize (Records.readFields readField (List.replicate 9 .price) body pos).2 = p
  simp only [Records.readFields, Nat.sub_self, List.getElem?_cons_zero, Option.getD_some, readField]
  rw [word_ofNat (readU32_lt body p)]
  exact readU32_lt body p

/-! ## When the parser does not panic -/

/-- The prices that are given as differences are in range. -/
def SumsFit (priceRaw : Int64) (diffs : List Int64) : Prop :=
  ∀ diff ∈ diffs, FitsI64 (priceRaw.toInt + diff.toInt)

lemma runs_addAll (priceRaw : Int64) (diffs : List Int64) :
    Checked.Runs (addAllM Machine.checked priceRaw diffs) (diffs.map fun diff => priceRaw + diff)
      (SumsFit priceRaw diffs) := by
  unfold SumsFit
  induction diffs with
  | nil => exact (Checked.Runs.pure _).of_iff (by simp)
  | cons diff diffs ih =>
    rw [List.forall_mem_cons]
    exact (runs_add priceRaw diff).bind (ih.map ((priceRaw + diff) :: ·))

lemma addAllM_wrapping (priceRaw : Int64) (diffs : List Int64) :
    addAllM Machine.wrapping priceRaw diffs = pure (diffs.map fun diff => priceRaw + diff) := by
  induction diffs with
  | nil => rfl
  | cons diff diffs ih => exact congrArg ((priceRaw + diff) :: ·) ih

/-- The prices of a quote are in range, those at its end if it is read to the end. -/
def PricesFit (body : Bytes) (v : List Int64) (pos : ℕ) : Prop :=
  SumsFit (v.getD 0 0) (levelValues v 0) ∧ SumsFit (v.getD 0 0) (levelValues v 1) ∧
    (¬ body.length < pos + 2 →
      SumsFit (v.getD 0 0) [v.getD 1 0, v.getD 2 0, v.getD 3 0, v.getD 4 0])

lemma runs_finishQuote (head : QuoteHead) {v : List Int64} (hv : word (v.getD 9 0) < 2 ^ 32)
    (pos : ℕ) :
    Checked.Runs (finishQuoteM Machine.checked body head v pos) (finishQuote body head v pos)
      (PricesFit body v pos) := by
  unfold finishQuoteM finishQuote PricesFit
  rw [getVolumeM_eq inRange_checked hv, pure_bind]
  refine (runs_addAll _ _).bind ((runs_addAll _ _).bind ?_)
  exact ((runs_addAll _ _).map _).of_not

lemma finishQuoteM_wrapping (head : QuoteHead) {v : List Int64} (hv : word (v.getD 9 0) < 2 ^ 32)
    (pos : ℕ) :
    finishQuoteM Machine.wrapping body head v pos = pure (finishQuote body head v pos) := by
  unfold finishQuoteM finishQuote
  rw [getVolumeM_eq inRange_wrapping hv, pure_bind, addAllM_wrapping, pure_bind, addAllM_wrapping,
    pure_bind]
  split
  · rfl
  · rw [addAllM_wrapping, pure_bind]

/-- **A record** is put together from its fields and the two numbers after them. -/
lemma parseSecurityQuote_eq (pos : ℕ) :
    parseSecurityQuote body pos =
      finishQuote body (quoteHead body pos) (readFields quoteFields body (pos + 9)).1
        (readFields quoteFields body (pos + 9)).2 := by
  have hfields : readFieldsM Machine.wrapping quoteFields body (pos + 9) =
      pure (readFields quoteFields body (pos + 9)) := readFieldsM_wrapping _ _ _
  have hindex : Machine.wrapping.index body pos = pure (body.getD pos 0) := rfl
  have hslice : Machine.wrapping.slice body (pos + 1) 6 = pure ((body.drop (pos + 1)).take 6) := rfl
  unfold parseSecurityQuote parseSecurityQuoteM
  rw [hindex, pure_bind, hslice, pure_bind, hfields, pure_bind]
  exact finishQuoteM_wrapping _ (quote_amount_lt (pos + 9)) _

/-- A quote does not panic: its fields do not, and its prices are in range. -/
def QuoteFits (body : Bytes) (pos : ℕ) : Prop :=
  FieldsFit quoteFields body (pos + 9) ∧
    PricesFit body (readFields quoteFields body (pos + 9)).1
      (readFields quoteFields body (pos + 9)).2

/-- None of the quotes of a list panics. -/
def QuotesFit (body : Bytes) : ℕ → ℕ → Prop
  | 0, _ => True
  | count + 1, pos =>
    body.length < pos + 56 ∨
      QuoteFits body pos ∧
        (¬ body.length < (readFields quoteFields body (pos + 9)).2 + 2 →
          QuotesFit body count ((readFields quoteFields body (pos + 9)).2 + 4))

/-- **When a quote does not panic.** -/
lemma runs_parseSecurityQuote {pos : ℕ} (h : pos + 56 ≤ body.length) :
    Checked.Runs (parseSecurityQuoteM Machine.checked body pos) (parseSecurityQuote body pos)
      (QuoteFits body pos) := by
  rw [parseSecurityQuote_eq]
  unfold parseSecurityQuoteM
  rw [inRange_checked.index (by omega), pure_bind, inRange_checked.slice (by omega), pure_bind]
  exact (runs_readFields quoteFields body (pos + 9)).bind
    (runs_finishQuote _ (quote_amount_lt (pos + 9)) _)

/-- None of the quotes panics, in terms of the loop that reads them.

**Proof sketch.** Induction on the count: a quote whose end is cut off ends the loop, and any other
is read up to the end of its fields, four bytes further. -/
lemma each_quoteFits_iff (count : ℕ) : ∀ pos : ℕ,
    Records.Each body.length 56 (fun pos (_ : Unit) => parseSecurityQuote body pos)
        (fun pos _ => QuoteFits body pos) count pos () ↔
      QuotesFit body count pos := by
  induction count with
  | zero => exact fun _ => Iff.rfl
  | succ count ih =>
    intro pos
    rw [Records.Each, QuotesFit, parseSecurityQuote_eq]
    generalize (readFields quoteFields body (pos + 9)).2 = e
    refine or_congr_right (and_congr_right fun _ => ?_)
    unfold finishQuote
    by_cases hshort : body.length < e + 2
    · rw [if_pos hshort]
      exact iff_of_true (fun r hr => absurd hr (Option.not_mem_none r)) fun h => absurd hshort h
    · rw [if_neg hshort]
      simp only [Option.mem_some_iff, forall_eq', ih, hshort, not_false_eq_true, true_imp_iff]

/-- What the parser returns. -/
lemma parseSecurityQuotes_eq (body : Bytes) :
    parseSecurityQuotes body =
      if body.length < 4 then .error (ErrorCode.responseLengthMismatch.err "body too short")
      else .ok (Records.loop body.length 56 (fun pos _ => parseSecurityQuote body pos)
        (readU16 body 2) 4 ()) := by
  rw [← Records.loopM_id]
  rfl

/-- **When the parser does not panic.** -/
theorem runs_parseSecurityQuotes (body : Bytes) :
    Checked.Runs (parseSecurityQuotesM Machine.checked body) (parseSecurityQuotes body)
      (¬ body.length < 4 → QuotesFit body (readU16 body 2) 4) := by
  rw [parseSecurityQuotes_eq]
  exact (((Records.runs_loopM (fun pos _ h => runs_parseSecurityQuote h) _ _ _).of_iff
    (each_quoteFits_iff _ _)).map Except.ok).of_not

end Tdxrs
