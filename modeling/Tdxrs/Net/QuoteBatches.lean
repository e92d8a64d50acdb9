import Mathlib.Data.List.Forall2
import Tdxrs.Net.AsyncClient
import Tdxrs.Net.HqProgram

set_option relaxedAutoImplicit false
set_option autoImplicit false

/-!
# Quotes in batches

`get_security_quotes` of the two clients cuts the list of securities into requests of at most 60 and
joins the answers, each of which is filtered by its own request. What is looked at here is which
securities have a quote in the end, and how many: the batches should not show.

## Main definitions

* `Tdxrs.quoteBatches` — the lists that are asked for in one request each.
* `Tdxrs.requestQuotes` — the batches one after the other, for any way to send a request.
* `Tdxrs.AnswersQuotes` — a server that has a record for every security of a request.
* `Tdxrs.QuotesFaithful` — one quote for each security, and no others.

## Main results

* `Tdxrs.filterQuotesByRequest_faithful` — one batch is faithful.
* `Tdxrs.requestQuotes_faithful_iff` — the batches together are so if they have nothing in common.
* `Tdxrs.quote_batching_iff`, `Tdxrs.async_quote_batching_iff` — the same for the two clients.
-/

namespace Tdxrs

variable {σ : Type}

/-! ## The calls -/

/-- The lists of securities that are asked for in one request each. -/
def quoteBatches (stocks : List (UInt8 × String)) : List (List (UInt8 × String)) :=
  if stocks.length ≤ maxQuotesCount then [stocks] else HqProgram.chunks maxQuotesCount stocks

/-- One request for quotes. -/
def requestQuotesBatch (send : Bytes → σ → Except TdxError Bytes × σ)
    (stocks : List (UInt8 × String)) (w : σ) : Except TdxError (List SecurityQuote) × σ :=
  match send (HqProgram.buildSecurityQuotesPacket stocks) w with
  | (.error e, w) => (.error e, w)
  | (.ok body, w) =>
    match parseSecurityQuotes body with
    | .error e => (.error e, w)
    | .ok quotes => (.ok (filterQuotesByRequest stocks quotes), w)

/-- The requests for quotes that are left; the first error ends them. -/
def requestQuotesLeft (send : Bytes → σ → Except TdxError Bytes × σ) :
    List (List (UInt8 × String)) → List SecurityQuote → σ →
      Except TdxError (List SecurityQuote) × σ
  | [], result, w => (.ok result, w)
  | chunk :: chunks, result, w =>
    match requestQuotesBatch send chunk w with
    | (.error e, w) => (.error e, w)
    | (.ok quotes, w) => requestQuotesLeft send chunks (result ++ quotes) w

/-- A call for quotes without a check of the codes. -/
def requestQuotes (send : Bytes → σ → Except TdxError Bytes × σ)
    (stocks : List (UInt8 × String)) (w : σ) : Except TdxError (List SecurityQuote) × σ :=
  if stocks.length ≤ maxQuotesCount then requestQuotesBatch send stocks w
  else requestQuotesLeft send (HqProgram.chunks maxQuotesCount stocks) [] w

/-- A call for quotes of the asynchronous client, which does not check the codes. -/
def AsyncEnv.getSecurityQuotes (env : AsyncEnv σ) (stocks : List (UInt8 × String)) (w : σ) :
    Except TdxError (List SecurityQuote) × σ :=
  requestQuotes env.sendAndRecv stocks w

namespace HqProgram

variable (env : HqEnv σ)

/-- One request for quotes executed in one go. -/
lemma exec_getSecurityQuotesBatch (stocks : List (UInt8 × String)) (w : σ) :
    (getSecurityQuotesBatch stocks).exec (handle env) w =
      requestQuotesBatch env.sendAndRecvLimited stocks w := by
  rw [getSecurityQuotesBatch, requestQuotesBatch, requestParsed, Program.exec_bind,
    Program.exec_bind, exec_sendAndRecv]
  rcases env.sendAndRecvLimited (buildSecurityQuotesPacket stocks) w with ⟨e | body, w'⟩
  · rfl
  · cases hparse : parseSecurityQuotes body <;> simp only [hparse] <;> rfl

/-- The requests for quotes that are left, executed in one go. -/
lemma exec_batchesLeft (chunks : List (List (UInt8 × String))) (result : List SecurityQuote)
    (w : σ) :
    (batchesLeft chunks result).exec (handle env) w =
      requestQuotesLeft env.sendAndRecvLimited chunks result w := by
  induction chunks generalizing result w with
  | nil => rfl
  | cons chunk chunks ih =>
    rw [batchesLeft, requestQuotesLeft, Program.exec_bind, exec_getSecurityQuotesBatch]
    rcases requestQuotesBatch env.sendAndRecvLimited chunk w with ⟨e | quotes, w'⟩
    · rfl
    · exact ih _ _

/-- **A call for quotes executed in one go**, where the codes pass their check. -/
theorem exec_getSecurityQuotes {stocks : List (UInt8 × String)} (h : checkCodes stocks = .ok ())
    (w : σ) :
    (getSecurityQuotes stocks).exec (handle env) w =
      requestQuotes env.sendAndRecvLimited stocks w := by
  rw [getSecurityQuotes, h, requestQuotes]
  by_cases hlen : stocks.length ≤ maxQuotesCount
  · simp only [if_pos hlen]
    exact exec_getSecurityQuotesBatch env stocks w
  · simp only [if_neg hlen]
    exact exec_batchesLeft env _ _ w

end HqProgram

/-! ## What a list of quotes should be -/

/-- The market and the code of a quote. -/
def SecurityQuote.pair (quote : SecurityQuote) : UInt8 × Text := (quote.market, quote.code)

/-- The market and the code of a security that is asked for. -/
def stockPair (stock : UInt8 × String) : UInt8 × Text := (stock.1, stock.2.toList)

/-- A server has a record for every security of a request, among others and in any order. -/
def AnswersQuotes (send : Bytes → σ → Except TdxError Bytes × σ)
    (stocks : List (UInt8 × String)) : Prop :=
  ∀ w, ∃ body w' records,
    send (HqProgram.buildSecurityQuotesPacket stocks) w = (.ok body, w') ∧
      parseSecurityQuotes body = .ok records ∧
        ∀ stock ∈ stocks, stockPair stock ∈ records.map SecurityQuote.pair

/-- The quotes are for securities that were asked for, at most one for each, and all of them. -/
structure QuotesFaithful (stocks : List (UInt8 × String)) (quotes : List SecurityQuote) : Prop where
  requested : ∀ quote ∈ quotes, quote.pair ∈ stocks.map stockPair
  once : (quotes.map SecurityQuote.pair).Nodup
  answered : ∀ stock ∈ stocks, stockPair stock ∈ quotes.map SecurityQuote.pair

lemma stockPair_injective : Function.Injective stockPair := by
  rintro ⟨market, code⟩ ⟨market', code'⟩ h
  obtain ⟨hmarket, hcode⟩ := Prod.mk.inj h
  exact Prod.ext hmarket (String.toList_inj.mp hcode)

/-- Which securities have a quote. -/
lemma QuotesFaithful.mem_iff {stocks : List (UInt8 × String)} {quotes : List SecurityQuote}
    (h : QuotesFaithful stocks quotes) (p : UInt8 × Text) :
    p ∈ quotes.map SecurityQuote.pair ↔ p ∈ stocks.map stockPair := by
  constructor
  · intro hp
    obtain ⟨quote, hquote, rfl⟩ := List.mem_map.mp hp
    exact h.requested quote hquote
  · intro hp
    obtain ⟨stock, hstock, rfl⟩ := List.mem_map.mp hp
    exact h.answered stock hstock

/-! ## One batch -/

lemma keepRequested_cons (allowed : List (UInt8 × Text)) (quote : SecurityQuote)
    (quotes : List SecurityQuote) :
    keepRequested allowed (quote :: quotes) =
      if quote.pair ∈ allowed then
        quote :: keepRequested (allowed.filter fun other => other ≠ quote.pair) quotes
      else keepRequested allowed quotes := rfl

/-- What the filter keeps: the first quote of each allowed security that has one. By induction on
the quotes; a security that has got its quote is allowed no longer.

**Proof sketch.** Induction on the quotes, for any list of allowed securities. A quote of an allowed
one is kept, and its security is allowed no longer, so that it does not come again; any other quote
is dropped. -/
lemma keepRequested_spec (quotes : List SecurityQuote) : ∀ allowed : List (UInt8 × Text),
    ((keepRequested allowed quotes).map SecurityQuote.pair).Nodup ∧
      ∀ p, p ∈ (keepRequested allowed quotes).map SecurityQuote.pair ↔
        p ∈ allowed ∧ p ∈ quotes.map SecurityQuote.pair := by
  induction quotes with
  | nil => simp [keepRequested]
  | cons quote quotes ih =>
    intro allowed
    rw [keepRequested_cons]
    by_cases hallowed : quote.pair ∈ allowed
    · obtain ⟨hnodup, hmem⟩ := ih (allowed.filter fun other => other ≠ quote.pair)
      rw [if_pos hallowed, List.map_cons, List.nodup_cons]
      refine ⟨⟨fun hquote => ?_, hnodup⟩, fun p => ?_⟩
      · exact absurd ((hmem _).mp hquote).1 (by simp)
      · rw [List.mem_cons, hmem, List.map_cons, List.mem_cons, List.mem_filter]
        by_cases hp : p = quote.pair
        · simp [hp, hallowed]
        · simp [hp]
    · obtain ⟨hnodup, hmem⟩ := ih allowed
      rw [if_neg hallowed]
      refine ⟨hnodup, fun p => ?_⟩
      rw [hmem, List.map_cons, List.mem_cons]
      refine and_congr_right fun hp => ?_
      rw [or_iff_right]
      rintro rfl
      exact hallowed hp

/-- **One batch is faithful** if the server has a record for each of its securities. -/
lemma filterQuotesByRequest_faithful {stocks : List (UInt8 × String)}
    {records : List SecurityQuote}
    (h : ∀ stock ∈ stocks, stockPair stock ∈ records.map SecurityQuote.pair) :
    QuotesFaithful stocks (filterQuotesByRequest stocks records) := by
  obtain ⟨hnodup, hmem⟩ := keepRequested_spec records (stocks.map stockPair)
  exact ⟨fun quote hquote => ((hmem _).mp (List.mem_map_of_mem hquote)).1, hnodup,
    fun stock hstock => (hmem _).mpr ⟨List.mem_map_of_mem hstock, h stock hstock⟩⟩

/-- One request, answered. -/
lemma requestQuotesBatch_faithful {send : Bytes → σ → Except TdxError Bytes × σ}
    {stocks : List (UInt8 × String)} (h : AnswersQuotes send stocks) (w : σ) :
    ∃ quotes w', requestQuotesBatch send stocks w = (.ok quotes, w') ∧
      QuotesFaithful stocks quotes := by
  obtain ⟨body, w', records, hsend, hparse, hrecords⟩ := h w
  refine ⟨_, w', ?_, filterQuotesByRequest_faithful hrecords⟩
  rw [requestQuotesBatch, hsend]
  simp only [hparse]

/-! ## All batches -/

/-- The pieces of a list make up the list. -/
lemma flatten_chunks {α : Type} {size : ℕ} (hsize : size ≠ 0) (l : List α) :
    (HqProgram.chunks size l).flatten = l := by
  induction hlen : l.length using Nat.strong_induction_on generalizing l with
  | h n ih =>
    by_cases hl : l = []
    · rw [hl, HqProgram.chunks, dif_pos (.inl rfl)]
      rfl
    · have hpos := List.length_pos_iff.mpr hl
      rw [HqProgram.chunks_eq hl hsize, List.flatten_cons, ih (l.drop size).length
        (by rw [List.length_drop]; omega) _ rfl, List.take_append_drop]

/-- The batches make up the list of securities. -/
lemma flatten_quoteBatches (stocks : List (UInt8 × String)) :
    (quoteBatches stocks).flatten = stocks := by
  unfold quoteBatches
  split
  · simp
  · exact flatten_chunks (by decide) stocks

/-- The requests that are left, all of them answered, add a faithful list for each. -/
lemma requestQuotesLeft_faithful {send : Bytes → σ → Except TdxError Bytes × σ}
    {chunks : List (List (UInt8 × String))} (h : ∀ chunk ∈ chunks, AnswersQuotes send chunk)
    (result : List SecurityQuote) (w : σ) :
    ∃ kept w', requestQuotesLeft send chunks result w = (.ok (result ++ kept.flatten), w') ∧
      List.Forall₂ QuotesFaithful chunks kept := by
  induction chunks generalizing result w with
  | nil => exact ⟨[], w, by simp [requestQuotesLeft], .nil⟩
  | cons chunk chunks ih =>
    obtain ⟨quotes, w', hbatch, hfaithful⟩ :=
      requestQuotesBatch_faithful (h chunk List.mem_cons_self) w
    obtain ⟨kept, w'', hleft, hkept⟩ :=
      ih (fun c hc => h c (List.mem_cons_of_mem _ hc)) (result ++ quotes) w'
    refine ⟨quotes :: kept, w'', ?_, .cons hfaithful hkept⟩
    rw [requestQuotesLeft, hbatch]
    simp only [hleft, List.append_assoc, List.flatten_cons]

/-- Which securities have a quote in one of the batches. -/
lemma mem_flatten_iff {chunks : List (List (UInt8 × String))} {kept : List (List SecurityQuote)}
    (h : List.Forall₂ QuotesFaithful chunks kept) (p : UInt8 × Text) :
    p ∈ kept.flatten.map SecurityQuote.pair ↔ p ∈ chunks.flatten.map stockPair := by
  induction h with
  | nil => exact Iff.rfl
  | cons hfaithful _ ih =>
    rw [List.flatten_cons, List.map_append, List.mem_append, ih, hfaithful.mem_iff,
      List.flatten_cons, List.map_append, List.mem_append]

/-- No security has two quotes exactly if no security is in two batches.

**Proof sketch.** Induction on the batches. The quotes of a batch are those of its securities, once
each, so that the quotes of two batches have a security in common exactly if the batches do. -/
lemma nodup_flatten_iff {chunks : List (List (UInt8 × String))} {kept : List (List SecurityQuote)}
    (h : List.Forall₂ QuotesFaithful chunks kept) :
    (kept.flatten.map SecurityQuote.pair).Nodup ↔ chunks.Pairwise List.Disjoint := by
  induction h with
  | nil => simp
  | @cons chunk quotes chunks kept hfaithful hrest ih =>
    have hdisjoint : (quotes.map SecurityQuote.pair).Disjoint
        (kept.flatten.map SecurityQuote.pair) ↔ ∀ other ∈ chunks, chunk.Disjoint other := by
      constructor
      · intro hdis other hother stock hstock hin
        exact hdis (hfaithful.answered stock hstock)
          ((mem_flatten_iff hrest _).mpr (List.mem_map_of_mem (List.mem_flatten_of_mem hother hin)))
      · intro hdis p hp hq
        obtain ⟨stock, hstock, rfl⟩ := List.mem_map.mp ((hfaithful.mem_iff p).mp hp)
        obtain ⟨stock', hstock', heq⟩ := List.mem_map.mp ((mem_flatten_iff hrest _).mp hq)
        obtain rfl := stockPair_injective heq
        obtain ⟨other, hother, hin⟩ := List.mem_flatten.mp hstock'
        exact hdis other hother hstock hin
    rw [List.flatten_cons, List.map_append, List.nodup_append', List.pairwise_cons, ih, hdisjoint]
    constructor
    · exact fun ⟨_, hpairwise, hdis⟩ => ⟨hdis, hpairwise⟩
    · exact fun ⟨hdis, hpairwise⟩ => ⟨hfaithful.once, hpairwise, hdis⟩

/-- **When a call for quotes is faithful.** Where the server answers every batch, the call succeeds,
and the quotes are those of the securities asked for, one for each, exactly if no security is in two
batches.

**Proof sketch.** The quotes are those of the batches one behind the other, each of which is
faithful to its batch. All together they are of the securities that were asked for, so that only the
repetitions are in question, and `nodup_flatten_iff` says when there are none. -/
theorem requestQuotes_faithful_iff {send : Bytes → σ → Except TdxError Bytes × σ}
    {stocks : List (UInt8 × String)} (h : ∀ batch ∈ quoteBatches stocks, AnswersQuotes send batch)
    (w : σ) :
    ∃ quotes, (requestQuotes send stocks w).1 = .ok quotes ∧
      (QuotesFaithful stocks quotes ↔ (quoteBatches stocks).Pairwise List.Disjoint) := by
  have hall : ∃ kept, (requestQuotes send stocks w).1 = .ok kept.flatten ∧
      List.Forall₂ QuotesFaithful (quoteBatches stocks) kept := by
    unfold requestQuotes quoteBatches at *
    split at h
    · rename_i hlen
      obtain ⟨quotes, w', hbatch, hfaithful⟩ :=
        requestQuotesBatch_faithful (h stocks (List.mem_singleton_self _)) w
      exact ⟨[quotes], by simp [hlen, hbatch], by simp [hlen, hfaithful]⟩
    · rename_i hlen
      obtain ⟨kept, w', hleft, hkept⟩ := requestQuotesLeft_faithful h [] w
      exact ⟨kept, by simp [hlen, hleft], by simpa [hlen] using hkept⟩
  obtain ⟨kept, hresult, hkept⟩ := hall
  refine ⟨kept.flatten, hresult, ?_⟩
  rw [← nodup_flatten_iff hkept]
  have hmem := fun p => mem_flatten_iff hkept p
  rw [flatten_quoteBatches] at hmem
  exact ⟨QuotesFaithful.once, fun hnodup =>
    ⟨fun quote hquote => (hmem _).mp (List.mem_map_of_mem hquote), hnodup,
      fun stock hstock => (hmem _).mpr (List.mem_map_of_mem hstock)⟩⟩

/-! ## The two clients -/

/-- **Batches of the synchronous client.** With a server that answers every batch of the list, a
call whose codes pass their check returns the quotes of the securities asked for, one for each,
exactly if no security is in two batches.

**Proof sketch.** Codes that are refused make both sides true. With accepted codes the program is
the call for quotes (`exec_getSecurityQuotes`), and `requestQuotes_faithful_iff` says what it
returns and when this is faithful. -/
theorem quote_batching_iff (env : HqEnv σ) (stocks : List (UInt8 × String)) (w : σ)
    (h : ∀ batch ∈ quoteBatches stocks, AnswersQuotes env.sendAndRecvLimited batch) :
    (HqProgram.checkCodes stocks = .ok () → ∃ quotes,
        ((HqProgram.getSecurityQuotes stocks).exec (HqProgram.handle env) w).1 = .ok quotes ∧
          QuotesFaithful stocks quotes) ↔
      (HqProgram.checkCodes stocks = .ok () →
        (quoteBatches stocks).Pairwise List.Disjoint) := by
  refine forall_congr' fun hcodes => ?_
  obtain ⟨quotes, hresult, hfaithful⟩ := requestQuotes_faithful_iff h w
  rw [HqProgram.exec_getSecurityQuotes env hcodes, hresult, ← hfaithful]
  constructor
  · rintro ⟨quotes', hquotes', hfaithful'⟩
    rwa [Except.ok.inj hquotes']
  · exact fun hfaithful => ⟨quotes, rfl, hfaithful⟩

/-- **Batches of the asynchronous client**, which does not check the codes. -/
theorem async_quote_batching_iff (env : AsyncEnv σ) (stocks : List (UInt8 × String)) (w : σ)
    (h : ∀ batch ∈ quoteBatches stocks, AnswersQuotes env.sendAndRecv batch) :
    (∃ quotes, (env.getSecurityQuotes stocks w).1 = .ok quotes ∧ QuotesFaithful stocks quotes) ↔
      (quoteBatches stocks).Pairwise List.Disjoint := by
  obtain ⟨quotes, hresult, hfaithful⟩ := requestQuotes_faithful_iff h w
  rw [AsyncEnv.getSecurityQuotes, hresult, ← hfaithful]
  constructor
  · rintro ⟨quotes', hquotes', hfaithful'⟩
    rwa [Except.ok.inj hquotes']
  · exact fun hfaithful => ⟨quotes, rfl, hfaithful⟩

/-! ## A server with one quote -/

/-- A response with a quote of zeros for `000001`. -/
def oneQuoteBody : Bytes :=
  [0, 0, 1, 0] ++ [0, 0x30, 0x30, 0x30, 0x30, 0x30, 0x31] ++ List.replicate 49 0

/-- A server that always sends this response. -/
def oneQuoteEnv : HqEnv Unit where
  trySendAndRecv _ w := (.ok oneQuoteBody, w)
  autoRetry _ := true
  reconnectIfNeeded w := w
  reconnectToAnotherServer w := w
  getXdxrInfo _ _ w := (.ok [], w)
  fqContextTier := .mid
  maxValidYear := 2036

/-- It answers any request for that security. -/
lemma oneQuoteEnv_answers (n : ℕ) :
    AnswersQuotes oneQuoteEnv.sendAndRecvLimited (List.replicate n (0, "000001")) := by
  have hpairs : (parseSecurityQuotes oneQuoteBody).map (List.map SecurityQuote.pair) =
      .ok [(0, "000001".toList)] := by
    decide +kernel
  intro w
  cases hparse : parseSecurityQuotes oneQuoteBody with
  | error e =>
    rw [hparse] at hpairs
    cases hpairs
  | ok records =>
    rw [hparse] at hpairs
    refine ⟨oneQuoteBody, w, records, rfl, hparse, fun stock hstock => ?_⟩
    rw [List.eq_of_mem_replicate hstock, Except.ok.inj hpairs]
    exact List.mem_singleton_self _

/-- The batches of 61 entries. -/
lemma quoteBatches_replicate (stock : UInt8 × String) :
    quoteBatches (List.replicate 61 stock) = [List.replicate 60 stock, List.replicate 1 stock] := by
  have hsize : maxQuotesCount = 60 := rfl
  rw [quoteBatches, if_neg (by simp [hsize]), hsize, HqProgram.chunks_eq (by simp) (by decide),
    List.take_replicate, List.drop_replicate, HqProgram.chunks_eq (by simp) (by decide),
    List.take_replicate, List.drop_replicate, HqProgram.chunks, dif_pos (.inl rfl)]
  rfl

/-- One security, asked for twice in one batch, has one quote. -/
theorem quote_batching_one_batch :
    (HqProgram.checkCodes [(0, "000001"), (0, "000001")] = .ok () → ∃ quotes,
        ((HqProgram.getSecurityQuotes [(0, "000001"), (0, "000001")]).exec
          (HqProgram.handle oneQuoteEnv) ()).1 = .ok quotes ∧
          QuotesFaithful [(0, "000001"), (0, "000001")] quotes) ↔
      (HqProgram.checkCodes [(0, "000001"), (0, "000001")] = .ok () →
        (quoteBatches [(0, "000001"), (0, "000001")]).Pairwise List.Disjoint) :=
  quote_batching_iff oneQuoteEnv [(0, "000001"), (0, "000001")] () fun batch hbatch => by
    obtain rfl := List.mem_singleton.mp hbatch
    exact oneQuoteEnv_answers 2

/-- **A security that is asked for 61 times** has two quotes, one from each batch.

**Proof sketch.** The two batches have the security in common, so by the exact condition the quotes
are not faithful. -/
theorem quote_batching_repeats :
    ¬ ∀ (env : HqEnv Unit) (stocks : List (UInt8 × String)),
      (∀ batch ∈ quoteBatches stocks, AnswersQuotes env.sendAndRecvLimited batch) →
      HqProgram.checkCodes stocks = .ok () → ∃ quotes,
        ((HqProgram.getSecurityQuotes stocks).exec (HqProgram.handle env) ()).1 = .ok quotes ∧
          QuotesFaithful stocks quotes := by
  intro hall
  have hanswers : ∀ batch ∈ quoteBatches (List.replicate 61 (0, "000001")),
      AnswersQuotes oneQuoteEnv.sendAndRecvLimited batch := by
    intro batch hbatch
    rw [quoteBatches_replicate] at hbatch
    rcases List.mem_pair.mp hbatch with rfl | rfl <;> exact oneQuoteEnv_answers _
  have hcodes : HqProgram.checkCodes (List.replicate 61 (0, "000001")) = .ok () := by
    decide +kernel
  obtain ⟨quotes, hquotes, hfaithful⟩ := hall oneQuoteEnv _ hanswers hcodes
  obtain ⟨quotes', hquotes', hiff⟩ := requestQuotes_faithful_iff hanswers ()
  rw [HqProgram.exec_getSecurityQuotes oneQuoteEnv hcodes, hquotes'] at hquotes
  rw [← Except.ok.inj hquotes, hiff, quoteBatches_replicate, List.pairwise_pair] at hfaithful
  exact hfaithful (List.mem_replicate.mpr ⟨by decide, rfl⟩) (List.mem_singleton_self (0, "000001"))

end Tdxrs
