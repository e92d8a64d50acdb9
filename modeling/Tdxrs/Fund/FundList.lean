import Tdxrs.Library.Checked
import Tdxrs.Library.Utf8
import Tdxrs.Net.SecurityCaches

set_option relaxedAutoImplicit false
set_option autoImplicit false

/-!
# The list of funds

`get_fund_list` of `TdxHqFundClient` in `src/fund/client.rs`, with the codes of funds of
`src/fund/constants.rs`. The list of securities of a market is fetched in pages of 1000, and its
funds are kept. The loop ends with a page whose last code is beyond those of funds, if a fund has
been found before: in a list that is in order of the codes, no fund can follow.

The calls of the client inside are those of `Tdxrs.Net.SecurityCaches`.

## Main definitions

* `Tdxrs.isFund`, `Tdxrs.classifyFund` — which securities are funds, and of what type.
* `Tdxrs.getFundList` — the call.
* `Tdxrs.ServesListing` — a server with a list of securities.
* `Tdxrs.NothingCutOff` — no fund stands behind a page that ends the loop.

## Main results

* `Tdxrs.fund_list_complete_iff` — when the list of funds is complete.
* `Tdxrs.nothingCutOff_of_ascending` — in a list in order of the codes nothing is cut off.
-/

namespace Tdxrs

/-! ## Codes of funds -/

/-- The types of funds. -/
inductive FundType where
  | etf
  | lof
  | reits
  | structured
  | openEnd
  | bond
  | money
  | other
deriving DecidableEq, Repr

/-- How the codes of funds in Shanghai begin. -/
def shFundPrefixes : List String := ["50", "51"]

/-- How the codes of funds in Shenzhen begin. -/
def szFundPrefixes : List String := ["15", "16"]

/-- Whether a code is one of a fund in Shanghai. -/
def isShFund (code : Text) : Bool := startsWithAny code shFundPrefixes

/-- Whether a code is one of a fund in Shenzhen. -/
def isSzFund (code : Text) : Bool := startsWithAny code szFundPrefixes

/-- Whether a code is one of a fund. -/
def isFund (market : UInt8) (code : Text) : Bool :=
  if market = marketSh then isShFund code
  else if market = marketSz then isSzFund code
  else false

/-- The type of a fund by the first three bytes of its code. -/
def fundTypeOf (market : UInt8) (prefix3 : Text) : FundType :=
  if prefix3 = "508".toList then .reits
  else if prefix3 ∈ ["510", "512", "513", "515", "516"].map String.toList then .etf
  else if prefix3 = "511".toList then .bond
  else if prefix3 ∈ ["501", "502"].map String.toList then .lof
  else if prefix3 = "506".toList then .etf
  else if prefix3 = "517".toList then .etf
  else if prefix3 = "518".toList then .etf
  else if prefix3 = "519".toList then .openEnd
  else if market = 0 ∧ prefix3 = "159".toList then .etf
  else if market = 0 ∧ prefix3 ∈ ["160", "161"].map String.toList then .lof
  else if market = 0 ∧ prefix3 ∈ ["162", "163", "164"].map String.toList then .structured
  else .other

/-- The type of a fund. A code whose third byte is not the end of a character panics. -/
def classifyFund (market : UInt8) (code : Text) : Except Fault FundType :=
  if Utf8.len code < 3 then .ok .other
  else
    match Utf8.takeBytes 3 code with
    | none => .error .outOfRange
    | some prefix3 => .ok (fundTypeOf market prefix3)

/-! ## The call -/

/-- A fund of the list. -/
structure FundInfo where
  market : UInt8
  code : Text
  name : Text
  fundType : FundType
  volUnit : ℕ
  decimalPoint : ℕ
  preClose : ℚ
deriving DecidableEq

/-- The funds of a page. -/
def pageFunds (market : UInt8) : List SecurityInfo → Except Fault (List FundInfo)
  | [] => .ok []
  | item :: items =>
    if isFund market item.code then do
      let fundType ← classifyFund market item.code
      let funds ← pageFunds market items
      .ok
        ({ market
           code := item.code
           name := item.name
           fundType
           volUnit := item.volunit
           decimalPoint := item.decimalPoint.toNat
           preClose := item.preClose } :: funds)
    else pageFunds market items

/-- The code is none of a fund, and behind the last that could be one. -/
def isBeyond (market : UInt8) (code : Text) : Bool :=
  if market = marketSh then
    !startsWithAny code ["50"] && !startsWithAny code ["51"] && decide ("519999".toList < code)
  else if market = marketSz then
    !startsWithAny code ["15"] && !startsWithAny code ["16"] && decide ("169999".toList < code)
  else false

/-- A page ends with a code behind those of funds. -/
def lastIsBeyond (market : UInt8) (secList : List SecurityInfo) : Bool :=
  match secList.getLast? with
  | some last => isBeyond market last.code
  | none => false

def fundPageSize : ℕ := 1000

/-- Where the pages begin: `(0..total).step_by(page_size)`. -/
def pageStarts (total : ℕ) : List UInt16 :=
  (List.range ((total + fundPageSize - 1) / fundPageSize)).map fun i =>
    UInt16.ofNat (i * fundPageSize)

/-- The pages that are left, with the funds that have been found. A panic ends the call. -/
def fundPages (gbk : Bytes → Text) (market : UInt8) :
    List UInt16 → List FundInfo → CacheProgram (Except Fault (Except TdxError (List FundInfo)))
  | [], funds => pure (.ok (.ok funds))
  | start :: starts, funds => do
    match ← CacheProgram.getSecurityList gbk market start with
    | .error e => pure (.ok (.error e))
    | .ok secList =>
      if secList.isEmpty then pure (.ok (.ok funds))
      else
        match pageFunds market secList with
        | .error fault => pure (.error fault)
        | .ok new =>
          let funds := funds ++ new
          if lastIsBeyond market secList && !funds.isEmpty then pure (.ok (.ok funds))
          else fundPages gbk market starts funds

/-- The list of the funds of a market. -/
def getFundList (gbk : Bytes → Text) (market : UInt8) :
    CacheProgram (Except Fault (Except TdxError (List FundInfo))) := do
  match ← CacheProgram.getSecurityCount market with
  | .error e => pure (.ok (.error e))
  | .ok total => fundPages gbk market (pageStarts total) []

/-! ## What is to be listed, and when it is -/

/-- What is to be listed of a fund. -/
def fundOf (market : UInt8) (item : SecurityInfo) : FundInfo where
  market := market
  code := item.code
  name := item.name
  fundType :=
    if Utf8.len item.code < 3 then .other
    else fundTypeOf market ((Utf8.takeBytes 3 item.code).getD [])
  volUnit := item.volunit
  decimalPoint := item.decimalPoint.toNat
  preClose := item.preClose

/-- The funds of a list of securities, in order. -/
def fundsOf (market : UInt8) (listing : List SecurityInfo) : List FundInfo :=
  (listing.filter fun item => isFund market item.code).map (fundOf market)

/-- Without errors, the client gets the list of securities of a market from its server: how long it
is, and its pages. The state is that of the world and the caches. -/
structure ServesListing {σ : Type} (handle : (op : CacheOp) → σ → op.Ans × σ) (gbk : Bytes → Text)
    (market : UInt8) (listing : List SecurityInfo) : Prop where
  short : listing.length ≤ 65535
  count : ∀ s, ((CacheProgram.getSecurityCount market).exec handle s).1 = .ok listing.length
  page : ∀ start : UInt16, fundPageSize ∣ start.toNat → ∀ s,
    ((CacheProgram.getSecurityList gbk market start).exec handle s).1 =
      .ok ((listing.drop start.toNat).take fundPageSize)

/-- The code has less than three bytes, or its third byte is the end of a character. -/
def CodeSplits (code : Text) : Prop := 3 ≤ Utf8.len code → (Utf8.takeBytes 3 code).isSome

instance (code : Text) : Decidable (CodeSplits code) := inferInstanceAs (Decidable (_ → _))

/-- No fund stands behind a page that ends with a code beyond those of funds, if there is a fund in
this page or before it. -/
def NothingCutOff (market : UInt8) (listing : List SecurityInfo) : Prop :=
  ∀ page, page * fundPageSize < listing.length →
    lastIsBeyond market ((listing.drop (page * fundPageSize)).take fundPageSize) →
    fundsOf market (listing.take ((page + 1) * fundPageSize)) ≠ [] →
    fundsOf market (listing.drop ((page + 1) * fundPageSize)) = []

/-! ## The funds of a page -/

variable {market : UInt8} {listing : List SecurityInfo}

lemma fundsOf_cons (item : SecurityInfo) (items : List SecurityInfo) :
    fundsOf market (item :: items) =
      if isFund market item.code then fundOf market item :: fundsOf market items
      else fundsOf market items := by
  rw [fundsOf, List.filter_cons]
  split <;> rfl

lemma fundsOf_append (a b : List SecurityInfo) :
    fundsOf market (a ++ b) = fundsOf market a ++ fundsOf market b := by
  rw [fundsOf, List.filter_append, List.map_append]
  rfl

lemma fundsOf_eq_nil_iff : fundsOf market listing = [] ↔
    ∀ item ∈ listing, ¬ isFund market item.code = true := by
  rw [fundsOf, List.map_eq_nil_iff, List.filter_eq_nil_iff]

/-- Where no funds are left, there are none farther on. -/
lemma fundsOf_drop_of_le {a b : ℕ} (hab : a ≤ b) (h : fundsOf market (listing.drop a) = []) :
    fundsOf market (listing.drop b) = [] := by
  rw [fundsOf_eq_nil_iff] at h ⊢
  intro item hitem
  rw [← Nat.add_sub_cancel' hab, ← List.drop_drop] at hitem
  exact h item (List.mem_of_mem_drop hitem)

/-- The funds up to a place are all funds if there are none farther on. -/
lemma fundsOf_take_eq_iff (n : ℕ) :
    fundsOf market (listing.take n) = fundsOf market listing ↔
      fundsOf market (listing.drop n) = [] := by
  have hall : fundsOf market listing =
      fundsOf market (listing.take n) ++ fundsOf market (listing.drop n) := by
    rw [← fundsOf_append, List.take_append_drop]
  rw [hall, List.self_eq_append_right]

/-- The type of a fund is found unless its code panics. -/
lemma runs_classifyFund (market : UInt8) (item : SecurityInfo) :
    Checked.Runs (classifyFund market item.code) (fundOf market item).fundType
      (CodeSplits item.code) := by
  rw [classifyFund, fundOf, CodeSplits]
  by_cases hshort : Utf8.len item.code < 3
  · rw [if_pos hshort, if_pos hshort]
    exact (Checked.Runs.pure _).of_iff (iff_of_true trivial fun h => absurd hshort (not_lt.mpr h))
  · rw [if_neg hshort, if_neg hshort, imp_iff_right (not_lt.mp hshort)]
    cases Utf8.takeBytes 3 item.code with
    | none => exact ⟨fun h => absurd h Bool.false_ne_true, fun _ => ⟨_, rfl⟩⟩
    | some prefix3 => exact (Checked.Runs.pure _).of_iff (iff_of_true trivial rfl)

/-- **The funds of a page** are found unless one of them has a code that panics. -/
lemma runs_pageFunds (market : UInt8) (items : List SecurityInfo) :
    Checked.Runs (pageFunds market items) (fundsOf market items)
      (∀ item ∈ items, isFund market item.code → CodeSplits item.code) := by
  induction items with
  | nil => exact (Checked.Runs.pure []).of_iff (iff_of_true trivial fun _ h => nomatch h)
  | cons item items ih =>
    rw [pageFunds, fundsOf_cons, List.forall_mem_cons]
    by_cases hfund : isFund market item.code = true
    · rw [if_pos hfund, if_pos hfund, imp_iff_right hfund]
      exact (runs_classifyFund market item).bind (ih.map _)
    · rw [if_neg hfund, if_neg hfund]
      exact ih.of_iff (iff_and_self.mpr fun _ h => absurd h hfund)

/-! ## The loop -/

section

variable {σ : Type} {handle : (op : CacheOp) → σ → op.Ans × σ} {gbk : Bytes → Text}

/-- The securities up to the end of a page. -/
lemma take_page (listing : List SecurityInfo) (page : ℕ) :
    listing.take ((page + 1) * fundPageSize) = listing.take (page * fundPageSize) ++
      (listing.drop (page * fundPageSize)).take fundPageSize := by
  rw [Nat.succ_mul, List.take_add]

/-- A page that begins before the end of the list is not empty. -/
lemma page_isEmpty {listing : List SecurityInfo} {page : ℕ}
    (hpage : page * fundPageSize < listing.length) :
    ((listing.drop (page * fundPageSize)).take fundPageSize).isEmpty = false := by
  rw [List.isEmpty_eq_false_iff, ← List.length_pos_iff, List.length_take, List.length_drop]
  exact lt_min (by decide) (Nat.sub_pos_of_lt hpage)

/-- The client gets every page that begins before the end of the list: where it begins fits into the
16 bits of the request. -/
lemma ServesListing.exec_page (h : ServesListing handle gbk market listing) {page : ℕ}
    (hpage : page * fundPageSize < listing.length) (s : σ) :
    ((CacheProgram.getSecurityList gbk market (UInt16.ofNat (page * fundPageSize))).exec
        handle s).1 = .ok ((listing.drop (page * fundPageSize)).take fundPageSize) := by
  have hstart : (UInt16.ofNat (page * fundPageSize)).toNat = page * fundPageSize :=
    UInt16.toNat_ofNat_of_lt' (lt_of_lt_of_le hpage (h.short.trans (by decide)))
  have hlist := h.page (UInt16.ofNat (page * fundPageSize))
  rw [hstart] at hlist
  exact hlist (Nat.dvd_mul_left fundPageSize page) s

/-- From a page on, no fund stands behind a page that ends with a code beyond those of funds. -/
def NothingCutOffFrom (market : UInt8) (listing : List SecurityInfo) (page : ℕ) : Prop :=
  ∀ later, page ≤ later → later * fundPageSize < listing.length →
    lastIsBeyond market ((listing.drop (later * fundPageSize)).take fundPageSize) →
    fundsOf market (listing.take ((later + 1) * fundPageSize)) ≠ [] →
    fundsOf market (listing.drop ((later + 1) * fundPageSize)) = []

/-- The funds from a page on have codes that do not panic. -/
def CodesSplitFrom (market : UInt8) (listing : List SecurityInfo) (page : ℕ) : Prop :=
  ∀ item ∈ listing.drop (page * fundPageSize), isFund market item.code → CodeSplits item.code

/-- At the end of the list nothing is left to cut off. -/
lemma nothingCutOffFrom_end {page : ℕ} (hend : listing.length ≤ page * fundPageSize) :
    NothingCutOffFrom market listing page := by
  intro later hle hlater
  exact absurd hlater (not_lt.mpr (hend.trans (Nat.mul_le_mul_right _ hle)))

/-- Where no fund is behind a page, nothing is cut off from it on. -/
lemma nothingCutOffFrom_of_drop {page : ℕ}
    (hnone : fundsOf market (listing.drop ((page + 1) * fundPageSize)) = []) :
    NothingCutOffFrom market listing page := by
  intro later hle _ _ _
  exact fundsOf_drop_of_le (Nat.mul_le_mul_right _ (Nat.succ_le_succ hle)) hnone

/-- A page that does not end the loop cuts off nothing. -/
lemma nothingCutOffFrom_succ_iff {page : ℕ}
    (hgoes : ¬ (lastIsBeyond market ((listing.drop (page * fundPageSize)).take fundPageSize) ∧
      fundsOf market (listing.take ((page + 1) * fundPageSize)) ≠ [])) :
    NothingCutOffFrom market listing (page + 1) ↔ NothingCutOffFrom market listing page := by
  constructor
  · intro hlater later hle hinside hbeyond hsome
    rcases hle.eq_or_lt with rfl | hlt
    · exact absurd ⟨hbeyond, hsome⟩ hgoes
    · exact hlater later hlt hinside hbeyond hsome
  · exact fun hall later hle => hall later (Nat.le_of_succ_le hle)

/-- The codes from a page on are those of the page and those behind it. -/
lemma codesSplitFrom_iff {page : ℕ} : CodesSplitFrom market listing page ↔
    (∀ item ∈ (listing.drop (page * fundPageSize)).take fundPageSize,
      isFund market item.code → CodeSplits item.code) ∧
      CodesSplitFrom market listing (page + 1) := by
  have hrest : listing.drop (page * fundPageSize) =
      (listing.drop (page * fundPageSize)).take fundPageSize ++
        listing.drop ((page + 1) * fundPageSize) := by
    rw [Nat.succ_mul, ← List.drop_drop, List.take_append_drop]
  rw [CodesSplitFrom, CodesSplitFrom, ← List.forall_mem_append, ← hrest]

/-- **The pages that are left** complete the list exactly if none of them cuts off a fund and no
fund in them has a code that panics. By induction on the number of pages that are left; the funds
that have been found are those of the pages before.

**Proof sketch.** The page is not empty, and its funds are put behind those of the pages before
(`take_page`), unless the code of one of them panics, which ends the call. If the last code of the
page lies beyond the funds and some have been found, the loop ends here, and the list is complete
exactly if no fund comes later. Otherwise the induction hypothesis goes on with the next page, and
this page cuts nothing off. -/
lemma fundPages_complete_iff (h : ServesListing handle gbk market listing) (left : ℕ) :
    ∀ (page : ℕ) (s : σ),
      page + left = (listing.length + fundPageSize - 1) / fundPageSize →
      (((fundPages gbk market
          ((List.range' page left).map fun i => UInt16.ofNat (i * fundPageSize))
          (fundsOf market (listing.take (page * fundPageSize)))).exec handle s).1 =
        .ok (.ok (fundsOf market listing)) ↔
      NothingCutOffFrom market listing page ∧ CodesSplitFrom market listing page) := by
  induction left with
  | zero =>
    intro page s hpages
    have hend : listing.length ≤ page * fundPageSize := by
      unfold fundPageSize at hpages ⊢
      omega
    rw [CodesSplitFrom, List.take_of_length_le hend, List.drop_of_length_le hend]
    exact iff_of_true rfl ⟨nothingCutOffFrom_end hend, fun item hitem => nomatch hitem⟩
  | succ left ih =>
    intro page s hpages
    have hlt : page * fundPageSize < listing.length := by
      unfold fundPageSize at hpages ⊢
      omega
    have hfunds := take_page listing page
    have hnew := runs_pageFunds market ((listing.drop (page * fundPageSize)).take fundPageSize)
    rw [List.range'_succ, List.map_cons, fundPages, Program.exec_bind, h.exec_page hlt,
      codesSplitFrom_iff]
    simp only [page_isEmpty hlt, Bool.false_eq_true, if_false]
    by_cases hsplits : ∀ item ∈ (listing.drop (page * fundPageSize)).take fundPageSize,
        isFund market item.code → CodeSplits item.code
    · rw [hnew.ok hsplits, and_iff_right hsplits]
      simp only [← fundsOf_append, ← hfunds]
      by_cases hcut : (lastIsBeyond market
          ((listing.drop (page * fundPageSize)).take fundPageSize) &&
          !(fundsOf market (listing.take ((page + 1) * fundPageSize))).isEmpty) = true
      · -- the loop ends here, with the funds of the pages up to this one
        rw [if_pos hcut]
        rw [Bool.and_eq_true, Bool.not_eq_true', List.isEmpty_eq_false_iff] at hcut
        show Except.ok (Except.ok _) = Except.ok (Except.ok _) ↔ _
        rw [Except.ok.injEq, Except.ok.injEq, fundsOf_take_eq_iff]
        constructor
        · intro hnone
          refine ⟨nothingCutOffFrom_of_drop hnone, fun item hitem hfund => ?_⟩
          exact absurd hfund (fundsOf_eq_nil_iff.mp hnone item hitem)
        · exact fun hcond => hcond.1 page le_rfl hlt hcut.1 hcut.2
      · rw [if_neg hcut]
        rw [Bool.and_eq_true, Bool.not_eq_true', List.isEmpty_eq_false_iff] at hcut
        rw [← nothingCutOffFrom_succ_iff hcut]
        exact ih (page + 1) _ (by omega)
    · obtain ⟨fault, hfault⟩ := hnew.fault hsplits
      rw [hfault]
      exact iff_of_false (fun hok => nomatch hok) fun hall => hsplits hall.2.1

end

/-! ## The list -/

/-- **When the list of funds is complete**, for every server and every list of securities of a
market, of whatever length and in whatever order: exactly if no fund stands behind a page that ends
the loop, and no fund has a code that panics.

**Proof sketch.** The pages are all there, so the loop ends with the last one or with a page that is
beyond the funds. In the second case the list has the funds up to this page. -/
theorem fund_list_complete_iff {σ : Type} (handle : (op : CacheOp) → σ → op.Ans × σ)
    (gbk : Bytes → Text) (market : UInt8) (listing : List SecurityInfo)
    (h : ServesListing handle gbk market listing) (s : σ) :
    ((getFundList gbk market).exec handle s).1 = .ok (.ok (fundsOf market listing)) ↔
      NothingCutOff market listing ∧
        ∀ item ∈ listing, isFund market item.code → CodeSplits item.code := by
  have hpages := fundPages_complete_iff h
    ((listing.length + fundPageSize - 1) / fundPageSize) 0
    ((CacheProgram.getSecurityCount market).exec handle s).2 (Nat.zero_add _)
  rw [CodesSplitFrom, Nat.zero_mul, List.take_zero, List.drop_zero, ← List.range_eq_range']
    at hpages
  rw [getFundList, Program.exec_bind, h.count]
  refine hpages.trans (and_congr_left fun _ => ?_)
  exact forall_congr' fun page => imp_iff_right (Nat.zero_le page)

/-! ## Lists in order -/

/-- How a code begins that begins with a text. -/
lemma startsWithAny_singleton {code : Text} {s : String} :
    startsWithAny code [s] = true ↔ s.toList <+: code := by
  rw [startsWithAny, List.any_cons, List.any_nil, Bool.or_false, List.isPrefixOf_iff_prefix]

/-- A code behind those of funds is behind every code that begins like one.

**Proof sketch.** By the first two characters. A code behind that of the funds is greater in one of
them: it is not greater only later, since it does not begin like those of funds. -/
lemma lt_of_beyond {code : Text} {a b c : Char} (hcb : c ≤ b) (hstart : ¬ [a, b] <+: code)
    (hbeyond : a :: b :: "9999".toList < code) (rest : Text) : a :: c :: rest < code := by
  rcases code with _ | ⟨x, _ | ⟨y, code⟩⟩
  · exact absurd hbeyond (List.not_lt_nil _)
  · rcases List.cons_lt_cons_iff.mp hbeyond with hx | ⟨rfl, hnil⟩
    · exact List.cons_lt_cons_iff.mpr (.inl hx)
    · exact absurd hnil (List.not_lt_nil _)
  · rcases List.cons_lt_cons_iff.mp hbeyond with hx | ⟨rfl, hy⟩
    · exact List.cons_lt_cons_iff.mpr (.inl hx)
    · rcases List.cons_lt_cons_iff.mp hy with hy | ⟨rfl, -⟩
      · have hcy : c < y := Nat.lt_of_le_of_lt hcb hy
        exact List.cons_lt_cons_iff.mpr (.inr ⟨rfl, List.cons_lt_cons_iff.mpr (.inl hcy)⟩)
      · exact absurd ⟨code, rfl⟩ hstart

/-- No code of a fund is behind a code that is beyond those of funds.

**Proof sketch.** A code of a fund begins with one of the two texts, and any code that does is
before the one given. -/
lemma not_startsWithAny_of_beyond {code other : Text} {s t : String} {a b c : Char}
    (hs : s.toList = [a, c]) (ht : t.toList = [a, b]) (hcb : c ≤ b)
    (hbeyond : (!startsWithAny code [s] && !startsWithAny code [t] &&
      decide (a :: b :: "9999".toList < code)) = true) (hle : ¬ other < code) :
    ¬ startsWithAny other [s, t] = true := by
  rw [Bool.and_eq_true, Bool.and_eq_true, Bool.not_eq_true', Bool.not_eq_true',
    decide_eq_true_eq] at hbeyond
  obtain ⟨⟨-, ht'⟩, hlt⟩ := hbeyond
  have hstart : ¬ [a, b] <+: code := by
    rw [← ht, ← startsWithAny_singleton, ht']
    exact Bool.false_ne_true
  intro hfund
  rw [startsWithAny, List.any_cons, List.any_cons, List.any_nil, Bool.or_false, Bool.or_eq_true,
    List.isPrefixOf_iff_prefix, List.isPrefixOf_iff_prefix, hs, ht] at hfund
  rcases hfund with ⟨rest, rfl⟩ | ⟨rest, rfl⟩
  · exact hle (lt_of_beyond hcb hstart hlt rest)
  · exact hle (lt_of_beyond (Char.le_refl b) hstart hlt rest)

/-- The same for both markets. -/
lemma not_isFund_of_beyond {code other : Text} (hbeyond : isBeyond market code = true)
    (hle : ¬ other < code) : ¬ isFund market other = true := by
  rw [isBeyond] at hbeyond
  rw [isFund]
  by_cases hsh : market = marketSh
  · rw [if_pos hsh] at hbeyond ⊢
    exact not_startsWithAny_of_beyond rfl rfl (by decide) hbeyond hle
  · rw [if_neg hsh] at hbeyond ⊢
    by_cases hsz : market = marketSz
    · rw [if_pos hsz] at hbeyond ⊢
      exact not_startsWithAny_of_beyond rfl rfl (by decide) hbeyond hle
    · rw [if_neg hsz]
      exact Bool.false_ne_true

/-- **In a list in order of the codes** nothing is cut off.

**Proof sketch.** Let a page end with a code beyond those of funds. All securities behind the page
come after that code, and so none of them is a fund. -/
theorem nothingCutOff_of_ascending (h : listing.Pairwise fun x y => ¬ y.code < x.code) :
    NothingCutOff market listing := by
  intro page _ hbeyond _
  rw [fundsOf_eq_nil_iff]
  intro item hitem
  rw [lastIsBeyond] at hbeyond
  split at hbeyond
  · rename_i last hlast
    have hmem : last ∈ listing.take ((page + 1) * fundPageSize) := by
      rw [take_page]
      exact List.mem_append_right _ (List.mem_of_getLast? hlast)
    rw [← List.take_append_drop ((page + 1) * fundPageSize) listing, List.pairwise_append] at h
    exact not_isFund_of_beyond hbeyond (h.2.2 last hmem item hitem)
  · exact absurd hbeyond Bool.false_ne_true

/-! ## Two lists -/

/-- A server whose list has `total` securities, the first page of which is in the cache, as is their
number; it sends `body` for the second page, and nothing for the others. -/
def cachedListing (total : ℕ) (first : List SecurityInfo) (body : Bytes) :
    (op : CacheOp) → Unit → op.Ans × Unit
  | .hq (.trySendAndRecv packet), w =>
    (.ok (if LittleEndian.field packet 14 2 = fundPageSize then body else [0, 0]), w)
  | .hq .autoRetry, w => (true, w)
  | .hq .reconnectIfNeeded, w | .hq .reconnectToAnotherServer, w => ((), w)
  | .user _, w | .setCacheTtl _, w | .countPut _ _, w | .listPut _ _, w => ((), w)
  | .countGet _, w => (some total, w)
  | .listGet _, w => (some first, w)

/-- A security of the list with a code, and no name or price. -/
def listed (code : String) : SecurityInfo := ⟨code.toList, 100, 3, [], 0⟩

/-- Which page a request asks for. -/
lemma field_buildSecurityListPacket (market : UInt8) (start : UInt16) :
    LittleEndian.field (CacheProgram.buildSecurityListPacket market start) 14 2 = start.toNat := by
  rw [CacheProgram.buildSecurityListPacket, LittleEndian.field_append_right _ _ (by simp)]
  have hpos : 14 - ([0x0c, 0x01, 0x18, 0x64, 0x01, 0x01, 0x06, 0x00, 0x06, 0x00, 0x50, 0x04] ++
      LittleEndian.toLE 2 market.toNat).length = 0 := by simp
  rw [hpos, LittleEndian.field_toLE]
  exact Nat.mod_eq_of_lt start.toNat_lt

/-- It serves a list of at most two pages.

**Proof sketch.** The first page is the cached one. Any other start is a request, whose bytes carry
the start; it is answered with the second page at the start of that page, and with an empty list
beyond, where the listing has ended. -/
lemma cachedListing_serves {gbk : Bytes → Text} (market : UInt8) (first second : List SecurityInfo)
    {body : Bytes} (hbody : parseSecurityList gbk body = .ok second)
    (hfirst : first.length ≤ fundPageSize) (hsecond : second.length ≤ fundPageSize)
    (hfull : second ≠ [] → first.length = fundPageSize) :
    ServesListing (cachedListing (first ++ second).length first body) gbk market
      (first ++ second) where
  short := by
    rw [List.length_append]
    unfold fundPageSize at hfirst hsecond
    omega
  count _ := rfl
  page start hpage s := by
    by_cases hstart : start = 0
    · rw [hstart]
      show Except.ok first = .ok ((first ++ second).take fundPageSize)
      by_cases hnil : second = []
      · rw [hnil, List.append_nil, List.take_of_length_le hfirst]
      · rw [List.take_left' (hfull hnil)]
    · have hfetch : ((CacheProgram.getSecurityList gbk market start).exec
          (cachedListing (first ++ second).length first body) s).1 =
          parseSecurityList gbk (if LittleEndian.field
            (CacheProgram.buildSecurityListPacket market start) 14 2 = fundPageSize then body
            else [0, 0]) := by
        rw [CacheProgram.getSecurityList, if_neg hstart]
        rfl
      have hpos : start.toNat ≠ 0 := fun h => hstart (UInt16.toNat_inj.mp h)
      rw [hfetch, field_buildSecurityListPacket]
      by_cases hsame : start.toNat = fundPageSize
      · rw [if_pos hsame, hbody, hsame]
        by_cases hnil : second = []
        · rw [hnil, List.append_nil, List.drop_of_length_le hfirst]
          rfl
        · rw [List.drop_left' (hfull hnil), List.take_of_length_le hsecond]
      · have hend : (first ++ second).length ≤ start.toNat := by
          obtain ⟨k, hk⟩ := hpage
          rw [List.length_append]
          unfold fundPageSize at *
          omega
        rw [if_neg hsame, List.drop_of_length_le hend]
        rfl

/-- A full page that ends with a fund. -/
def lastListed : List SecurityInfo :=
  List.replicate 999 (listed "000001") ++ [listed "510050"]

/-- A full page that begins with a fund and ends with a stock. -/
def firstListed : List SecurityInfo := listed "510050" :: List.replicate 999 (listed "600000")

/-- A response with one more fund. -/
def lateFundBody : Bytes :=
  [1, 0] ++ [0x35, 0x31, 0x30, 0x33, 0x30, 0x30, 100, 0] ++ List.replicate 12 0 ++ [3] ++
    List.replicate 8 0

/-- A listing of two pages in order of the codes: the funds of both are found. -/
theorem fund_list_complete_two_pages :
    ((getFundList asciiText marketSh).exec
        (cachedListing (lastListed ++ [listed "510300"]).length lastListed lateFundBody) ()).1 =
      .ok (.ok [fundOf marketSh (listed "510050"), fundOf marketSh (listed "510300")]) := by
  have hbody : parseSecurityList asciiText lateFundBody = .ok [listed "510300"] := by
    decide +kernel
  have hserves := cachedListing_serves marketSh lastListed [listed "510300"] hbody
    (by decide +kernel) (by decide) fun _ => by decide +kernel
  have hordered : (lastListed ++ [listed "510300"]).Pairwise fun x y => ¬ y.code < x.code := by
    rw [lastListed, List.append_assoc, List.pairwise_append]
    refine ⟨List.pairwise_replicate.mpr (.inr (by decide)), by decide, fun x hx y hy => ?_⟩
    rw [List.eq_of_mem_replicate hx]
    revert y
    decide
  have hall := (fund_list_complete_iff _ asciiText marketSh _ hserves ()).mpr
    ⟨nothingCutOff_of_ascending hordered, by decide +kernel⟩
  exact hall.trans (by decide +kernel)

/-- **A fund on the second page** is left out: the first page ends with the code of a stock.

**Proof sketch.** Two pages are served, and the call for the list is evaluated: it has the fund of
the first page and not the one of the second. -/
theorem fund_list_cut_off :
    ¬ ∀ (handle : (op : CacheOp) → Unit → op.Ans × Unit) (gbk : Bytes → Text) (market : UInt8)
      (listing : List SecurityInfo), ServesListing handle gbk market listing →
        ((getFundList gbk market).exec handle ()).1 =
          .ok (.ok (fundsOf market listing)) := by
  intro h
  have hbody : parseSecurityList asciiText lateFundBody = .ok [listed "510300"] := by
    decide +kernel
  have hserves := cachedListing_serves marketSh firstListed [listed "510300"] hbody
    (by decide +kernel) (by decide) fun _ => by decide +kernel
  have hcut : ((getFundList asciiText marketSh).exec (cachedListing
      (firstListed ++ [listed "510300"]).length firstListed lateFundBody) ()).1 =
      .ok (.ok [fundOf marketSh (listed "510050")]) := by
    decide +kernel
  have hall := h _ asciiText marketSh _ hserves
  rw [hcut] at hall
  revert hall
  decide +kernel

end Tdxrs
