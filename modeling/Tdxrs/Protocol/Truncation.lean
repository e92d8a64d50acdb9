import Mathlib.Tactic.IntervalCases
import Tdxrs.Protocol.BarFields
import Tdxrs.Protocol.MinuteData
import Tdxrs.Protocol.Quotes
import Tdxrs.Protocol.VolumeWord

set_option relaxedAutoImplicit false
set_option autoImplicit false

/-!
# Responses that are cut off

A parser checks that a fixed number of bytes is left before it reads a record. Records are longer
than that if a price takes several bytes, and then a response can be cut off behind the bytes that
are checked. The fields behind the cut are read as zero, and the record is returned.

## Main definitions

* `Tdxrs.ZeroBehind` — the fields of a record that end behind a cut are zero.

## Main results

* `Tdxrs.truncation_iff` — for each of six parsers, when the records that it returns for a body that
  is cut off are a prefix of those for the whole body.
-/

namespace Tdxrs

open Records

/-- The records that a parser returns. -/
def returned {α : Type} (r : Except TdxError (List α)) : List α := r.toOption.getD []

/-! ## Fields at the end of the data -/

variable {body : Bytes} {pos cut : ℕ}

/-- Prices within the data end there. -/
lemma fieldEnds_le_of_prices {fields : List Field} (hprices : ∀ f ∈ fields, f = .price) :
    ∀ {pos : ℕ}, pos ≤ body.length → ∀ e ∈ fieldEnds fields body pos, e ≤ body.length := by
  induction fields with
  | nil => exact fun _ e he => absurd he List.not_mem_nil
  | cons f fields ih =>
    intro pos hpos
    obtain ⟨rfl, hrest⟩ := List.forall_mem_cons.mp hprices
    have hfirst : (getPrice body pos).2 ≤ body.length := by
      rcases Nat.lt_or_ge pos body.length with hlt | hge
      · exact (getPrice_bounds hlt).2
      · exact (congrArg Prod.snd (getPrice_of_le hge)).le
    exact List.forall_mem_cons.mpr ⟨hfirst, ih hrest hfirst⟩

/-- If the last field is a number within the data, all fields are.

**Proof sketch.** A number has at least two bytes, so it begins within the data. The fields before
it end there or earlier, for a field that ended behind the data would leave the position behind
it. -/
lemma fieldEnds_le_of_number {init : List Field} {last : Field} (hlast : last ≠ .price)
    (hle : (readFields (init ++ [last]) body pos).2 ≤ body.length) :
    ∀ e ∈ fieldEnds (init ++ [last]) body pos, e ≤ body.length := by
  rw [readFields, readFields_append] at hle
  have hlt : (readFields init body pos).2 < body.length := by
    cases last with
    | price => exact absurd rfl hlast
    | u16 => exact lt_of_lt_of_le (Nat.lt_add_of_pos_right (by decide)) hle
    | u32 => exact lt_of_lt_of_le (Nat.lt_add_of_pos_right (by decide)) hle
  rw [fieldEnds, ends_append]
  refine List.forall_mem_append.mpr ⟨fun e he => ?_, List.forall_mem_singleton.mpr hle⟩
  by_contra hbehind
  exact absurd (lenient_readField.length_le_readFields init ⟨e, he, not_le.mp hbehind⟩)
    (not_le.mpr hlt)

/-! ## Values that are zero -/

/-- The fields of a record that end behind the cut are zero. -/
def ZeroBehind (cut : ℕ) (fields : List Field) (body : Bytes) (pos : ℕ) : Prop :=
  ∀ i < fields.length, cut < (fieldEnds fields body pos).getD i 0 →
    (readFields fields body pos).1.getD i 0 = 0

/-- The value of a field that is read behind a cut. -/
lemma getD_cut (fields : List Field) (i : ℕ) :
    (cutValues 0 cut (readFields fields body pos).1 (fieldEnds fields body pos)).getD i 0 =
      if (fieldEnds fields body pos).getD i 0 ≤ cut then (readFields fields body pos).1.getD i 0
      else 0 :=
  getD_cutValues (by rw [length_readFields, length_ends]) i

/-- What is made of a field that may be behind a cut is as before exactly if, when it is, the same
is made of zero. -/
lemma apply_cut_iff {α : Type} (f : Int64 → α) {v : Int64} {e : ℕ} :
    f (if e ≤ cut then v else 0) = f v ↔ (cut < e → f v = f 0) := by
  by_cases h : e ≤ cut
  · rw [if_pos h]
    exact iff_of_true rfl fun hlt => absurd h (not_le.mpr hlt)
  · rw [if_neg h]
    exact ⟨fun heq _ => heq.symm, fun hzero => (hzero (not_le.mp h)).symm⟩

lemma value_cut_iff {v : Int64} {e : ℕ} : (if e ≤ cut then v else 0) = v ↔ (cut < e → v = 0) :=
  apply_cut_iff id

/-- Only the volume word zero stands for zero. -/
lemma getVolume_eq_zero_iff (vol : ℕ) : getVolume vol = 0 ↔ vol = 0 := by
  refine ⟨fun h => ?_, fun h => if_pos h⟩
  by_contra hne
  exact (getVolume_pos hne).ne' h

lemma thousandths_inj {a b : Int64} : thousandths a = thousandths b ↔ a = b := by
  rw [thousandths, thousandths, div_left_inj' (by norm_num), Int.cast_inj, Int64.toInt_inj]

/-- The value of a field of two or four bytes. -/
def IsWord (v : Int64) : Prop := ∃ n < 2 ^ 32, v = Int64.ofNat n

lemma word_eq_zero_iff {v : Int64} (hv : IsWord v) : word v = 0 ↔ v = 0 := by
  obtain ⟨n, hn, rfl⟩ := hv
  rw [word_ofNat hn, ← Int64.toInt_inj, Int64.toInt_ofNat_of_lt (by omega)]
  exact Int.natCast_eq_zero.symm

/-- The same for a number of two or four bytes. -/
lemma word_cut_iff {v : Int64} {e : ℕ} (hv : IsWord v) :
    word (if e ≤ cut then v else 0) = word v ↔ (cut < e → v = 0) := by
  rw [apply_cut_iff word]
  exact imp_congr_right fun _ => word_eq_zero_iff hv

/-- The same for a volume. -/
lemma volume_cut_iff {v : Int64} {e : ℕ} (hv : IsWord v) :
    getVolume (word (if e ≤ cut then v else 0)) = getVolume (word v) ↔ (cut < e → v = 0) := by
  have hzero : getVolume (word 0) = 0 := if_pos rfl
  refine (apply_cut_iff fun v => getVolume (word v)).trans (imp_congr_right fun _ => ?_)
  rw [hzero, getVolume_eq_zero_iff, word_eq_zero_iff hv]

/-! ## Bars -/

section Bars

variable {maxValidYear : ℕ} {category : UInt8}

/-- The date of a record, if it is not refused. -/
def barHead (maxValidYear : ℕ) (category : UInt8) (body : Bytes) (pos : ℕ) :
    Option (ℕ × ℕ × ℕ × ℕ × ℕ × ℕ) :=
  if DateRefused maxValidYear category body pos then none else some (getDatetime category body pos)

/-- An index bar from its date and its fields. -/
def indexBarOf (category : UInt8) (date : ℕ × ℕ × ℕ × ℕ × ℕ × ℕ) (preDiffBase : Int64)
    (v : List Int64) : IndexBar :=
  { barOf category date preDiffBase v with
    upCount := word (v.getD 6 0), downCount := word (v.getD 7 0) }

/-- What the next record is relative to. -/
def barNext (preDiffBase : Int64) (v : List Int64) : Int64 :=
  preDiffBase + v.getD 0 0 + v.getD 1 0

lemma parseKLine_fieldStep (maxValidYear : ℕ) (category : UInt8) :
    parseKLine maxValidYear category =
      fieldStep readField 4 barFields (barHead maxValidYear category) (barOf category) barNext := by
  funext body pos base
  rw [parseKLine_eq, fieldStep, barHead]
  split <;> rfl

lemma readU16_lt (data : Bytes) (pos : ℕ) : readU16 data pos < 2 ^ 16 := by
  rw [readU16]
  split
  · decide
  · exact LittleEndian.field_lt data pos 2

lemma parseIndexKLine_fieldStep (maxValidYear : ℕ) (category : UInt8) :
    parseIndexKLine maxValidYear category =
      fieldStep readField 4 indexFields (barHead maxValidYear category) (indexBarOf category)
        barNext := by
  funext body pos base
  have hword (p : ℕ) : word (Int64.ofNat (readU16 body p)) = readU16 body p :=
    word_ofNat ((readU16_lt body p).trans (by decide))
  rw [parseIndexKLine, parseKLine_eq, fieldStep, barHead]
  split
  · rfl
  · simp only [Option.map_some, withCounts, indexBarOf, barOf, barNext, indexFields, barFields,
      List.cons_append, List.nil_append, readFields, Records.readFields, readField,
      List.getD_cons_zero, List.getD_cons_succ, hword]

lemma getDatetime_take (hpos : pos + 4 ≤ cut) (hcut : cut ≤ body.length) :
    getDatetime category (body.take cut) pos = getDatetime category body pos := by
  have hday : readU16 (body.take cut) pos = readU16 body pos :=
    (readU16_take hcut).trans (if_pos (by omega))
  have hminutes : readU16 (body.take cut) (pos + 2) = readU16 body (pos + 2) :=
    (readU16_take hcut).trans (if_pos (by omega))
  have hdate : readU32 (body.take cut) pos = readU32 body pos :=
    (readU32_take hcut).trans (if_pos hpos)
  rw [getDatetime, getDatetime, hday, hminutes, hdate]

/-- Both kinds of bars are records of a head and fields.

**Proof sketch.** The head is the date in the first four bytes, which are there when the check finds
at least four. -/
lemma headed_bars {guard : ℕ} (init : List Field) {last : Field} (hlast : last ≠ .price)
    (hguard : 4 ≤ guard) (body : Bytes) :
    Headed readField guard 4 (init ++ [last]) (barHead maxValidYear category) body where
  skip_le := hguard
  nonempty := List.concat_ne_nil last init
  head_take {pos cut} hpos hcut := by
    have hdate : getDatetime category (body.take cut) pos = getDatetime category body pos :=
      getDatetime_take (by omega) hcut
    have hrefused : DateRefused maxValidYear category (body.take cut) pos ↔
        DateRefused maxValidYear category body pos := by
      rw [DateRefused, DateRefused, hdate]
    rw [barHead, barHead, hdate]
    exact if_congr hrefused rfl rfl
  ends_le _ hle := fieldEnds_le_of_number hlast hle

/-- Bars of one date are the same exactly if all that is read of them is. -/
lemma barOf_eq_iff {date : ℕ × ℕ × ℕ × ℕ × ℕ × ℕ} {base : Int64} {v w : List Int64} :
    barOf category date base v = barOf category date base w ↔
      (v.getD 0 0 = w.getD 0 0 ∧ v.getD 1 0 = w.getD 1 0 ∧ v.getD 2 0 = w.getD 2 0 ∧
        v.getD 3 0 = w.getD 3 0) ∧
      getVolume (word (v.getD 4 0)) = getVolume (word (w.getD 4 0)) ∧
      getVolume (word (v.getD 5 0)) = getVolume (word (w.getD 5 0)) := by
  have hadd {a b c : Int64} : a + b = a + c ↔ b = c :=
    ⟨fun h => by simpa using congrArg (-a + ·) h, fun h => h ▸ rfl⟩
  simp only [barOf, SecurityBar.mk.injEq, thousandths_inj, and_true]
  constructor
  · rintro ⟨hopen, hclose, hhigh, hlow, hvol, hamount⟩
    rw [hopen] at hclose hhigh hlow
    exact ⟨⟨hadd.mp hopen, hadd.mp hclose, hadd.mp hhigh, hadd.mp hlow⟩, hvol, hamount⟩
  · rintro ⟨⟨hopen, hclose, hhigh, hlow⟩, hvol, hamount⟩
    rw [hopen, hclose, hhigh, hlow]
    exact ⟨rfl, rfl, rfl, rfl, hvol, hamount⟩

/-- A bar whose fields behind a cut are read as zero is the bar exactly if they are zero. -/
lemma barOf_cut_iff {fields : List Field} {date : ℕ × ℕ × ℕ × ℕ × ℕ × ℕ} {base : Int64}
    (hvol : IsWord ((readFields fields body pos).1.getD 4 0))
    (hamount : IsWord ((readFields fields body pos).1.getD 5 0)) :
    barOf category date base
          (cutValues 0 cut (readFields fields body pos).1 (fieldEnds fields body pos)) =
        barOf category date base (readFields fields body pos).1 ↔
      ∀ i < 6, cut < (fieldEnds fields body pos).getD i 0 →
        (readFields fields body pos).1.getD i 0 = 0 := by
  rw [barOf_eq_iff]
  simp only [getD_cut, value_cut_iff, volume_cut_iff hvol, volume_cut_iff hamount]
  constructor
  · rintro ⟨⟨h0, h1, h2, h3⟩, h4, h5⟩ i hi
    interval_cases i <;> assumption
  · intro h
    exact ⟨⟨h 0 (by decide), h 1 (by decide), h 2 (by decide), h 3 (by decide)⟩, h 4 (by decide),
      h 5 (by decide)⟩

/-- In the bar in which the cut falls, too few bytes are left or the fields behind the cut are zero.
-/
def SecurityBarsUnchanged (maxValidYear : ℕ) (category : UInt8) (cut : ℕ) (body : Bytes) : Prop :=
  AtCut (parseKLine maxValidYear category) body cut
    (fun pos _ => cut < pos + 16 ∨ ZeroBehind cut barFields body (pos + 4)) (readU16 body 0) 2 0

/-- The same for index bars. -/
def IndexBarsUnchanged (maxValidYear : ℕ) (category : UInt8) (cut : ℕ) (body : Bytes) : Prop :=
  AtCut (parseIndexKLine maxValidYear category) body cut
    (fun pos _ => cut < pos + 24 ∨ ZeroBehind cut indexFields body (pos + 4)) (readU16 body 0) 2 0

/-- **Security bars that are cut off.**

**Proof sketch.** The two bytes of the count are not cut off, so both loops have the same number of
rounds, and bars are records of a head and fields. It remains to say when the record of the cut is
not another one. -/
theorem securityBars_isPrefix_iff (hcut : cut ≤ body.length) (hhead : 2 ≤ cut)
    (hwhole : Whole (parseKLine maxValidYear category) body (readU16 body 0) 2 0) :
    returned (parseSecurityBars maxValidYear category (body.take cut)) <+:
        returned (parseSecurityBars maxValidYear category body) ↔
      SecurityBarsUnchanged maxValidYear category cut body := by
  unfold SecurityBarsUnchanged
  have hcount : readU16 (body.take cut) 0 = readU16 body 0 :=
    (readU16_take hcut).trans (if_pos hhead)
  rw [parseSecurityBars_eq, parseSecurityBars_eq, List.length_take_of_le hcut, hcount,
    if_neg (by omega), if_neg (by omega), parseKLine_fieldStep]
  rw [parseKLine_fieldStep] at hwhole
  have hheaded : Headed readField 16 4 barFields (barHead maxValidYear category) body :=
    headed_bars [.price, .price, .price, .price, .u32] (show Field.u32 ≠ .price by decide)
      (by decide) body
  refine hheaded.loop_take_isPrefix_iff lenient_readField (by decide) hcut
    (fun pos base date _ => ?_) hwhole
  exact barOf_cut_iff ⟨_, readU32_lt _ _, rfl⟩ ⟨_, readU32_lt _ _, rfl⟩

/-- **Index bars that are cut off.**

**Proof sketch.** The parser is the loop of `Headed.loop_take_isPrefix_iff` behind a count that the
cut leaves alone, so that only the bar in which the cut falls has to be looked at. Its six fields of
prices and volumes are those of a security bar (`barOf_cut_iff`); the two counters behind them are
words, whose value survives only if they are complete or zero (`word_cut_iff`). -/
theorem indexBars_isPrefix_iff (hcut : cut ≤ body.length) (hhead : 2 ≤ cut)
    (hwhole : Whole (parseIndexKLine maxValidYear category) body (readU16 body 0) 2 0) :
    returned (parseIndexBars maxValidYear category (body.take cut)) <+:
        returned (parseIndexBars maxValidYear category body) ↔
      IndexBarsUnchanged maxValidYear category cut body := by
  unfold IndexBarsUnchanged
  have hcount : readU16 (body.take cut) 0 = readU16 body 0 :=
    (readU16_take hcut).trans (if_pos hhead)
  rw [parseIndexBars_eq, parseIndexBars_eq, List.length_take_of_le hcut, hcount,
    if_neg (by omega), if_neg (by omega), parseIndexKLine_fieldStep]
  rw [parseIndexKLine_fieldStep] at hwhole
  have hheaded : Headed readField 24 4 indexFields (barHead maxValidYear category) body :=
    headed_bars (barFields ++ [.u16]) (show Field.u16 ≠ .price by decide) (by decide) body
  refine hheaded.loop_take_isPrefix_iff lenient_readField (by decide) hcut
    (fun pos base date _ => ?_) hwhole
  have hnumber (p : ℕ) : IsWord (Int64.ofNat (readU16 body p)) :=
    ⟨_, (readU16_lt body p).trans (by decide), rfl⟩
  have hup : IsWord ((readFields indexFields body (pos + 4)).1.getD 6 0) := hnumber _
  have hdown : IsWord ((readFields indexFields body (pos + 4)).1.getD 7 0) := hnumber _
  simp only [indexBarOf, IndexBar.mk.injEq, getD_cut, word_cut_iff hup, word_cut_iff hdown]
  rw [barOf_cut_iff ⟨_, readU32_lt _ _, rfl⟩ ⟨_, readU32_lt _ _, rfl⟩]
  constructor
  · rintro ⟨hbar, h6, h7⟩ i hi
    have hi8 : i < 8 := hi
    by_cases hi6 : i < 6
    · exact hbar i hi6
    · obtain rfl | rfl : i = 6 ∨ i = 7 := by omega
      · exact h6
      · exact h7
  · intro h
    exact ⟨fun i hi => h i (hi.trans (by decide)), h 6 (by decide), h 7 (by decide)⟩

end Bars

/-! ## Transactions -/

section Ticks

variable {coefficient : ℚ}

lemma saturatingAdd_zero (a : Int64) : saturatingAdd a 0 = a := by
  have hsum : a.toInt + (0 : Int64).toInt = a.toInt := Int.add_zero _
  rw [saturatingAdd, hsum, Int64.ofIntClamp_toInt]

/-- The condition under which a transaction that is cut off is the transaction: if the price is cut
off, the record shows the price of the one before, the volume is zero if it is cut off, and the
counts from field 2 on are zero as numbers of 32 bits if they are. -/
def TickUnchanged (coefficient : ℚ) (fields : List Field) (cut : ℕ) (body : Bytes) (pos : ℕ)
    (lastPrice : Int64) : Prop :=
  let (v, es) := ((readFields fields body (pos + 2)).1, fieldEnds fields body (pos + 2))
  (cut < es.getD 0 0 →
    ((saturatingAdd lastPrice (v.getD 0 0)).toInt : ℚ) * coefficient =
      (lastPrice.toInt : ℚ) * coefficient) ∧
  (cut < es.getD 1 0 → v.getD 1 0 = 0) ∧
  ∀ i < fields.length, 2 ≤ i → cut < es.getD i 0 → asU32 (v.getD i 0) = 0

/-- What a record of transactions is put together from. -/
def tickAssemble (tick : Text → ℚ → List Int64 → TickData) (coefficient : ℚ) (minutes : ℕ)
    (lastPrice : Int64) (v : List Int64) : TickData :=
  tick (minutesText minutes) ((saturatingAdd lastPrice (v.getD 0 0)).toInt * coefficient) v

lemma parseTick_fieldStep (fields : List Field) (tick : Text → ℚ → List Int64 → TickData) :
    parseTick fields tick coefficient =
      fieldStep readField 2 fields (fun body pos => some (readU16 body pos))
        (tickAssemble tick coefficient)
        (fun lastPrice v => saturatingAdd lastPrice (v.getD 0 0)) := by
  funext body pos lastPrice
  rw [parseTick_eq]
  rfl

lemma headed_ticks {fields : List Field} (hne : fields ≠ []) (hprices : ∀ f ∈ fields, f = .price)
    (body : Bytes) :
    Headed readField 6 2 fields (fun body pos => some (readU16 body pos)) body where
  skip_le := by decide
  nonempty := hne
  head_take {pos cut} hpos hcut := by
    rw [readU16_take hcut, if_pos (by omega)]
  ends_le hpos _ := fieldEnds_le_of_prices hprices hpos

/-- What a field of a price shows of a transaction. -/
lemma price_cut_iff {v lastPrice : Int64} {e : ℕ} :
    ((saturatingAdd lastPrice (if e ≤ cut then v else 0)).toInt : ℚ) * coefficient =
        (saturatingAdd lastPrice v).toInt * coefficient ↔
      (cut < e → ((saturatingAdd lastPrice v).toInt : ℚ) * coefficient =
        lastPrice.toInt * coefficient) := by
  rw [apply_cut_iff fun d => ((saturatingAdd lastPrice d).toInt : ℚ) * coefficient,
    saturatingAdd_zero]

lemma vol_cut_iff {v : Int64} {e : ℕ} :
    (((if e ≤ cut then v else 0 : Int64).toInt : ℤ) : ℚ) = v.toInt ↔ (cut < e → v = 0) := by
  rw [Int.cast_inj, Int64.toInt_inj, value_cut_iff]

lemma count_cut_iff {v : Int64} {e : ℕ} :
    asU32 (if e ≤ cut then v else 0) = asU32 v ↔ (cut < e → asU32 v = 0) :=
  apply_cut_iff asU32

/-- The records of either list that are cut off. -/
lemma ticks_isPrefix_iff {fields : List Field} {tick : Text → ℚ → List Int64 → TickData}
    (hne : fields ≠ []) (hprices : ∀ f ∈ fields, f = .price)
    (htick : ∀ pos lastPrice minutes,
      tickAssemble tick coefficient minutes lastPrice
            (cutValues 0 cut (readFields fields body (pos + 2)).1
              (fieldEnds fields body (pos + 2))) =
          tickAssemble tick coefficient minutes lastPrice (readFields fields body (pos + 2)).1 ↔
        TickUnchanged coefficient fields cut body pos lastPrice)
    (hcut : cut ≤ body.length) {count : ℕ}
    (hwhole : Whole (parseTick fields tick coefficient) body count pos 0) :
    loop cut 6 (parseTick fields tick coefficient (body.take cut)) count pos 0 <+:
        loop body.length 6 (parseTick fields tick coefficient body) count pos 0 ↔
      AtCut (parseTick fields tick coefficient) body cut
        (fun pos lastPrice =>
          cut < pos + 6 ∨ TickUnchanged coefficient fields cut body pos lastPrice)
        count pos 0 := by
  rw [parseTick_fieldStep] at hwhole ⊢
  exact (headed_ticks hne hprices body).loop_take_isPrefix_iff lenient_readField (by decide) hcut
    (fun pos lastPrice minutes _ => htick pos lastPrice minutes) hwhole

/-- In the transaction in which the cut falls, too few bytes are left or it is the same. -/
def TransactionsUnchanged (coefficient : ℚ) (cut : ℕ) (body : Bytes) : Prop :=
  AtCut (parseTick tickFields tickOf coefficient) body cut
    (fun pos lastPrice =>
      cut < pos + 6 ∨ TickUnchanged coefficient tickFields cut body pos lastPrice)
    (readU16 body 0) 2 0

/-- The same for transactions of an earlier day. -/
def HistoryTransactionsUnchanged (coefficient : ℚ) (cut : ℕ) (body : Bytes) : Prop :=
  AtCut (parseTick historyTickFields historyTickOf coefficient) body cut
    (fun pos lastPrice => cut < pos + 6 ∨
      TickUnchanged coefficient historyTickFields cut body pos lastPrice) (readU16 body 0) 6 0

/-- **Transactions that are cut off.**

**Proof sketch.** By `ticks_isPrefix_iff` only the transaction in which the cut falls matters. Price
and volume are compared by `price_cut_iff` and `vol_cut_iff`, and the remaining three fields as
numbers (`count_cut_iff`). -/
theorem transactions_isPrefix_iff (hcut : cut ≤ body.length) (hhead : 2 ≤ cut)
    (hwhole : Whole (parseTick tickFields tickOf coefficient) body (readU16 body 0) 2 0) :
    returned (parseTransactionDataWithCoefficient (body.take cut) coefficient) <+:
        returned (parseTransactionDataWithCoefficient body coefficient) ↔
      TransactionsUnchanged coefficient cut body := by
  have hcount : readU16 (body.take cut) 0 = readU16 body 0 :=
    (readU16_take hcut).trans (if_pos hhead)
  rw [parseTransactionDataWithCoefficient_eq, parseTransactionDataWithCoefficient_eq,
    List.length_take_of_le hcut, hcount, if_neg (by omega), if_neg (by omega)]
  refine ticks_isPrefix_iff (List.cons_ne_nil _ _) (by decide) (fun pos lastPrice minutes => ?_)
    hcut hwhole
  simp only [tickAssemble, tickOf, TickData.mk.injEq, getD_cut, price_cut_iff, vol_cut_iff,
    count_cut_iff, true_and]
  refine and_congr_right fun _ => and_congr_right fun _ => ?_
  constructor
  · rintro ⟨hnum, hbuyorsell, hreserved⟩ i hi hge
    have hi5 : i < 5 := hi
    interval_cases i <;> assumption
  · intro h
    exact ⟨h 2 (by decide) le_rfl, h 3 (by decide) (by decide), h 4 (by decide) (by decide)⟩

/-- **Transactions of an earlier day that are cut off.**

**Proof sketch.** As `transactions_isPrefix_iff`, with two fields behind price and volume, and the
records after six bytes. -/
theorem historyTransactions_isPrefix_iff (hcut : cut ≤ body.length) (hhead : 6 ≤ cut)
    (hwhole : Whole (parseTick historyTickFields historyTickOf coefficient) body (readU16 body 0) 6
      0) :
    returned (parseHistoryTransactionDataWithCoefficient (body.take cut) coefficient) <+:
        returned (parseHistoryTransactionDataWithCoefficient body coefficient) ↔
      HistoryTransactionsUnchanged coefficient cut body := by
  have hcount : readU16 (body.take cut) 0 = readU16 body 0 :=
    (readU16_take hcut).trans (if_pos (by omega))
  rw [parseHistoryTransactionDataWithCoefficient_eq, parseHistoryTransactionDataWithCoefficient_eq,
    List.length_take_of_le hcut, hcount, if_neg (by omega), if_neg (by omega)]
  refine ticks_isPrefix_iff (List.cons_ne_nil _ _) (by decide) (fun pos lastPrice minutes => ?_)
    hcut hwhole
  simp only [tickAssemble, historyTickOf, TickData.mk.injEq, getD_cut, price_cut_iff, vol_cut_iff,
    count_cut_iff, true_and]
  refine and_congr_right fun _ => and_congr_right fun _ => ?_
  constructor
  · rintro ⟨hbuyorsell, hreserved⟩ i hi hge
    have hi4 : i < 4 := hi
    interval_cases i <;> assumption
  · intro h
    exact ⟨h 2 (by decide) le_rfl, h 3 (by decide) (by decide)⟩

end Ticks

/-! ## Minutes of an earlier day -/

section Minutes

variable {coefficient : ℚ}

/-- The condition under which a minute that is cut off is the minute: the price shows no difference
if it is cut off, and the volume is zero if it is. -/
def MinuteUnchanged (coefficient : ℚ) (cut : ℕ) (body : Bytes) (pos : ℕ) (s : MinuteState) : Prop :=
  let (v, es) := ((readFields minuteFields body pos).1, fieldEnds minuteFields body pos)
  (cut < es.getD 0 0 →
    ((saturatingAdd s.preDiffBase (v.getD 0 0)).toInt : ℚ) * coefficient =
      (s.preDiffBase.toInt : ℚ) * coefficient) ∧
  (cut < es.getD 2 0 → v.getD 2 0 = 0)

/-- A minute whose fields behind a cut are read as zero. -/
lemma minuteOf_cut_iff (pos : ℕ) (s : MinuteState) :
    (minuteOf coefficient s (cutValues 0 cut (readFields minuteFields body pos).1
          (fieldEnds minuteFields body pos))).1 =
        (minuteOf coefficient s (readFields minuteFields body pos).1).1 ↔
      MinuteUnchanged coefficient cut body pos s := by
  simp only [minuteOf, MinuteTimePrice.mk.injEq, true_and, getD_cut]
  constructor
  · rintro ⟨hprice, -, hvol⟩
    exact ⟨price_cut_iff.mp hprice, vol_cut_iff.mp hvol⟩
  · rintro ⟨hprice, hvol⟩
    -- the average price is made of the price and the volume
    rw [price_cut_iff.mpr hprice, vol_cut_iff.mpr hvol]
    exact ⟨rfl, rfl, rfl⟩

lemma parseMinute_fieldStep (coefficient : ℚ) :
    parseMinute coefficient =
      fieldStep readField 0 minuteFields (fun _ _ => some ())
        (fun _ s v => (minuteOf coefficient s v).1) (fun s v => (minuteOf coefficient s v).2) := by
  funext body pos s
  rw [parseMinute_eq]
  rfl

lemma headed_minutes (body : Bytes) :
    Headed readField 1 0 minuteFields (fun _ _ => some ()) body where
  skip_le := Nat.zero_le 1
  nonempty := List.cons_ne_nil _ _
  head_take _ _ := rfl
  ends_le hpos _ := fieldEnds_le_of_prices (by decide) hpos

/-- The records of an earlier day are those of the day, up to the end of the bytes. -/
lemma loop_parseHistoryMinute (count pos : ℕ) (s : MinuteState) :
    loop body.length 1 (parseHistoryMinute coefficient body) count pos s =
      loop body.length 1 (parseMinute coefficient body) count pos s :=
  loop_congr (fun pos s h => by rw [parseHistoryMinute_eq h, parseMinute_eq]) count pos s

/-- What the parser of earlier days returns, before it is reversed, of a body that holds some
records and is cut off behind them. -/
lemma parseHistoryMinuteTimeData_take {market : UInt8} {code : Text} {count : ℕ}
    (hcut : cut ≤ body.length)
    (hwhole : Whole (parseMinute (getSecurityCoefficient market code)) body count 6 .initial)
    (hstop : body.length ≤
      stop (parseMinute (getSecurityCoefficient market code)) body count 6 .initial) :
    (returned (parseHistoryMinuteTimeData (body.take cut) market code)).reverse =
      loop cut 1 (parseMinute (getSecurityCoefficient market code) (body.take cut)) count 6
        .initial := by
  have hsize : (body.take cut).length = cut := List.length_take_of_le hcut
  have hsteps : Steps (parseMinute (getSecurityCoefficient market code)) body 1 := by
    rw [parseMinute_fieldStep]
    exact (headed_minutes body).steps lenient_readField
  have hcount : count ≤ body.length := (le_of_whole count hwhole).trans (Nat.sub_le _ _)
  rw [← parseHistoryMinuteTimeData_of_le (body.take cut) market code (hsize.le.trans hcut),
    parseHistoryMinuteTimeDataM_wrapping]
  show (List.reverse _).reverse = _
  rw [List.reverse_reverse, loop_parseHistoryMinute, hsize]
  exact loop_take_of_stop hsteps Nat.one_pos hcut count hwhole hstop hcount

/-- In the minute in which the cut falls, no byte is left or it is the same. -/
def HistoryMinutesUnchanged (coefficient : ℚ) (count cut : ℕ) (body : Bytes) : Prop :=
  AtCut (parseMinute coefficient) body cut
    (fun pos s => cut < pos + 1 ∨ MinuteUnchanged coefficient cut body pos s) count 6 .initial

/-- **Minutes of an earlier day that are cut off.** -/
theorem historyMinutes_isPrefix_iff {market : UInt8} {code : Text} {count : ℕ}
    (hcut : cut ≤ body.length)
    (hwhole : Whole (parseMinute (getSecurityCoefficient market code)) body count 6 .initial)
    (hstop : body.length ≤
      stop (parseMinute (getSecurityCoefficient market code)) body count 6 .initial) :
    (returned (parseHistoryMinuteTimeData (body.take cut) market code)).reverse <+:
        (returned (parseHistoryMinuteTimeData body market code)).reverse ↔
      HistoryMinutesUnchanged (getSecurityCoefficient market code) count cut body := by
  unfold HistoryMinutesUnchanged
  have hall := parseHistoryMinuteTimeData_take le_rfl hwhole hstop
  rw [List.take_length] at hall
  rw [parseHistoryMinuteTimeData_take hcut hwhole hstop, hall]
  rw [parseMinute_fieldStep] at hwhole ⊢
  refine (headed_minutes body).loop_take_isPrefix_iff lenient_readField Nat.one_pos hcut
    (fun pos s hd _ => ?_) hwhole
  exact minuteOf_cut_iff pos s

end Minutes

/-! ## Quotes -/

section Quotes

/-- A cut behind the bytes that are checked is not noticed by what is read before the fields. -/
lemma quoteHead_take (hpos : pos + 56 ≤ cut) (hcut : cut ≤ body.length) :
    quoteHead (body.take cut) pos = quoteHead body pos := by
  have hmarket : (body.take cut).getD pos 0 = body.getD pos 0 := by
    rw [List.getD_eq_getElem?_getD, List.getD_eq_getElem?_getD, List.getElem?_take_of_lt (by omega)]
  have hcode : ((body.take cut).drop (pos + 1)).take 6 = (body.drop (pos + 1)).take 6 := by
    rw [List.drop_take, List.take_take]
    congr 1
    omega
  have hactive : readU16 (body.take cut) (pos + 7) = readU16 body (pos + 7) :=
    (readU16_take hcut).trans (if_pos (by omega))
  rw [quoteHead, quoteHead, hmarket, hcode, hactive]

/-- The fields of a quote that is returned are within the data. -/
lemma quoteEnds_le (h : (readFields quoteFields body pos).2 + 2 ≤ body.length) :
    ∀ e ∈ fieldEnds quoteFields body pos, e ≤ body.length := by
  intro e he
  by_contra hbehind
  have hend : body.length ≤ (readFields quoteFields body pos).2 :=
    lenient_readField.length_le_readFields quoteFields ⟨e, he, not_le.mp hbehind⟩
  omega

/-- Where the fields of a quote end behind a cut, one of them does. -/
lemma readFields_quote_take (hpos : pos ≤ body.length) (hcut : cut ≤ body.length)
    (hlong : (readFields quoteFields body pos).2 + 2 ≤ body.length) :
    readFields quoteFields (body.take cut) pos = readFields quoteFields body pos ∨
      cut < (readFields quoteFields body pos).2 ∧
        cut ≤ (readFields quoteFields (body.take cut) pos).2 := by
  by_cases hall : ∀ e ∈ fieldEnds quoteFields body pos, e ≤ cut
  · exact .inl (lenient_readField.readFields_take_of_le quoteFields hcut hall)
  · push Not at hall
    obtain ⟨e, he, hlt⟩ := hall
    have hle := (lenient_readField.ends_le_readFields quoteFields hpos (quoteEnds_le hlong)).2 e he
    exact .inr ⟨hlt.trans_le hle,
      lenient_readField.cut_le_readFields_take quoteFields hcut ⟨e, he, hlt⟩⟩

/-- A quote that is returned: its last but one number is there. -/
lemma finishQuote_eq_some {head : QuoteHead} {v : List Int64} {e : ℕ} {r : SecurityQuote × ℕ × Unit}
    (h : finishQuote body head v e = some r) : e + 2 ≤ body.length ∧ r.2 = (e + 4, ()) := by
  unfold finishQuote at h
  split at h
  · exact nomatch h
  · rename_i hlong
    obtain rfl := Option.some.inj h
    exact ⟨not_lt.mp hlong, rfl⟩

/-- A cut behind the last but one number is not noticed, but for the last one. -/
lemma finishQuote_take (head : QuoteHead) (v : List Int64) {e : ℕ} (he : e + 4 ≤ cut)
    (hcut : cut ≤ body.length) :
    finishQuote (body.take cut) head v e = finishQuote body head v e := by
  have hactive : readU16 (body.take cut) (e + 2) = readU16 body (e + 2) :=
    (readU16_take hcut).trans (if_pos he)
  have hreversed : LittleEndian.field (body.take cut) e 2 = LittleEndian.field body e 2 :=
    field_take (by omega)
  unfold finishQuote
  rw [List.length_take_of_le hcut, if_neg (by omega), if_neg (by omega), hactive, hreversed]

/-- How quotes are read from a part of the data.

**Proof sketch.** The guard of 56 bytes covers the head of a quote, so the head is read alike. The
fields are read alike or run into the cut (`readFields_quote_take`); a quote that is complete before
the cut is of the first kind, and one that goes beyond it ends, if it is read, no earlier than the
cut. -/
lemma steps_quotes (body : Bytes) :
    Steps (fun body pos (_ : Unit) => parseSecurityQuote body pos) body 56 where
  complete {pos cut s r} hpos hcut hstep hr := by
    simp only [parseSecurityQuote_eq, quoteHead_take hpos hcut] at hstep ⊢
    obtain ⟨hlong, hend⟩ := finishQuote_eq_some hstep
    have hle : (readFields quoteFields body (pos + 9)).2 + 4 ≤ cut := by rwa [hend] at hr
    rcases readFields_quote_take (show pos + 9 ≤ body.length by omega) hcut hlong with
      hfields | ⟨hlt, -⟩
    · rw [hfields, finishQuote_take _ _ hle hcut, hstep]
    · omega
  cut {pos cut s r r'} hpos hcut hstep hr hrlen hstep' := by
    simp only [parseSecurityQuote_eq] at hstep hstep'
    obtain ⟨hlong, hend⟩ := finishQuote_eq_some hstep
    obtain ⟨-, hend'⟩ := finishQuote_eq_some hstep'
    rw [hend] at hr
    rw [hend']
    rcases readFields_quote_take (show pos + 9 ≤ body.length by omega) hcut hlong with
      hfields | ⟨-, hle⟩
    · rw [hfields]
      exact hr.le
    · exact hle.trans (Nat.le_add_right _ 4)

/-- The condition under which a quote that is cut off is not returned, or is the quote: the cut
leaves too few bytes, or the last number is zero. -/
def QuoteUnchanged (cut : ℕ) (body : Bytes) (pos : ℕ) : Prop :=
  cut < pos + 56 ∨ cut < (readFields quoteFields body (pos + 9)).2 + 2 ∨
    readU16 body ((readFields quoteFields body (pos + 9)).2 + 2) = 0

/-- The end of a quote behind whose fields a cut falls.

**Proof sketch.** If the cut falls before the two reserved bytes end, no quote is returned.
Otherwise they are read as they were, and the number behind them is read as zero. -/
lemma finishQuote_cut_iff (head : QuoteHead) (v : List Int64) {e : ℕ} (hcut : cut ≤ body.length)
    (hbefore : cut < e + 4) (hlong : e + 2 ≤ body.length) :
    (∀ r ∈ finishQuote body head v e, ∀ r' ∈ finishQuote (body.take cut) head v e, r'.1 = r.1) ↔
      cut < e + 2 ∨ readU16 body (e + 2) = 0 := by
  have hactive : readU16 (body.take cut) (e + 2) = 0 :=
    (readU16_take hcut).trans (if_neg (by omega))
  unfold finishQuote
  rw [List.length_take_of_le hcut, if_neg (show ¬ body.length < e + 2 by omega), hactive]
  by_cases hshort : cut < e + 2
  · rw [if_pos hshort]
    exact iff_of_true (fun _ _ _ hr' => nomatch hr') (.inl hshort)
  · have hreversed : LittleEndian.field (body.take cut) e 2 = LittleEndian.field body e 2 :=
      field_take (not_lt.mp hshort)
    rw [if_neg hshort, hreversed]
    simp only [Option.mem_some_iff, forall_eq', hshort, false_or]
    exact ⟨fun h => (congrArg SecurityQuote.active2 h).symm, fun h => by rw [h]⟩

/-- **The quote in which a cut falls.**

**Proof sketch.** With fewer than 56 bytes before the cut nothing is read. Otherwise the head is
read alike. If the fields are too, `finishQuote_cut_iff` compares the end of the quote; if they run
into the cut, the quote that is read from the part has no room for its end, so the loop returns
nothing of it. -/
lemma harmlessCut_quote_iff (hcut : cut ≤ body.length) {r : SecurityQuote × ℕ × Unit}
    (hstep : parseSecurityQuote body pos = some r) (hr : cut < r.2.1) :
    HarmlessCut (fun body pos (_ : Unit) => parseSecurityQuote body pos) body 56 cut pos () ↔
      QuoteUnchanged cut body pos := by
  unfold HarmlessCut QuoteUnchanged
  by_cases hfew : cut < pos + 56
  · exact iff_of_true (.inl hfew) (.inl hfew)
  · refine or_congr_right ?_
    have hhead := quoteHead_take (not_lt.mp hfew) hcut
    simp only [parseSecurityQuote_eq, hhead] at hstep ⊢
    obtain ⟨hlong, hend⟩ := finishQuote_eq_some hstep
    rw [hend] at hr
    rcases readFields_quote_take (show pos + 9 ≤ body.length by omega) hcut hlong with
      hfields | ⟨hlt, hle⟩
    · rw [hfields]
      exact finishQuote_cut_iff _ _ hcut hr hlong
    · refine iff_of_true (fun r _ r' hr' => ?_) (.inl (by omega))
      have hshort := (finishQuote_eq_some hr').1
      rw [List.length_take_of_le hcut] at hshort
      omega

/-- In the quote in which the cut falls, too few bytes are left or the last number is zero. -/
def QuotesUnchanged (cut : ℕ) (body : Bytes) : Prop :=
  AtCut (fun body pos (_ : Unit) => parseSecurityQuote body pos) body cut
    (fun pos _ => QuoteUnchanged cut body pos) (readU16 body 2) 4 ()

/-- **Quotes that are cut off.** -/
theorem quotes_isPrefix_iff (hcut : cut ≤ body.length) (hhead : 4 ≤ cut)
    (hwhole : Whole (fun body pos (_ : Unit) => parseSecurityQuote body pos) body (readU16 body 2) 4
      ()) :
    returned (parseSecurityQuotes (body.take cut)) <+: returned (parseSecurityQuotes body) ↔
      QuotesUnchanged cut body := by
  have hcount : readU16 (body.take cut) 2 = readU16 body 2 :=
    (readU16_take hcut).trans (if_pos hhead)
  rw [parseSecurityQuotes_eq, parseSecurityQuotes_eq, List.length_take_of_le hcut, hcount,
    if_neg (by omega), if_neg (by omega)]
  exact (loop_take_isPrefix_iff (steps_quotes body) (by decide) hcut _ hwhole).trans
    (atCut_congr (fun pos _ r hstep hr _ => harmlessCut_quote_iff hcut hstep hr) _ hwhole)

end Quotes

/-! ## All parsers -/

/-- **When a response that is cut off has a prefix of the records.** Take a body that holds as many
records as it declares, or for minutes of an earlier day some records and nothing else, and cut it
off anywhere behind its header. The records that are returned are a prefix of those of the whole
body exactly if the record in which the cut falls is not returned, because too few of its bytes are
left, or is returned as it is: all fields behind the cut are zero, for bars; they make no difference
to what is shown, for transactions and minutes; the last number is zero, for quotes.

**Proof sketch.** A record before the cut is read as in the whole body, and behind the record of the
cut there are no bytes left. So the records are a prefix exactly if that record is not read or does
not change. A field that ends behind the cut is read as zero; what that means for the record depends
on what the parser makes of its fields. -/
theorem truncation_iff (maxValidYear : ℕ) (category market : UInt8) (code : Text) (coefficient : ℚ)
    (hcut : cut ≤ body.length) :
    (2 ≤ cut → Whole (parseKLine maxValidYear category) body (readU16 body 0) 2 0 →
      (returned (parseSecurityBars maxValidYear category (body.take cut)) <+:
          returned (parseSecurityBars maxValidYear category body) ↔
        SecurityBarsUnchanged maxValidYear category cut body)) ∧
    (2 ≤ cut → Whole (parseIndexKLine maxValidYear category) body (readU16 body 0) 2 0 →
      (returned (parseIndexBars maxValidYear category (body.take cut)) <+:
          returned (parseIndexBars maxValidYear category body) ↔
        IndexBarsUnchanged maxValidYear category cut body)) ∧
    (2 ≤ cut → Whole (parseTick tickFields tickOf coefficient) body (readU16 body 0) 2 0 →
      (returned (parseTransactionDataWithCoefficient (body.take cut) coefficient) <+:
          returned (parseTransactionDataWithCoefficient body coefficient) ↔
        TransactionsUnchanged coefficient cut body)) ∧
    (6 ≤ cut → Whole (parseTick historyTickFields historyTickOf coefficient) body (readU16 body 0) 6
        0 →
      (returned (parseHistoryTransactionDataWithCoefficient (body.take cut) coefficient) <+:
          returned (parseHistoryTransactionDataWithCoefficient body coefficient) ↔
        HistoryTransactionsUnchanged coefficient cut body)) ∧
    (4 ≤ cut →
      Whole (fun body pos (_ : Unit) => parseSecurityQuote body pos) body (readU16 body 2) 4 () →
      (returned (parseSecurityQuotes (body.take cut)) <+: returned (parseSecurityQuotes body) ↔
        QuotesUnchanged cut body)) ∧
    ∀ count, Whole (parseMinute (getSecurityCoefficient market code)) body count 6 .initial →
      body.length ≤ stop (parseMinute (getSecurityCoefficient market code)) body count 6 .initial →
      ((returned (parseHistoryMinuteTimeData (body.take cut) market code)).reverse <+:
          (returned (parseHistoryMinuteTimeData body market code)).reverse ↔
        HistoryMinutesUnchanged (getSecurityCoefficient market code) count cut body) :=
  ⟨fun hhead hwhole => securityBars_isPrefix_iff hcut hhead hwhole,
    fun hhead hwhole => indexBars_isPrefix_iff hcut hhead hwhole,
    fun hhead hwhole => transactions_isPrefix_iff hcut hhead hwhole,
    fun hhead hwhole => historyTransactions_isPrefix_iff hcut hhead hwhole,
    fun hhead hwhole => quotes_isPrefix_iff hcut hhead hwhole,
    fun _ hwhole hstop => historyMinutes_isPrefix_iff hcut hwhole hstop⟩

/-- A bar of 2024-01-02 with a volume and an amount. -/
def barBody : Bytes :=
  [1, 0] ++ LittleEndian.toLE 4 20240102 ++ [0x90, 0x9C, 0x01, 0x0A, 0x14, 0x45] ++
    LittleEndian.toLE 4 0x48800000 ++ LittleEndian.toLE 4 0x4C800000

/-- The same of an index, with two counts. -/
def indexBody : Bytes := barBody ++ [7, 0, 3, 0]

/-- A transaction with a number of two bytes. -/
def tickBody : Bytes := [1, 0] ++ [0x3A, 0x02, 0xA8, 0x0F, 0x05, 0x81, 0x01, 0, 0]

/-- A transaction of an earlier day. -/
def historyTickBody : Bytes := [1, 0, 0, 0, 0, 0] ++ [0x3A, 0x02, 0xA8, 0x0F, 0x05, 0x81, 0x01, 0]

/-- A minute of an earlier day. -/
def minuteBody : Bytes := List.replicate 6 0 ++ [0xA8, 0x0F, 0, 0x85, 0x01]

/-- A quote of zeros, but for the last number. -/
def quoteBody : Bytes := [0, 0, 1, 0] ++ List.replicate 54 0 ++ [1, 0]

/-- **A record that nobody sent**: without its last four bytes the bar is returned without an
amount, and without its last three bytes the transaction is returned without a number. -/
theorem truncation_fabricates :
    Whole (parseKLine 2036 4) barBody (readU16 barBody 0) 2 0 ∧
    ¬ returned (parseSecurityBars 2036 4 (barBody.take 18)) <+:
      returned (parseSecurityBars 2036 4 barBody) ∧
    Whole (parseTick tickFields tickOf (1 / 100)) tickBody (readU16 tickBody 0) 2 0 ∧
    ¬ returned (parseTransactionDataWithCoefficient (tickBody.take 8) (1 / 100)) <+:
      returned (parseTransactionDataWithCoefficient tickBody (1 / 100)) := by
  decide +kernel

/-- For these bodies the theorem says what their cuts do. -/
theorem truncation_iff_samples :
    (returned (parseSecurityBars 2036 4 (barBody.take 18)) <+:
        returned (parseSecurityBars 2036 4 barBody) ↔ SecurityBarsUnchanged 2036 4 18 barBody) ∧
    (returned (parseIndexBars 2036 4 (indexBody.take 20)) <+:
        returned (parseIndexBars 2036 4 indexBody) ↔ IndexBarsUnchanged 2036 4 20 indexBody) ∧
    (returned (parseTransactionDataWithCoefficient (tickBody.take 8) (1 / 100)) <+:
        returned (parseTransactionDataWithCoefficient tickBody (1 / 100)) ↔
      TransactionsUnchanged (1 / 100) 8 tickBody) ∧
    (returned (parseHistoryTransactionDataWithCoefficient (historyTickBody.take 12) (1 / 100)) <+:
        returned (parseHistoryTransactionDataWithCoefficient historyTickBody (1 / 100)) ↔
      HistoryTransactionsUnchanged (1 / 100) 12 historyTickBody) ∧
    (returned (parseSecurityQuotes (quoteBody.take 58)) <+:
        returned (parseSecurityQuotes quoteBody) ↔
      QuotesUnchanged 58 quoteBody) ∧
    ((returned (parseHistoryMinuteTimeData (minuteBody.take 10) 0 [])).reverse <+:
        (returned (parseHistoryMinuteTimeData minuteBody 0 [])).reverse ↔
      HistoryMinutesUnchanged (getSecurityCoefficient 0 []) 1 10 minuteBody) :=
  ⟨(truncation_iff 2036 4 0 [] 1 (show 18 ≤ barBody.length by decide)).1 (by decide)
      (by decide +kernel),
    (truncation_iff 2036 4 0 [] 1 (show 20 ≤ indexBody.length by decide)).2.1 (by decide)
      (by decide +kernel),
    (truncation_iff 2036 4 0 [] (1 / 100) (show 8 ≤ tickBody.length by decide)).2.2.1 (by decide)
      (by decide +kernel),
    (truncation_iff 2036 4 0 [] (1 / 100) (show 12 ≤ historyTickBody.length by decide)).2.2.2.1
      (by decide) (by decide +kernel),
    (truncation_iff 2036 4 0 [] 1 (show 58 ≤ quoteBody.length by decide)).2.2.2.2.1 (by decide)
      (by decide +kernel),
    (truncation_iff 2036 4 0 [] 1 (show 10 ≤ minuteBody.length by decide)).2.2.2.2.2 1
      (by decide +kernel) (by decide +kernel)⟩

end Tdxrs
