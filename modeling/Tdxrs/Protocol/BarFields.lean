import Tdxrs.Protocol.Fields

set_option relaxedAutoImplicit false
set_option autoImplicit false

/-!
# The fields of K-line responses

A record of a K-line response is a date and six fields: four prices, of which the first is the
difference to the close of the record before and the others are differences to the first, and the
words of volume and amount. Those of an index have two counts more.

## Main definitions

* `Tdxrs.barFields`, `Tdxrs.indexFields` — the fields of a record.
* `Tdxrs.DateRefused` — the date of a record ends the list.
* `Tdxrs.parseSecurityBarsM`, `Tdxrs.parseIndexBarsM` — the parsers, on a machine.
* `Tdxrs.BarsFit` — the prices of a list and their sums are in range.

## Main results

* `Tdxrs.parseKLine_eq` — what a record is.
* `Tdxrs.runs_parseSecurityBars`, `Tdxrs.runs_parseIndexBars` — when the parsers do not panic.
-/

namespace Tdxrs

/-! ## Records as fields -/

/-- The fields of a bar: open, close, high, low, volume and amount. -/
def barFields : List Field := [.price, .price, .price, .price, .u32, .u32]

/-- The fields of an index bar. -/
def indexFields : List Field := barFields ++ [.u16, .u16]

/-- The date of a record is not valid, which ends the list. -/
def DateRefused (maxValidYear : ℕ) (category : UInt8) (body : Bytes) (pos : ℕ) : Prop :=
  let date := getDatetime category body pos
  date.1 < 1980 ∨ maxValidYear < date.1 ∨ ¬(1 ≤ date.2.1 ∧ date.2.1 ≤ 12) ∨
    ¬(1 ≤ date.2.2.1 ∧ date.2.2.1 ≤ 31)

instance (maxValidYear : ℕ) (category : UInt8) (body : Bytes) (pos : ℕ) :
    Decidable (DateRefused maxValidYear category body pos) :=
  inferInstanceAs (Decidable (_ ∨ _ ∨ _ ∨ _))

/-- A bar from its date and its fields. -/
def barOf (category : UInt8) (date : ℕ × ℕ × ℕ × ℕ × ℕ × ℕ) (preDiffBase : Int64)
    (v : List Int64) : SecurityBar :=
  let (year, month, day, hour, minute, _) := date
  let accumulated := preDiffBase + v.getD 0 0
  { «open» := thousandths accumulated
    close := thousandths (accumulated + v.getD 1 0)
    high := thousandths (accumulated + v.getD 2 0)
    low := thousandths (accumulated + v.getD 3 0)
    vol := getVolume (word (v.getD 4 0))
    amount := getVolume (word (v.getD 5 0))
    year, month, day, hour, minute
    datetime := formatDatetime category year month day hour minute }

/-- A date takes four bytes. -/
lemma getDatetime_pos (category : UInt8) (body : Bytes) (pos : ℕ) :
    (getDatetime category body pos).2.2.2.2.2 = pos + 4 := by
  unfold getDatetime
  split <;> rfl

variable {maxValidYear : ℕ} {category : UInt8} {body : Bytes}

/-- **A record** is put together from its date and its fields. -/
lemma parseKLine_eq (pos : ℕ) (preDiffBase : Int64) :
    parseKLine maxValidYear category body pos preDiffBase =
      if DateRefused maxValidYear category body pos then none
      else some (barOf category (getDatetime category body pos) preDiffBase
          (readFields barFields body (pos + 4)).1,
        (readFields barFields body (pos + 4)).2,
        preDiffBase + (readFields barFields body (pos + 4)).1.getD 0 0 +
          (readFields barFields body (pos + 4)).1.getD 1 0) := by
  have hpos := getDatetime_pos category body pos
  unfold parseKLine
  rcases hdate : getDatetime category body pos with ⟨year, month, day, hour, minute, p⟩
  obtain rfl : p = pos + 4 := by rw [← hpos, hdate]
  have hrefused : DateRefused maxValidYear category body pos ↔
      year < 1980 ∨ maxValidYear < year ∨ ¬(1 ≤ month ∧ month ≤ 12) ∨ ¬(1 ≤ day ∧ day ≤ 31) := by
    rw [DateRefused, hdate]
  refine if_congr hrefused.symm rfl ?_
  simp only [barOf, barFields, readFields, Records.readFields, readField,
    List.getD_cons_zero, List.getD_cons_succ, word_ofNat (readU32_lt body _)]

/-! ## The parsers on a machine -/

section

variable {m : Type → Type} [Monad m] (M : Machine m)

/-- The part of a record that security and index bars share, on a machine. The sum that is the close
is also what the next record is relative to. -/
def parseKLineM (maxValidYear : ℕ) (category : UInt8) (body : Bytes) (pos : ℕ)
    (preDiffBase : Int64) : m (Option (SecurityBar × ℕ × Int64)) :=
  let (year, month, day, hour, minute, pos) := getDatetime category body pos
  if year < 1980 ∨ maxValidYear < year ∨ ¬(1 ≤ month ∧ month ≤ 12) ∨ ¬(1 ≤ day ∧ day ≤ 31) then
    pure none
  else do
    let (openDiff, pos) ← getPriceM M body pos
    let accumulated ← M.add preDiffBase openDiff
    let (closeDiff, pos) ← getPriceM M body pos
    let close ← M.add accumulated closeDiff
    let (highDiff, pos) ← getPriceM M body pos
    let high ← M.add accumulated highDiff
    let (lowDiff, pos) ← getPriceM M body pos
    let low ← M.add accumulated lowDiff
    let vol ← getVolumeM M (readU32 body pos)
    let amount ← getVolumeM M (readU32 body (pos + 4))
    pure (some
      ({ «open» := thousandths accumulated
         close := thousandths close
         high := thousandths high
         low := thousandths low
         vol, amount, year, month, day, hour, minute
         datetime := formatDatetime category year month day hour minute },
        pos + 8, close))

/-- Parses a security K-line response, on a machine. -/
def parseSecurityBarsM (maxValidYear : ℕ) (category : UInt8) (body : Bytes) :
    m (Except TdxError (List SecurityBar)) :=
  if body.length < 2 then pure (.error (ErrorCode.responseLengthMismatch.err "body too short"))
  else do
    let result ← Records.loopM body.length 16 (parseKLineM M maxValidYear category body)
      (readU16 body 0) 2 0
    pure (.ok result)

/-- The two counts at the end of the record of an index. -/
def withCounts (body : Bytes) (r : SecurityBar × ℕ × Int64) : IndexBar × ℕ × Int64 :=
  ({ r.1 with upCount := readU16 body r.2.1, downCount := readU16 body (r.2.1 + 2) }, r.2.1 + 4,
    r.2.2)

/-- A record of an index, on a machine. -/
def parseIndexKLineM (maxValidYear : ℕ) (category : UInt8) (body : Bytes) (pos : ℕ)
    (preDiffBase : Int64) : m (Option (IndexBar × ℕ × Int64)) := do
  let r ← parseKLineM M maxValidYear category body pos preDiffBase
  pure (r.map (withCounts body))

/-- Parses an index K-line response, on a machine. -/
def parseIndexBarsM (maxValidYear : ℕ) (category : UInt8) (body : Bytes) :
    m (Except TdxError (List IndexBar)) :=
  if body.length < 2 then pure (.error (ErrorCode.responseLengthMismatch.err "body too short"))
  else do
    let result ← Records.loopM body.length 24 (parseIndexKLineM M maxValidYear category body)
      (readU16 body 0) 2 0
    pure (.ok result)

end

/-- A record of an index. -/
def parseIndexKLine (maxValidYear : ℕ) (category : UInt8) (body : Bytes) (pos : ℕ)
    (preDiffBase : Int64) : Option (IndexBar × ℕ × Int64) :=
  (parseKLine maxValidYear category body pos preDiffBase).map (withCounts body)

/-- What the parser of security bars returns.

**Proof sketch.** By induction on the count, the loop of the parser is that of records. -/
lemma parseSecurityBars_eq (maxValidYear : ℕ) (category : UInt8) (body : Bytes) :
    parseSecurityBars maxValidYear category body =
      if body.length < 2 then .error (ErrorCode.responseLengthMismatch.err "body too short")
      else .ok (Records.loop body.length 16 (parseKLine maxValidYear category body)
        (readU16 body 0) 2 0) := by
  have hloop (count : ℕ) : ∀ (pos : ℕ) (base : Int64),
      parseSecurityBarsLoop maxValidYear category body count pos base =
        Records.loop body.length 16 (parseKLine maxValidYear category body) count pos base := by
    induction count with
    | zero => exact fun _ _ => rfl
    | succ count ih =>
      intro pos base
      rw [parseSecurityBarsLoop, Records.loop]
      rcases parseKLine maxValidYear category body pos base with _ | ⟨bar, pos', base'⟩
      · rfl
      · simp only [ih]
  rw [parseSecurityBars, hloop]

/-- What the parser of index bars returns.

**Proof sketch.** Induction on the count: the loop of the parser stops where `Records.loop` does,
and `withCounts` only adds the two counters to the bar that `parseKLine` returns. -/
lemma parseIndexBars_eq (maxValidYear : ℕ) (category : UInt8) (body : Bytes) :
    parseIndexBars maxValidYear category body =
      if body.length < 2 then .error (ErrorCode.responseLengthMismatch.err "body too short")
      else .ok (Records.loop body.length 24 (parseIndexKLine maxValidYear category body)
        (readU16 body 0) 2 0) := by
  have hloop (count : ℕ) : ∀ (pos : ℕ) (base : Int64),
      parseIndexBarsLoop maxValidYear category body count pos base =
        Records.loop body.length 24 (parseIndexKLine maxValidYear category body) count pos
          base := by
    induction count with
    | zero => exact fun _ _ => rfl
    | succ count ih =>
      intro pos base
      rw [parseIndexBarsLoop, Records.loop, parseIndexKLine]
      rcases parseKLine maxValidYear category body pos base with _ | ⟨bar, pos', base'⟩
      · rfl
      · simp only [Option.map_some, withCounts, ih]
  rw [parseIndexBars, hloop]

/-! ## When the parsers do not panic -/

/-- The prices of a bar whose fields begin at `pos`, and their sums with what they are relative to,
are in range. -/
def BarFits (body : Bytes) (pos : ℕ) (base : ℤ) : Prop :=
  let v := (readFields barFields body pos).1
  FieldsFit barFields body pos ∧ FitsI64 (base + (v.getD 0 0).toInt) ∧
    ∀ diff ∈ [v.getD 1 0, v.getD 2 0, v.getD 3 0], FitsI64 (base + (v.getD 0 0).toInt + diff.toInt)

/-- The prices of a list of bars and their sums are in range. Each record takes `tail` bytes more
than the bar. -/
def BarsFit (maxValidYear : ℕ) (category : UInt8) (body : Bytes) (guard tail : ℕ) :
    ℕ → ℕ → ℤ → Prop
  | 0, _, _ => True
  | count + 1, pos, base =>
    body.length < pos + guard ∨
      (¬ DateRefused maxValidYear category body pos →
        BarFits body (pos + 4) base ∧
          let (v, e) := readFields barFields body (pos + 4)
          BarsFit maxValidYear category body guard tail count (e + tail)
            (base + (v.getD 0 0).toInt + (v.getD 1 0).toInt))

/-- A sum that is in range is exact. -/
lemma toInt_add_of_fits {a b : Int64} (h : FitsI64 (a.toInt + b.toInt)) :
    (a + b).toInt = a.toInt + b.toInt := by
  rw [Int64.toInt_add]
  exact Int.bmod_eq_of_le h.1 h.2

/-- **When a bar does not panic.**

**Proof sketch.** A refused date returns before anything can panic. Otherwise the body is a chain of
four prices and four additions, each of which runs exactly if its own condition holds
(`runs_getPrice`, `runs_add`); the conditions name the sums computed so far, and `toInt_add_of_fits`
turns these into the sums of `BarFits` and back. -/
lemma runs_parseKLine (pos : ℕ) (preDiffBase : Int64) :
    Checked.Runs (parseKLineM Machine.checked maxValidYear category body pos preDiffBase)
      (parseKLine maxValidYear category body pos preDiffBase)
      (¬ DateRefused maxValidYear category body pos →
        BarFits body (pos + 4) preDiffBase.toInt) := by
  have hpos := getDatetime_pos category body pos
  unfold parseKLineM parseKLine
  rcases hdate : getDatetime category body pos with ⟨year, month, day, hour, minute, p⟩
  obtain rfl : p = pos + 4 := by rw [← hpos, hdate]
  have hrefused : DateRefused maxValidYear category body pos ↔
      year < 1980 ∨ maxValidYear < year ∨ ¬(1 ≤ month ∧ month ≤ 12) ∨ ¬(1 ≤ day ∧ day ≤ 31) := by
    rw [DateRefused, hdate]
  rw [hrefused]
  refine Checked.Runs.of_not ?_
  simp only [getVolumeM_eq inRange_checked (readU32_lt body _), pure_bind]
  refine ((runs_getPrice _ _).bind <| (runs_add _ _).bind <| (runs_getPrice _ _).bind <|
    (runs_add _ _).bind <| (runs_getPrice _ _).bind <| (runs_add _ _).bind <|
    (runs_getPrice _ _).bind <| (runs_add _ _).map _).of_iff ?_
  simp only [BarFits, FieldsFit, barFields, readFields, Records.readFields, readField,
    List.getD_cons_zero, List.getD_cons_succ, List.forall_mem_cons, List.not_mem_nil, false_imp_iff,
    forall_const, reduceCtorEq, and_true]
  constructor
  · rintro ⟨h1, hsum, h2, hclose, h3, hhigh, h4, hlow⟩
    rw [toInt_add_of_fits hsum] at hclose hhigh hlow
    exact ⟨⟨h1, h2, h3, h4⟩, hsum, hclose, hhigh, hlow⟩
  · rintro ⟨⟨h1, h2, h3, h4⟩, hsum, hclose, hhigh, hlow⟩
    rw [← toInt_add_of_fits hsum] at hclose hhigh hlow
    exact ⟨h1, hsum, h2, hclose, h3, hhigh, h4, hlow⟩

/-- None of the records panics, in terms of a loop that reads them.

**Proof sketch.** Induction on the count. A refused date ends the loop and panics in neither form.
Otherwise the step reads the bar and hands on its close as the next base, and since the sums fit,
the base is the same number in 64 bits and in the integers (`toInt_add_of_fits`). -/
lemma each_barFits_iff {β : Type} {guard tail : ℕ} {step : ℕ → Int64 → Option (β × ℕ × Int64)}
    (hnone : ∀ pos base, DateRefused maxValidYear category body pos → step pos base = none)
    (hsome : ∀ pos base, ¬ DateRefused maxValidYear category body pos → ∃ b, step pos base =
      some (b, (readFields barFields body (pos + 4)).2 + tail,
        base + (readFields barFields body (pos + 4)).1.getD 0 0 +
          (readFields barFields body (pos + 4)).1.getD 1 0)) (count : ℕ) :
    ∀ (pos : ℕ) (base : Int64),
      Records.Each body.length guard step
          (fun pos base => ¬ DateRefused maxValidYear category body pos →
            BarFits body (pos + 4) base.toInt) count pos base ↔
        BarsFit maxValidYear category body guard tail count pos base.toInt := by
  induction count with
  | zero => exact fun _ _ => Iff.rfl
  | succ count ih =>
    intro pos base
    rw [Records.Each, BarsFit]
    refine or_congr_right ?_
    by_cases hdate : DateRefused maxValidYear category body pos
    · rw [hnone pos base hdate]
      exact iff_of_true ⟨fun h => absurd hdate h, fun r hr => absurd hr (Option.not_mem_none r)⟩
        fun h => absurd hdate h
    · obtain ⟨b, hb⟩ := hsome pos base hdate
      simp only [hb, hdate, not_false_eq_true, true_imp_iff, Option.mem_some_iff, forall_eq', ih]
      refine and_congr_right fun hfits => ?_
      have hopen := toInt_add_of_fits hfits.2.1
      have hclose := hfits.2.2 _ List.mem_cons_self
      rw [← hopen] at hclose
      rw [toInt_add_of_fits hclose, hopen]

/-- **When the parser of security bars does not panic.** -/
theorem runs_parseSecurityBars (maxValidYear : ℕ) (category : UInt8) (body : Bytes) :
    Checked.Runs (parseSecurityBarsM Machine.checked maxValidYear category body)
      (parseSecurityBars maxValidYear category body)
      (¬ body.length < 2 → BarsFit maxValidYear category body 16 0 (readU16 body 0) 2 0) := by
  rw [parseSecurityBars_eq]
  refine Checked.Runs.of_not (Checked.Runs.map (Checked.Runs.of_iff
    (Records.runs_loopM (fun pos base _ => runs_parseKLine pos base) _ _ _) ?_) Except.ok)
  refine each_barFits_iff (fun pos base h => ?_) (fun pos base h => ?_) _ _ _
  · rw [parseKLine_eq, if_pos h]
  · exact ⟨_, (parseKLine_eq pos base).trans (if_neg h)⟩

/-- **When the parser of index bars does not panic.** -/
theorem runs_parseIndexBars (maxValidYear : ℕ) (category : UInt8) (body : Bytes) :
    Checked.Runs (parseIndexBarsM Machine.checked maxValidYear category body)
      (parseIndexBars maxValidYear category body)
      (¬ body.length < 2 → BarsFit maxValidYear category body 24 4 (readU16 body 0) 2 0) := by
  rw [parseIndexBars_eq]
  refine Checked.Runs.of_not (Checked.Runs.map (Checked.Runs.of_iff
    (Records.runs_loopM (fun pos base _ => (runs_parseKLine pos base).map _) _ _ _) ?_) Except.ok)
  refine each_barFits_iff (fun pos base h => ?_) (fun pos base h => ?_) _ _ _
  · rw [parseKLine_eq, if_pos h]
    rfl
  · rw [parseKLine_eq, if_neg h]
    exact ⟨_, rfl⟩

end Tdxrs
