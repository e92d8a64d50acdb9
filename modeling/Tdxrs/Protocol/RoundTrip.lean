import Tdxrs.Protocol.FieldEncoding

set_option relaxedAutoImplicit false
set_option autoImplicit false

/-!
# The round trip of K-lines

The encoder of `Tdxrs.encodeSecurityBars` is the server's side of a K-line response. The parser
reads back what was encoded, whichever way the client was built: the sums and differences of
prices below `2 ^ 55` thousandths do not leave 64 bits, so that the parser with overflow checks does
not panic on such a response.

A record of an index has two counts more and takes at least 20 bytes, but `parse_index_bars` asks
for 24 before it reads one. Before the last record there are always enough bytes, those of the next
record among them; the last one is read only if its four prices take eight bytes or more.

## Main definitions

* `Tdxrs.kLineFormat`, `Tdxrs.indexFormat` — the records of both kinds of response.
* `Tdxrs.IndexRecord`, `Tdxrs.encodeIndexBars` — the bars of an index as they travel.
* `Tdxrs.LastRoomy` — the prices of the last record take eight bytes or more.
* `Tdxrs.barsRead` — the bars of an index response that are read.

## Main results

* `Tdxrs.parseSecurityBars_encode`, `Tdxrs.security_bars_round_trip` — the parser returns the bars
  that were encoded.
* `Tdxrs.parseIndexBarsM_encode`, `Tdxrs.barsRead_eq_iff` — what the parser of index bars returns.
* `Tdxrs.index_bars_round_trip_iff` — when it returns the bars that were encoded.
-/

namespace Tdxrs

variable {m : Type → Type} [Monad m] [LawfulMonad m] {M : Machine m} {maxValidYear : ℕ}
  {category : UInt8}

/-! ## Security bars -/

/-- The records of a security: the close of one is what the next is relative to. -/
def kLineFormat (category : UInt8) : Records.Format ℤ KLineRecord UInt8 where
  write prev r := r.encode category prev
  next _ r := r.close

lemma encodeRecords_eq_bytes (rs : List KLineRecord) :
    ∀ prev : ℤ, encodeRecords category prev rs = (kLineFormat category).bytes prev rs := by
  induction rs with
  | nil => exact fun _ => rfl
  | cons r rs ih =>
    intro prev
    rw [encodeRecords, ih]
    rfl

/-- A record that the format can carry, after a close that it can carry. -/
def KLineRecord.Follows (maxValidYear : ℕ) (category : UInt8) (prev : ℤ) (r : KLineRecord) : Prop :=
  prev.natAbs < 2 ^ 55 ∧ r.Encodable maxValidYear category

/-- Every record follows a close that the format can carry: that of the record before it. -/
lemma along_follows {rs : List KLineRecord} (hrs : ∀ r ∈ rs, r.Encodable maxValidYear category) :
    ∀ {prev : ℤ}, prev.natAbs < 2 ^ 55 →
      (kLineFormat category).Along (KLineRecord.Follows maxValidYear category) prev rs := by
  induction rs with
  | nil => exact fun _ => trivial
  | cons r rs ih =>
    intro prev hprev
    obtain ⟨hr, hrs⟩ := List.forall_mem_cons.mp hrs
    exact ⟨⟨hprev, hr⟩, ih hrs hr.prices.2.1⟩

/-- What a parser of security bars returns of an encoded list, on every machine.

**Proof sketch.** Behind the count the loop reads the records back one by one
(`Records.Format.loopM_bytes` with `parseKLineM_of_drop`); what a record hands on to the next is its
close, from which the next open is counted. A record has 16 bytes or more, so the guard stops the
loop at none of them. -/
lemma parseSecurityBarsM_encode (hM : M.InRange) {rs : List KLineRecord}
    (hlen : rs.length < 2 ^ 16) (hrs : ∀ r ∈ rs, r.Encodable maxValidYear category) :
    parseSecurityBarsM M maxValidYear category (encodeSecurityBars category rs) =
      pure (.ok (rs.map (KLineRecord.bar category))) := by
  have hzero : (encodeSecurityBars category rs).drop 0 =
      LittleEndian.toLE 2 rs.length ++ encodeRecords category 0 rs := rfl
  have hrecords := drop_add hzero
  rw [Nat.zero_add, LittleEndian.length_toLE, encodeRecords_eq_bytes,
    ← List.append_nil ((kLineFormat category).bytes 0 rs)] at hrecords
  have hnonempty : ¬(encodeSecurityBars category rs).length < 2 := by
    rw [encodeSecurityBars, List.length_append, LittleEndian.length_toLE]
    omega
  have hreads : (kLineFormat category).Reads (fun _ r => r.bar category)
      (KLineRecord.Follows maxValidYear category) Int64.ofInt (encodeSecurityBars category rs)
      (parseKLineM M maxValidYear category (encodeSecurityBars category rs)) :=
    fun _ _ _ _ hr hdrop => parseKLineM_of_drop hM hr.2 hr.1 hdrop
  have hloop := Records.Format.loopM_bytes hreads (show 0 < 16 by decide)
    (fun prev r _ => r.length_encode_ge category prev) 0 (.inl rfl) (along_follows hrs (by decide))
    hrecords
  rw [parseSecurityBarsM, if_neg hnonempty, readU16_of_drop hzero hlen]
  refine (congrArg (· >>= _) hloop).trans ?_
  rw [pure_bind, Records.Format.values_eq_map]

/-- **The parser reads the records of a response back**, up to 65535 of them. -/
theorem parseSecurityBars_encode {rs : List KLineRecord} (hlen : rs.length < 2 ^ 16)
    (hrs : ∀ r ∈ rs, r.Encodable maxValidYear category) :
    parseSecurityBars maxValidYear category (encodeSecurityBars category rs) =
      .ok (rs.map (KLineRecord.bar category)) :=
  (runs_parseSecurityBars maxValidYear category _).eq_of_ok
    (parseSecurityBarsM_encode inRange_checked hlen hrs)

/-- **The round trip of security K-lines.** Up to 65535 bars with prices below `2 ^ 55` thousandths
and dates that the layout of the category and the check on dates admit, encoded for any category,
are what the parser returns, with and without overflow checks.

**Proof sketch.** `parseSecurityBarsM_encode` for a machine that wraps and for one that checks. -/
theorem security_bars_round_trip (maxValidYear : ℕ) (category : UInt8) (rs : List KLineRecord)
    (hlen : rs.length ≤ 65535) (hrs : ∀ r ∈ rs, r.Encodable maxValidYear category) :
    parseSecurityBars maxValidYear category (encodeSecurityBars category rs) =
        .ok (rs.map (KLineRecord.bar category)) ∧
      parseSecurityBarsM Machine.checked maxValidYear category (encodeSecurityBars category rs) =
        .ok (.ok (rs.map (KLineRecord.bar category))) :=
  ⟨parseSecurityBars_encode (by omega) hrs,
    parseSecurityBarsM_encode inRange_checked (by omega) hrs⟩

/-- Two bars of five minutes, of which the second has a negative low, as happens after an
adjustment. -/
theorem security_bars_round_trip_minutes :
    let rs : List KLineRecord :=
      [⟨2024, 3, 29, 14, 55, 10000, 10050, 10100, 9990, 4096, 8192⟩,
        ⟨2024, 3, 29, 15, 0, 10050, 10020, 20000000, -5, 0, 4294967295⟩]
    parseSecurityBars 2036 0 (encodeSecurityBars 0 rs) = .ok (rs.map (KLineRecord.bar 0)) ∧
      parseSecurityBarsM Machine.checked 2036 0 (encodeSecurityBars 0 rs) =
        .ok (.ok (rs.map (KLineRecord.bar 0))) := by
  refine security_bars_round_trip 2036 0 _ (by decide) fun r hr => ?_
  simp only [List.mem_cons, List.not_mem_nil, or_false] at hr
  rcases hr with rfl | rfl
  · exact ⟨by decide, by decide, by decide, by simp [KLineRecord.FitsLayout, isMinuteCategory],
      by decide, by decide⟩
  · exact ⟨by decide, by decide, by decide, by simp [KLineRecord.FitsLayout, isMinuteCategory],
      by decide, by decide⟩

/-! ## Index bars -/

/-- A bar of an index as it travels. -/
structure IndexRecord extends KLineRecord where
  upCount : ℕ
  downCount : ℕ
deriving DecidableEq

namespace IndexRecord

/-- The records that the format can carry and the parser accepts. -/
structure Encodable (maxValidYear : ℕ) (category : UInt8) (r : IndexRecord) : Prop where
  record : r.toKLineRecord.Encodable maxValidYear category
  counts : r.upCount < 2 ^ 16 ∧ r.downCount < 2 ^ 16

/-- The bar of a record. -/
def bar (category : UInt8) (r : IndexRecord) : IndexBar :=
  { r.toKLineRecord.bar category with upCount := r.upCount, downCount := r.downCount }

/-- A record after one that closed at `prev`. -/
def encode (category : UInt8) (prev : ℤ) (r : IndexRecord) : Bytes :=
  r.toKLineRecord.encode category prev ++
    (LittleEndian.toLE 2 r.upCount ++ LittleEndian.toLE 2 r.downCount)

/-- The bytes that the four prices of a record take. -/
def priceBytes (prev : ℤ) (r : IndexRecord) : ℕ :=
  (Varint.put (r.open - prev)).length + (Varint.put (r.close - r.open)).length +
    (Varint.put (r.high - r.open)).length + (Varint.put (r.low - r.open)).length

/-- A record takes 16 bytes beside its prices. -/
lemma length_encode (category : UInt8) (prev : ℤ) (r : IndexRecord) :
    (r.encode category prev).length = 16 + r.priceBytes prev := by
  simp only [encode, KLineRecord.encode, List.length_append, KLineRecord.length_encodeDate,
    LittleEndian.length_toLE, priceBytes]
  omega

/-- Every price takes at least one byte. -/
lemma four_le_priceBytes (prev : ℤ) (r : IndexRecord) : 4 ≤ r.priceBytes prev := by
  have h1 := Varint.length_put_pos (r.open - prev)
  have h2 := Varint.length_put_pos (r.close - r.open)
  have h3 := Varint.length_put_pos (r.high - r.open)
  have h4 := Varint.length_put_pos (r.low - r.open)
  rw [priceBytes]
  omega

/-- A record that the format can carry, after a close that it can carry. -/
def Follows (maxValidYear : ℕ) (category : UInt8) (prev : ℤ) (r : IndexRecord) : Prop :=
  prev.natAbs < 2 ^ 55 ∧ r.Encodable maxValidYear category

end IndexRecord

/-- The records of an index. -/
def indexFormat (category : UInt8) : Records.Format ℤ IndexRecord UInt8 where
  write prev r := r.encode category prev
  next _ r := r.close

/-- The body of an index K-line response. -/
def encodeIndexBars (category : UInt8) (rs : List IndexRecord) : Bytes :=
  LittleEndian.toLE 2 rs.length ++ (indexFormat category).bytes 0 rs

/-- The four prices of the last record take eight bytes or more, after one that closed at `prev`. -/
def LastRoomy : ℤ → List IndexRecord → Prop
  | _, [] => True
  | prev, [r] => 8 ≤ r.priceBytes prev
  | _, r :: r' :: rs => LastRoomy r.close (r' :: rs)

instance decidableLastRoomy : (prev : ℤ) → (rs : List IndexRecord) → Decidable (LastRoomy prev rs)
  | _, [] => isTrue trivial
  | prev, [r] => inferInstanceAs (Decidable (8 ≤ r.priceBytes prev))
  | _, r :: r' :: rs => decidableLastRoomy r.close (r' :: rs)

/-- What the last record is relative to. -/
lemma lastRoomy_concat (category : UInt8) (rs : List IndexRecord) (r : IndexRecord) : ∀ prev : ℤ,
    LastRoomy prev (rs ++ [r]) ↔ 8 ≤ r.priceBytes (rs.foldl (indexFormat category).next prev) := by
  induction rs with
  | nil => exact fun _ => Iff.rfl
  | cons r' rs ih =>
    intro prev
    rw [List.foldl_cons, ← ih]
    cases rs <;> rfl

/-- It does where the prices of every record do, whatever they are relative to. -/
lemma lastRoomy_of_forall {rs : List IndexRecord} (h : ∀ r ∈ rs, ∀ prev, 8 ≤ r.priceBytes prev)
    {prev : ℤ} : LastRoomy prev rs := by
  rcases rs.eq_nil_or_concat' with rfl | ⟨init, last, rfl⟩
  · exact trivial
  · exact (lastRoomy_concat 0 init last prev).mpr (h last (by simp) _)

/-- Every record follows a close that the format can carry: that of the record before it. -/
lemma along_indexFollows {rs : List IndexRecord}
    (hrs : ∀ r ∈ rs, r.Encodable maxValidYear category) : ∀ {prev : ℤ}, prev.natAbs < 2 ^ 55 →
      (indexFormat category).Along (IndexRecord.Follows maxValidYear category) prev rs := by
  induction rs with
  | nil => exact fun _ => trivial
  | cons r rs ih =>
    intro prev hprev
    obtain ⟨hr, hrs⟩ := List.forall_mem_cons.mp hrs
    exact ⟨⟨hprev, hr⟩, ih hrs hr.record.prices.2.1⟩

/-- A record is read back on every machine. -/
lemma reads_index (hM : M.InRange) (body : Bytes) :
    (indexFormat category).Reads (fun _ r => r.bar category)
      (IndexRecord.Follows maxValidYear category) Int64.ofInt body
      (parseIndexKLineM M maxValidYear category body) := by
  rintro pos prev r rest ⟨hprev, hr⟩ hdrop
  simp only [indexFormat, IndexRecord.encode, List.append_assoc] at hdrop
  have hup := drop_add hdrop
  have hdown := drop_add hup
  rw [LittleEndian.length_toLE] at hdown
  rw [parseIndexKLineM, parseKLineM_of_drop hM hr.record hprev hdrop, pure_bind, Option.map_some,
    withCounts, readU16_of_drop hup hr.counts.1, readU16_of_drop hdown hr.counts.2]
  refine congrArg pure (congrArg some (Prod.ext rfl (Prod.ext ?_ rfl)))
  simp only [indexFormat, IndexRecord.encode, List.length_append, LittleEndian.length_toLE]
  omega

/-- The records of an index are read back, all but the last in any case, and the last one if it is
long enough.

**Proof sketch.** A record takes 20 bytes or more. Before another record the check for 24 bytes is
passed, so the loop comes to the last record, of which it reads the bar or nothing. -/
lemma loopM_indexBytes (hM : M.InRange) {body : Bytes} {rs : List IndexRecord}
    (hrs : ∀ r ∈ rs, r.Encodable maxValidYear category)
    (hbody : body.drop 2 = (indexFormat category).bytes 0 rs) :
    Records.loopM body.length 24 (parseIndexKLineM M maxValidYear category body) rs.length 2
        (Int64.ofInt 0) =
      pure ((if LastRoomy 0 rs then rs else rs.dropLast).map (IndexRecord.bar category)) := by
  rcases rs.eq_nil_or_concat' with rfl | ⟨init, last, rfl⟩
  · rfl
  have hlength (prev : ℤ) (r : IndexRecord) : 20 ≤ (r.encode category prev).length := by
    have := r.four_le_priceBytes prev
    rw [r.length_encode]
    omega
  obtain ⟨hinit, hlast, -⟩ := (Records.Format.along_append _ _ _).mp
    (along_indexFollows hrs (show (0 : ℤ).natAbs < 2 ^ 55 by decide))
  rw [Records.Format.bytes_append] at hbody
  set prev := init.foldl (indexFormat category).next 0 with hprev
  set pos := 2 + ((indexFormat category).bytes 0 init).length with hpos
  have hdrop : body.drop pos = last.encode category prev ++ [] := drop_add hbody
  have hsize : body.length = pos + (16 + last.priceBytes prev) := by
    have hbytes := congrArg List.length hdrop
    rw [List.length_drop, List.append_nil, last.length_encode] at hbytes
    omega
  have hone : Records.loopM body.length 24 (parseIndexKLineM M maxValidYear category body) 1 pos
      (Int64.ofInt prev) = pure (if 8 ≤ last.priceBytes prev then [last.bar category] else []) := by
    by_cases hroomy : 8 ≤ last.priceBytes prev
    · rw [if_pos hroomy, Records.loopM, if_neg (by omega), reads_index hM body hlast hdrop,
        pure_bind]
      exact pure_bind _ _
    · rw [if_neg hroomy, Records.loopM, if_pos (by omega)]
  have hrest : 4 ≤ ((indexFormat category).bytes prev [last]).length := by
    have hlast := hlength prev last
    rw [Records.Format.bytes, List.length_append]
    exact (by decide : 4 ≤ 20).trans (Nat.le_add_right_of_le hlast)
  have hsplit := Records.Format.loopM_append 4 (reads_index hM body)
    (fun prev r _ => Nat.add_le_add_right (hlength prev r) 4)
    (fun prev r _ => (by decide : 4 ≤ 20).trans (hlength prev r))
    (fun prev r _ => (by decide : 0 < 20).trans_le (hlength prev r)) 1 hrest hinit hbody
  rw [List.length_append, List.length_singleton, hsplit, hone, pure_bind,
    Records.Format.values_eq_map]
  simp only [lastRoomy_concat category, ← hprev]
  by_cases hroomy : 8 ≤ last.priceBytes prev
  · rw [if_pos hroomy, if_pos hroomy, List.map_append]
    rfl
  · rw [if_neg hroomy, if_neg hroomy, List.dropLast_concat, List.append_nil]

/-- **What the parser of index bars returns** of an encoded list, on every machine: all bars, if the
last record is long enough, and else all but the last. -/
lemma parseIndexBarsM_encode (hM : M.InRange) {rs : List IndexRecord}
    (hlen : rs.length < 2 ^ 16) (hrs : ∀ r ∈ rs, r.Encodable maxValidYear category) :
    parseIndexBarsM M maxValidYear category (encodeIndexBars category rs) =
      pure (.ok ((if LastRoomy 0 rs then rs else rs.dropLast).map (IndexRecord.bar category))) := by
  have hzero : (encodeIndexBars category rs).drop 0 =
      LittleEndian.toLE 2 rs.length ++ (indexFormat category).bytes 0 rs := rfl
  have hrecords := drop_add hzero
  rw [Nat.zero_add, LittleEndian.length_toLE] at hrecords
  have hnonempty : ¬(encodeIndexBars category rs).length < 2 := by
    rw [encodeIndexBars, List.length_append, LittleEndian.length_toLE]
    omega
  rw [parseIndexBarsM, if_neg hnonempty, readU16_of_drop hzero hlen]
  exact (congrArg (· >>= _) (loopM_indexBytes hM hrs hrecords)).trans (pure_bind _ _)

/-- The bars that the parser returns of an index response: the last one is lost if the prices of its
record take fewer than eight bytes. -/
def barsRead (category : UInt8) (rs : List IndexRecord) : List IndexBar :=
  (if LastRoomy 0 rs then rs else rs.dropLast).map (IndexRecord.bar category)

/-- The wrapping parser of the release build returns these bars. -/
lemma parseIndexBars_encode {rs : List IndexRecord} (hlen : rs.length < 2 ^ 16)
    (hrs : ∀ r ∈ rs, r.Encodable maxValidYear category) :
    parseIndexBars maxValidYear category (encodeIndexBars category rs) =
      .ok (barsRead category rs) :=
  (runs_parseIndexBars maxValidYear category _).eq_of_ok
    (parseIndexBarsM_encode inRange_checked hlen hrs)

/-- Either all bars are read, or there is one fewer. -/
lemma barsRead_eq_or (category : UInt8) (rs : List IndexRecord) :
    LastRoomy 0 rs ∧ barsRead category rs = rs.map (IndexRecord.bar category) ∨
      ¬ LastRoomy 0 rs ∧ (barsRead category rs).length + 1 = rs.length := by
  by_cases hroomy : LastRoomy 0 rs
  · exact .inl ⟨hroomy, by rw [barsRead, if_pos hroomy]⟩
  · refine .inr ⟨hroomy, ?_⟩
    have hne : rs ≠ [] := by
      rintro rfl
      exact hroomy trivial
    have hpos := List.length_pos_of_ne_nil hne
    rw [barsRead, if_neg hroomy, List.length_map, List.length_dropLast]
    omega

/-- All bars are read exactly if the last record is long enough. -/
lemma barsRead_eq_iff {category : UInt8} {rs : List IndexRecord} :
    barsRead category rs = rs.map (IndexRecord.bar category) ↔ LastRoomy 0 rs := by
  rcases barsRead_eq_or category rs with ⟨hroomy, hall⟩ | ⟨hroomy, hlost⟩
  · exact iff_of_true hall hroomy
  · refine iff_of_false (fun hall => ?_) hroomy
    rw [hall, List.length_map] at hlost
    omega

/-- **The round trip of index K-lines.** Up to 65535 bars with prices below `2 ^ 55` thousandths
and admissible dates are what the parser returns, with and without overflow checks, exactly if the
four prices of the last record take eight bytes or more; else the last bar is missing.

**Proof sketch.** `parseIndexBarsM_encode` says what the loop returns: all bars if the last record
is roomy, and all but the last if not, because the guard asks for 24 bytes and a record has 20 at
least. If that were all bars nevertheless, the list would have the length of one that is shorter by
one, so it would be empty, and the empty list is roomy. -/
theorem index_bars_round_trip_iff (maxValidYear : ℕ) (category : UInt8) (rs : List IndexRecord)
    (hlen : rs.length ≤ 65535) (hrs : ∀ r ∈ rs, r.Encodable maxValidYear category) :
    (parseIndexBars maxValidYear category (encodeIndexBars category rs) =
        .ok (rs.map (IndexRecord.bar category)) ∧
      parseIndexBarsM Machine.checked maxValidYear category (encodeIndexBars category rs) =
        .ok (.ok (rs.map (IndexRecord.bar category)))) ↔
      LastRoomy 0 rs := by
  have hchecked := parseIndexBarsM_encode inRange_checked (by omega : rs.length < 2 ^ 16) hrs
  have hwrapping := (runs_parseIndexBars maxValidYear category _).eq_of_ok hchecked
  constructor
  · rintro ⟨hall, -⟩
    by_contra hshort
    have hlist := Except.ok.inj (hwrapping.symm.trans hall)
    rw [if_neg hshort] at hlist
    have hlost := congrArg List.length hlist
    rw [List.length_map, List.length_map, List.length_dropLast] at hlost
    have hempty : rs = [] := List.eq_nil_of_length_eq_zero (by omega)
    exact hshort (hempty ▸ trivial)
  · intro hroomy
    rw [if_pos hroomy] at hchecked hwrapping
    exact ⟨hwrapping, hchecked⟩

/-- A bar that has moved far from the open of the one before it. -/
theorem index_bars_round_trip_far :
    let rs : List IndexRecord :=
      [⟨⟨2024, 3, 28, 0, 0, 3000000, 3000010, 3000020, 2999990, 4096, 8192⟩, 900, 800⟩,
        ⟨⟨2024, 3, 29, 0, 0, 3010000, 3009000, 3011000, 3008000, 4096, 8192⟩, 1000, 700⟩]
    parseIndexBars 2036 9 (encodeIndexBars 9 rs) = .ok (rs.map (IndexRecord.bar 9)) ∧
      parseIndexBarsM Machine.checked 2036 9 (encodeIndexBars 9 rs) =
        .ok (.ok (rs.map (IndexRecord.bar 9))) := by
  refine (index_bars_round_trip_iff 2036 9 _ (by decide) fun r hr => ?_).mpr (by decide +kernel)
  simp only [List.mem_cons, List.not_mem_nil, or_false] at hr
  rcases hr with rfl | rfl
  · exact ⟨⟨by decide, by decide, by decide, by simp [KLineRecord.FitsLayout, isMinuteCategory],
      by decide, by decide⟩, by decide⟩
  · exact ⟨⟨by decide, by decide, by decide, by simp [KLineRecord.FitsLayout, isMinuteCategory],
      by decide, by decide⟩, by decide⟩

/-- Two five-minute bars of an index that hardly moves: the second one is lost. -/
theorem index_bars_last_lost :
    ∃ rs : List IndexRecord, rs.length ≤ 65535 ∧ (∀ r ∈ rs, r.Encodable 2036 0) ∧
      parseIndexBars 2036 0 (encodeIndexBars 0 rs) ≠ .ok (rs.map (IndexRecord.bar 0)) ∧
      parseIndexBars 2036 0 (encodeIndexBars 0 rs) =
        .ok (rs.dropLast.map (IndexRecord.bar 0)) := by
  refine ⟨[⟨⟨2024, 3, 29, 14, 55, 3000000, 3000010, 3000020, 2999990, 4096, 8192⟩, 900, 800⟩,
    ⟨⟨2024, 3, 29, 15, 0, 3000020, 3000010, 3000030, 3000000, 4096, 8192⟩, 1000, 700⟩], by decide,
    fun r hr => ?_, by decide +kernel, by decide +kernel⟩
  simp only [List.mem_cons, List.not_mem_nil, or_false] at hr
  rcases hr with rfl | rfl
  · exact ⟨⟨by decide, by decide, by decide, by simp [KLineRecord.FitsLayout, isMinuteCategory],
      by decide, by decide⟩, by decide⟩
  · exact ⟨⟨by decide, by decide, by decide, by simp [KLineRecord.FitsLayout, isMinuteCategory],
      by decide, by decide⟩, by decide⟩

end Tdxrs
