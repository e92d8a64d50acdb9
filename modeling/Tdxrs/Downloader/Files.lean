import Tdxrs.Downloader.Dates

set_option relaxedAutoImplicit false
set_option autoImplicit false

/-!
# What data files hold

A file of a format is determined by the bars in it: `fileOf` is the file that holds given bars,
and the writers turn it into the file that holds more of them, `kept` being the bars that a writer
gets to write. A `.day` file takes the bars up to the first one that does not fit into a record, a
parquet file is written with all bars or not at all.

## Main definitions

* `Tdxrs.Format.Fits`, `Tdxrs.Format.kept` — the bars that a format can take.
* `Tdxrs.fileOf`, `Tdxrs.newFile`, `Tdxrs.downloadedFile` — the files that hold given bars.

## Main results

* `Tdxrs.packRecord_eq`, `Tdxrs.fits_tdx_iff` — the records of dated bars.
* `Tdxrs.writeBars_append`, `Tdxrs.writeBars_new`, `Tdxrs.writeBars_ok_iff` — the writers.
-/

namespace Tdxrs

/-! ## Computations that can fail -/

/-- A sequence of two computations succeeds when both do. -/
lemma bind_eq_ok {α β : Type} {x : Except PyError α} {f : α → Except PyError β} {b : β} :
    x >>= f = .ok b ↔ ∃ a, x = .ok a ∧ f a = .ok b := by
  cases x with
  | error e => exact ⟨fun h => (by cases h), fun ⟨_, h, _⟩ => (by cases h)⟩
  | ok a => exact ⟨fun h => ⟨a, rfl, h⟩, fun ⟨_, h, h'⟩ => Except.ok.inj h ▸ h'⟩

/-- A sequence of two computations succeeds for some result when both do. -/
lemma exists_bind_iff {α β : Type} {x : Except PyError α} {f : α → Except PyError β} :
    (∃ b, x >>= f = .ok b) ↔ ∃ a, x = .ok a ∧ ∃ b, f a = .ok b := by
  simp only [bind_eq_ok]
  exact ⟨fun ⟨b, a, ha, hb⟩ => ⟨a, ha, b, hb⟩, fun ⟨a, ha, b, hb⟩ => ⟨b, a, ha, hb⟩⟩

/-- A computation that succeeds has a result. -/
lemma isOk_iff {α : Type} {x : Except PyError α} : x.isOk = true ↔ ∃ a, x = .ok a := by
  cases x with
  | error e => exact iff_of_false Bool.false_ne_true (fun ⟨_, h⟩ => by cases h)
  | ok a => exact iff_of_true rfl ⟨a, rfl⟩

/-- Computations that all succeed, one for each element of a list. -/
lemma mapM_eq_ok {α β : Type} {f : α → Except PyError β} {g : α → β} :
    ∀ {l : List α}, (∀ a ∈ l, f a = .ok (g a)) → l.mapM f = .ok (l.map g)
  | [], _ => rfl
  | a :: l, h => by
    rw [List.mapM_cons, h a List.mem_cons_self,
      mapM_eq_ok fun a' ha' => h a' (List.mem_cons_of_mem _ ha')]
    rfl

/-- One computation that fails makes the whole fail.

**Proof sketch.** If the whole had a result, every computation of the list would have one, by
induction on the list. -/
lemma mapM_eq_error {α β : Type} {f : α → Except PyError β} {l : List α}
    (h : ∃ a ∈ l, ∀ b, f a ≠ .ok b) : ∃ e, l.mapM f = .error e := by
  cases hm : l.mapM f with
  | error e => exact ⟨e, rfl⟩
  | ok bs =>
    exfalso
    obtain ⟨a, ha, hfail⟩ := h
    induction l generalizing bs with
    | nil => cases ha
    | cons a' l ih =>
      rw [List.mapM_cons] at hm
      obtain ⟨b, hb, hm⟩ := bind_eq_ok.mp hm
      obtain ⟨bs', hbs', -⟩ := bind_eq_ok.mp hm
      rcases List.mem_cons.mp ha with rfl | ha
      · exact hfail b hb
      · exact ih bs' hbs' ha

/-! ## Records -/

/-- Packed numbers take four bytes. -/
lemma length_packU32 {z : ℤ} {bytes : Bytes} (h : packU32 z = .ok bytes) : bytes.length = 4 := by
  unfold packU32 at h
  split at h
  · rw [← Except.ok.inj h, LittleEndian.length_toLE]
  · cases h

/-- Packed numbers in single precision take four bytes. -/
lemma length_packF32 {q : ℚ} {bytes : Bytes} (h : packF32 q = .ok bytes) : bytes.length = 4 := by
  unfold packF32 at h
  split at h
  · rw [← Except.ok.inj h, LittleEndian.length_toLE]
  · cases h

/-- What a record is made of, when it can be packed: the date of the bar, read from its text, and
the packed fields. -/
lemma packRecord_eq_ok {b : SecurityBar} {record : Bytes} :
    packRecord b = .ok record ↔
      ∃ year, parseInt (b.datetime.take 4) = .ok year ∧
      ∃ month, parseInt ((b.datetime.drop 5).take 2) = .ok month ∧
      ∃ day, parseInt ((b.datetime.drop 8).take 2) = .ok day ∧
      ∃ date, packU32 (dateInt year month day) = .ok date ∧
      ∃ «open», packU32 (pyInt (b.open * 100)) = .ok «open» ∧
      ∃ high, packU32 (pyInt (b.high * 100)) = .ok high ∧
      ∃ low, packU32 (pyInt (b.low * 100)) = .ok low ∧
      ∃ close, packU32 (pyInt (b.close * 100)) = .ok close ∧
      ∃ amount, packF32 b.amount = .ok amount ∧
      ∃ vol, packU32 (pyInt b.vol) = .ok vol ∧
      ∃ reserved, packU32 0 = .ok reserved ∧
        date ++ «open» ++ high ++ low ++ close ++ amount ++ vol ++ reserved = record := by
  simp only [packRecord, bind_eq_ok, pure, Except.pure, Except.ok.injEq]

/-- The number of a date fits its field. -/
lemma SecurityBar.Dated.packU32_dateInt {category : UInt8} {b : SecurityBar}
    (hb : b.Dated category) :
    packU32 (Tdxrs.dateInt b.year b.month b.day : ℕ) =
      .ok (LittleEndian.toLE 4 (Tdxrs.dateInt b.year b.month b.day)) := by
  have hrange := dateInt_range hb.year hb.month hb.day
  rw [packU32, if_pos ⟨by omega, by exact_mod_cast hrange.2⟩, Int.toNat_natCast]

/-- The date of a bar as the number in its record. -/
def SecurityBar.dateInt (b : SecurityBar) : ℕ := Tdxrs.dateInt b.year b.month b.day

/-- **The record of a dated bar** is 32 bytes long and begins with the number of its date. -/
lemma packRecord_eq {category : UInt8} {b : SecurityBar} (hb : b.Dated category) {record : Bytes}
    (h : packRecord b = .ok record) :
    ∃ rest, record = LittleEndian.toLE 4 b.dateInt ++ rest ∧ rest.length = 28 := by
  obtain ⟨year, hyear, month, hmonth, day, hday, date, hdate, _, h1, _, h2, _, h3, _, h4, _, h5, _,
    h6, _, h7, rfl⟩ := packRecord_eq_ok.mp h
  obtain rfl := Except.ok.inj (hyear.symm.trans hb.parseInt_year)
  obtain rfl := Except.ok.inj (hmonth.symm.trans hb.parseInt_month)
  obtain rfl := Except.ok.inj (hday.symm.trans hb.parseInt_day)
  obtain rfl := Except.ok.inj (hdate.symm.trans hb.packU32_dateInt)
  simp only [List.append_assoc]
  refine ⟨_, rfl, ?_⟩
  simp only [List.length_append, length_packU32 h1, length_packU32 h2, length_packU32 h3,
    length_packU32 h4, length_packF32 h5, length_packU32 h6, length_packU32 h7]

/-! ## The bars that a format takes -/

/-- Whether a bar fits into the files of a format. -/
def Format.fits : Format → SecurityBar → Bool
  | .tdx, b => (packRecord b).isOk
  | .csv, _ => true
  | .parquet, b => (parquetRow b).isOk

/-- The bars that a writer gets to write: records one by one until the first bar that does not
fit, a table with all bars or none. -/
def Format.kept : Format → List SecurityBar → List SecurityBar
  | .tdx, bars => bars.takeWhile Format.tdx.fits
  | .csv, bars => bars
  | .parquet, bars => if bars.all Format.parquet.fits then bars else []

/-- The record of a bar that fits. -/
def recordOf (b : SecurityBar) : Bytes := (packRecord b).toOption.getD []

/-- The row of a bar that fits. -/
def rowOf (b : SecurityBar) : ParquetRow :=
  ⟨b.datePart, b.open, b.high, b.low, b.close, b.amount, pyInt b.vol⟩

/-- The file that holds the given bars. -/
def fileOf (codec : ParquetCodec) : Format → List SecurityBar → Bytes
  | .tdx, bars => bars.flatMap recordOf
  | .csv, bars => writeRows (csvHeader :: bars.map csvRow)
  | .parquet, bars => codec.write (bars.map rowOf)

/-- The file after bars were written where there was none. -/
def newFile (codec : ParquetCodec) (format : Format) (bars : List SecurityBar) : Option Bytes :=
  if format = .parquet ∧ ¬ bars.all format.fits then none
  else some (fileOf codec format (format.kept bars))

/-- The file of a download into a directory without the file: none when there are no bars. -/
def downloadedFile (codec : ParquetCodec) (format : Format) (bars : List SecurityBar) :
    Option Bytes :=
  if bars = [] then none else newFile codec format bars

/-- The numbers that can be packed. -/
lemma exists_packU32_iff {z : ℤ} : (∃ bytes, packU32 z = .ok bytes) ↔ 0 ≤ z ∧ z < 2 ^ 32 := by
  unfold packU32
  split
  · rename_i h
    exact iff_of_true ⟨_, rfl⟩ h
  · rename_i h
    exact iff_of_false (fun ⟨_, h'⟩ => by cases h') h

/-- The numbers that can be packed in single precision. -/
lemma exists_packF32_iff {q : ℚ} :
    (∃ bytes, packF32 q = .ok bytes) ↔ (float32Bits q).isSome := by
  unfold packF32
  cases float32Bits q with
  | none => exact iff_of_false (fun ⟨_, h⟩ => by cases h) (by simp)
  | some bits => exact iff_of_true ⟨_, rfl⟩ rfl

/-- **A dated bar fits into a record** exactly when its prices in hundredths and its volume fit
32 bits without a sign and its amount is in the range of single precision.

**Proof sketch.** The date and the reserved word always fit. So the record can be packed exactly if
each of the other fields can. -/
theorem fits_tdx_iff {category : UInt8} {b : SecurityBar} (hb : b.Dated category) :
    Format.tdx.fits b = true ↔
      (∀ price ∈ [b.open, b.high, b.low, b.close],
        0 ≤ pyInt (price * 100) ∧ pyInt (price * 100) < 2 ^ 32) ∧
      (float32Bits b.amount).isSome ∧ 0 ≤ pyInt b.vol ∧ pyInt b.vol < 2 ^ 32 := by
  have hrange := dateInt_range hb.year hb.month hb.day
  have hdate : (Tdxrs.dateInt b.year b.month b.day : ℤ) < 2 ^ 32 := by exact_mod_cast hrange.2
  have hfits : Format.tdx.fits b = true ↔ ∃ record, packRecord b = .ok record := isOk_iff
  rw [hfits]
  simp only [packRecord, hb.parseInt_year, hb.parseInt_month, hb.parseInt_day, exists_bind_iff,
    Except.ok.injEq, exists_eq_left', pure, Except.pure, exists_eq', and_true, exists_and_right,
    exists_packU32_iff, exists_packF32_iff, List.forall_mem_cons, List.not_mem_nil,
    false_imp_iff, implies_true, Nat.cast_nonneg, hdate, true_and]
  constructor
  · rintro ⟨hopen, hhigh, hlow, hclose, hamount, hvol, -⟩
    exact ⟨⟨hopen, hhigh, hlow, hclose⟩, hamount, hvol⟩
  · rintro ⟨⟨hopen, hhigh, hlow, hclose⟩, hamount, hvol⟩
    exact ⟨hopen, hhigh, hlow, hclose, hamount, hvol, by decide⟩

/-- A bar that fits has a record. -/
lemma packRecord_of_fits {b : SecurityBar} (h : Format.tdx.fits b = true) :
    packRecord b = .ok (recordOf b) := by
  obtain ⟨record, hrecord⟩ := isOk_iff.mp h
  rw [recordOf, hrecord]
  rfl

/-- A bar that fits has a row. -/
lemma parquetRow_of_fits {b : SecurityBar} (h : Format.parquet.fits b = true) :
    parquetRow b = .ok (rowOf b) := by
  simp only [Format.fits] at h
  unfold parquetRow at h ⊢
  by_cases hvol : -2 ^ 63 ≤ pyInt b.vol ∧ pyInt b.vol < 2 ^ 63
  · rw [if_pos hvol, rowOf]
  · rw [if_neg hvol] at h
    cases h

/-- Of no bars none are written. -/
@[simp] lemma Format.kept_nil (format : Format) : format.kept [] = [] := by
  cases format <;> rfl

/-- A table has all bars or none. -/
lemma Format.kept_parquet (bars : List SecurityBar) :
    Format.parquet.kept bars = if bars.all Format.parquet.fits then bars else [] :=
  rfl

/-- When all bars fit, all are written. -/
lemma Format.kept_eq_self {format : Format} {bars : List SecurityBar}
    (h : bars.all format.fits = true) : format.kept bars = bars := by
  cases format with
  | tdx => exact List.takeWhile_eq_self_iff.mpr fun b hb => List.all_eq_true.mp h b hb
  | csv => rfl
  | parquet => exact if_pos h

/-- What is written is the beginning of the bars. -/
lemma Format.kept_prefix (format : Format) (bars : List SecurityBar) :
    format.kept bars <+: bars := by
  cases format with
  | tdx => exact List.takeWhile_prefix _
  | csv => exact List.prefix_refl _
  | parquet =>
    rw [kept_parquet]
    split
    · exact List.prefix_refl _
    · exact List.nil_prefix

/-- What is written fits. -/
lemma Format.fits_of_mem_kept {format : Format} {bars : List SecurityBar} {b : SecurityBar}
    (h : b ∈ format.kept bars) : format.fits b = true := by
  cases format with
  | tdx => exact List.mem_takeWhile_imp h
  | csv => rfl
  | parquet =>
    rw [kept_parquet] at h
    split at h
    · rename_i hall
      exact List.all_eq_true.mp hall b h
    · cases h

/-- A new file holds the bars that are written; a table is written only with all bars. -/
lemma newFile_eq (codec : ParquetCodec) {format : Format} {bars : List SecurityBar}
    (h : format = .parquet → bars.all format.fits = true) :
    newFile codec format bars = some (fileOf codec format (format.kept bars)) :=
  if_neg fun hnot => hnot.2 (h hnot.1)

/-- A download that writes bars makes the file that holds them. -/
lemma downloadedFile_eq (codec : ParquetCodec) {format : Format} {bars : List SecurityBar}
    (h : format.kept bars ≠ []) :
    downloadedFile codec format bars = some (fileOf codec format (format.kept bars)) := by
  have hne : bars ≠ [] := by
    rintro rfl
    exact h format.kept_nil
  rw [downloadedFile, if_neg hne, newFile_eq]
  rintro rfl
  by_contra hall
  exact h (if_neg hall)

/-- There is no parquet file without bars. -/
lemma downloadedFile_parquet (codec : ParquetCodec) {bars : List SecurityBar}
    (h : Format.parquet.kept bars = []) : downloadedFile codec .parquet bars = none := by
  unfold downloadedFile
  split
  · rfl
  · rename_i hne
    refine if_pos ⟨rfl, fun hall => hne ?_⟩
    rwa [Format.kept_eq_self hall] at h

/-- Bars that fit come first, when the rest is written too. -/
lemma Format.kept_append {format : Format} {done rest : List SecurityBar}
    (hdone : ∀ b ∈ done, format.fits b = true)
    (hrest : format = .parquet → rest.all format.fits = true) :
    format.kept (done ++ rest) = done ++ format.kept rest := by
  cases format with
  | tdx => exact List.takeWhile_append_of_pos hdone
  | csv => rfl
  | parquet =>
    have hall : (done ++ rest).all parquet.fits = true := by
      rw [List.all_append, hrest rfl, Bool.and_true, List.all_eq_true]
      exact hdone
    rw [kept_eq_self hall, kept_eq_self (hrest rfl)]

/-- A first bar that fits is written first, when the rest is written too. -/
lemma Format.kept_cons_of_fits {format : Format} {b : SecurityBar} {bars : List SecurityBar}
    (hb : format.fits b = true) (hbars : format = .parquet → bars.all format.fits = true) :
    format.kept (b :: bars) = b :: format.kept bars := by
  have happend : format.kept ([b] ++ bars) = [b] ++ format.kept bars :=
    kept_append (by simpa using hb) hbars
  exact happend

/-- Nothing is written when the first bar does not fit. -/
lemma Format.kept_cons_of_not_fits {format : Format} {b : SecurityBar}
    (h : format.fits b = false) (bars : List SecurityBar) : format.kept (b :: bars) = [] := by
  cases format with
  | tdx => exact List.takeWhile_cons_of_neg (by simp [h])
  | csv => cases h
  | parquet => exact if_neg (by simp [h])

/-! ## The writers -/

/-- The bytes of texts put together. -/
lemma encodeText_append (s t : Text) : encodeText (s ++ t) = encodeText s ++ encodeText t := by
  simp [encodeText, asBytes]

/-- A text is read back from its bytes. -/
lemma decodeText_encodeText (t : Text) : decodeText (encodeText t) = some t := by
  have hbytes : (⟨(encodeText t).toArray⟩ : ByteArray) = (String.ofList t).toByteArray := by
    rw [encodeText, asBytes, Array.toArray_toList, String.toUTF8_eq_toByteArray]
  rw [decodeText, hbytes, String.fromUTF8?, dif_pos (String.ofList t).isValidUTF8]
  show some (String.ofList t).toList = some t
  rw [String.toList_ofList]

/-- Records are written up to the first bar that does not fit, and the result tells whether there
was one.

**Proof sketch.** Induction on the bars. A bar that does not fit ends the writing with its error; a
bar that fits adds its record, and the rest is written behind it. -/
lemma writeRecords_eq (content : Bytes) (bars : List SecurityBar) :
    (writeRecords content bars).1 = content ++ (Format.tdx.kept bars).flatMap recordOf ∧
      ((writeRecords content bars).2 = .ok () ↔ bars.all Format.tdx.fits) := by
  induction bars generalizing content with
  | nil => simp [writeRecords, Format.kept]
  | cons b bars ih =>
    rw [writeRecords]
    cases hb : packRecord b with
    | error e =>
      have hfits : Format.tdx.fits b = false := by
        rw [Format.fits, hb]
        rfl
      simp [Format.kept, hfits]
    | ok record =>
      have hfits : Format.tdx.fits b = true := isOk_iff.mpr ⟨record, hb⟩
      have hrecord : recordOf b = record := by
        rw [recordOf, hb]
        rfl
      obtain ⟨hcontent, hresult⟩ := ih (content ++ record)
      refine ⟨?_, ?_⟩
      · simp only [hcontent, Format.kept, List.takeWhile_cons_of_pos hfits, List.flatMap_cons,
          hrecord, List.append_assoc]
      · simp only [hresult, List.all_cons, hfits, Bool.true_and]

/-- A table is written when all bars fit. -/
lemma mapM_parquetRow (bars : List SecurityBar) :
    if bars.all Format.parquet.fits then bars.mapM parquetRow = .ok (bars.map rowOf)
    else ∃ e, bars.mapM parquetRow = .error e := by
  split
  · rename_i hall
    exact mapM_eq_ok fun b hb => parquetRow_of_fits (List.all_eq_true.mp hall b hb)
  · rename_i hall
    simp only [List.all_eq_true, not_forall] at hall
    obtain ⟨b, hb, hfits⟩ := hall
    exact mapM_eq_error ⟨b, hb, fun row hrow => hfits (isOk_iff.mpr ⟨row, hrow⟩)⟩

/-- Writing succeeds when all bars fit.

**Proof sketch.** By the format: for records this is `writeRecords_eq`; rows of text take every bar;
and a table is written as a whole or not at all (`mapM_parquetRow`). -/
theorem writeBars_ok_iff (codec : ParquetCodec) (format : Format) (content : Option Bytes)
    (bars : List SecurityBar) (append : Bool) :
    (writeBars codec format content bars append).2 = .ok () ↔ bars.all format.fits := by
  cases format with
  | tdx => exact (writeRecords_eq _ bars).2
  | csv => exact iff_of_true rfl (List.all_eq_true.mpr fun _ _ => rfl)
  | parquet =>
    have htable := mapM_parquetRow bars
    simp only [writeBars, writeParquet]
    split at htable
    · rename_i hall
      rw [htable]
      exact iff_of_true rfl hall
    · rename_i hall
      obtain ⟨e, he⟩ := htable
      rw [he]
      exact iff_of_false (fun h => by cases h) hall

/-- **Writing behind given bars.**

**Proof sketch.** By the format. Records and rows are put behind the bytes of the file, up to the
first bar that does not fit. A table is read, the new rows are put behind the old ones, and it is
written again; if a bar does not fit, the file stays as it is, and none of the bars is kept. -/
theorem writeBars_append (codec : ParquetCodec) (format : Format) (done bars : List SecurityBar) :
    (writeBars codec format (some (fileOf codec format done)) bars true).1 =
      some (fileOf codec format (done ++ format.kept bars)) := by
  cases format with
  | tdx =>
    simp only [writeBars, writeTdx, if_true, Option.getD_some, (writeRecords_eq _ bars).1, fileOf,
      List.flatMap_append]
  | csv =>
    simp only [writeBars, writeCsv, if_true, Option.getD_some, fileOf, Format.kept, List.map_append]
    rw [← List.cons_append, writeRows, writeRows, writeRows, List.flatMap_append, encodeText_append]
  | parquet =>
    have htable := mapM_parquetRow bars
    simp only [writeBars, writeParquet, fileOf, Format.kept]
    split at htable
    · rename_i hall
      rw [htable, if_pos hall]
      simp only [if_true, Option.bind_some, codec.read_write, Option.getD_some, List.map_append]
    · rename_i hall
      obtain ⟨e, he⟩ := htable
      rw [he, if_neg hall, List.append_nil]

/-- **Writing where there was no file**, or in place of a binary or text file.

**Proof sketch.** By the format. A table can be written only if all of its rows can be made; if not,
then there is no file afterwards as there was none before. -/
theorem writeBars_new (codec : ParquetCodec) {format : Format} {content : Option Bytes}
    (h : format = .parquet → content = none) (bars : List SecurityBar) :
    (writeBars codec format content bars false).1 = newFile codec format bars := by
  cases format with
  | tdx =>
    simp [writeBars, writeTdx, (writeRecords_eq _ bars).1, newFile, fileOf]
  | csv => rfl
  | parquet =>
    have htable := mapM_parquetRow bars
    simp only [writeBars, writeParquet, newFile, fileOf, Format.kept_parquet]
    split at htable
    · rename_i hall
      simp [htable, hall]
    · rename_i hall
      obtain ⟨e, he⟩ := htable
      simp [he, hall, h]

end Tdxrs
