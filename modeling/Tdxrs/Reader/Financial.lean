import Mathlib.Data.List.Range
import Tdxrs.Library.Pieces
import Tdxrs.Protocol.Codes
import Tdxrs.Protocol.Fields

set_option relaxedAutoImplicit false
set_option autoImplicit false

/-!
# Reading financial data

`parse_financial` of `src/reader/financial.rs`. A file has a header of 20 bytes, an index with an
entry of eleven bytes for each stock, and reports, each a sequence of numbers at the offset that the
entry says. The index ends where its next entry is not all there, and an entry whose report is not
all there is passed over. Numbers in single precision are kept as their bits.

## Main definitions

* `Tdxrs.parseFinancialM` — the parser.
* `Tdxrs.financialRecords` — the records of the entries that can be read.
* `Tdxrs.FinancialHeader`, `Tdxrs.StockReport` — the parts of a file.

## Main results

* `Tdxrs.parseFinancialM_eq` — the parser does not panic, and gives these records.
* `Tdxrs.financial_exact` — the same, and that a file gives back the stocks it was made of.
-/

namespace Tdxrs

/-- The report of a stock; the numbers are the bits of those in single precision. -/
structure FinancialRecord where
  code : Text
  reportDate : UInt32
  fields : List UInt32
deriving DecidableEq

def financialHeaderSize : ℕ := 20
def indexItemSize : ℕ := 11

/-! ## The parser -/

section

variable {m : Type → Type} [Monad m] (M : Machine m)

/-- Bytes that are read one by one. -/
def indexBytesM (data : Bytes) : ℕ → ℕ → m Bytes
  | _, 0 => pure []
  | pos, count + 1 => do
    let b ← M.index data pos
    let rest ← indexBytesM data (pos + 1) count
    pure (b :: rest)

/-- A number of so many bytes. -/
def readLeM (data : Bytes) (pos width : ℕ) : m ℕ := do
  let bytes ← indexBytesM M data pos width
  pure (LittleEndian.ofLE bytes)

/-- The numbers of a report that are left. -/
def reportFieldsM (data : Bytes) (foa : ℕ) : ℕ → ℕ → m (List UInt32)
  | 0, _ => pure []
  | left + 1, i => do
    let val ← readLeM M data (foa + i * 4) 4
    let vals ← reportFieldsM data foa left (i + 1)
    pure (UInt32.ofNat val :: vals)

/-- The entries of the index that are left. -/
def financialEntriesM (data : Bytes) (reportDate : UInt32) (reportFieldsCount : ℕ) :
    ℕ → ℕ → m (List FinancialRecord)
  | 0, _ => pure []
  | left + 1, idx =>
    let indexOffset := financialHeaderSize + idx * indexItemSize
    if data.length < indexOffset + indexItemSize then pure []
    else do
      let codeBytes ← M.slice data indexOffset 6
      let foa ← readLeM M data (indexOffset + 7) 4
      if data.length < foa + reportFieldsCount * 4 then
        financialEntriesM data reportDate reportFieldsCount left (idx + 1)
      else do
        let fields ← reportFieldsM M data foa reportFieldsCount 0
        let result ← financialEntriesM data reportDate reportFieldsCount left (idx + 1)
        pure (⟨decodeCode codeBytes, reportDate, fields⟩ :: result)

/-- Parses financial data, on a machine. The type of the records is not used. -/
def parseFinancialM (data : Bytes) : m (Except TdxError (List FinancialRecord)) :=
  if data.length < financialHeaderSize then
    pure (.error (.invalidData "Financial file too small for header"))
  else do
    let _recordType ← readLeM M data 0 2
    let reportDate ← readLeM M data 2 4
    let maxCount ← readLeM M data 6 2
    let reportSize ← readLeM M data 12 4
    let result ← financialEntriesM M data (UInt32.ofNat reportDate) (reportSize / 4) maxCount 0
    pure (.ok result)

end

/-- Parses financial data. -/
def parseFinancial (data : Bytes) : Except TdxError (List FinancialRecord) :=
  parseFinancialM Machine.wrapping data

/-! ## The entries that can be read -/

/-- Where an entry of the index stands. -/
def entryOffset (idx : ℕ) : ℕ := financialHeaderSize + idx * indexItemSize

section

variable (data : Bytes)

/-- How many numbers a report has. -/
def reportFieldsCount : ℕ := LittleEndian.field data 12 4 / 4

/-- Where the report of an entry stands. -/
def reportOffset (idx : ℕ) : ℕ := LittleEndian.field data (entryOffset idx + 7) 4

/-- The entry is all there, and so is its report. -/
def EntryReadable (idx : ℕ) : Prop :=
  entryOffset idx + indexItemSize ≤ data.length ∧
    reportOffset data idx + 4 * reportFieldsCount data ≤ data.length

instance (idx : ℕ) : Decidable (EntryReadable data idx) := inferInstanceAs (Decidable (_ ∧ _))

/-- The numbers of a report, from where it stands on. -/
def reportFields (foa count : ℕ) : List UInt32 :=
  (List.range count).map fun i => UInt32.ofNat (LittleEndian.field data (foa + 4 * i) 4)

/-- The record of an entry. -/
def financialRecord (idx : ℕ) : FinancialRecord where
  code := decodeCode ((data.drop (entryOffset idx)).take 6)
  reportDate := UInt32.ofNat (LittleEndian.field data 2 4)
  fields := reportFields data (reportOffset data idx) (reportFieldsCount data)

/-- The records of those of the first `max_count` entries that can be read, in their order. -/
def financialRecords : List FinancialRecord :=
  ((List.range (LittleEndian.field data 6 2)).filter fun idx => EntryReadable data idx).map
    (financialRecord data)

end

/-! ## The parser does not panic -/

section

variable {m : Type → Type} [Monad m] [LawfulMonad m] {M : Machine m} {data : Bytes}

/-- Bytes that are there. -/
lemma indexBytesM_eq (hM : M.InRange) (count : ℕ) : ∀ {pos : ℕ}, pos + count ≤ data.length →
    indexBytesM M data pos count = pure ((data.drop pos).take count) := by
  induction count with
  | zero => exact fun _ => rfl
  | succ count ih =>
    intro pos h
    have hpos : pos < data.length := by omega
    rw [indexBytesM, hM.index hpos, pure_bind, ih (by omega), pure_bind,
      List.drop_eq_getElem_cons hpos, List.take_succ_cons, List.getD_eq_getElem?_getD,
      List.getElem?_eq_getElem hpos, Option.getD_some]

/-- A number that is there. -/
lemma readLeM_eq (hM : M.InRange) {pos width : ℕ} (h : pos + width ≤ data.length) :
    readLeM M data pos width = pure (LittleEndian.field data pos width) := by
  rw [readLeM, indexBytesM_eq hM width h, pure_bind]
  rfl

omit [Monad m] [LawfulMonad m] in
/-- The first number of a report, and the others behind it. -/
lemma reportFields_succ (data : Bytes) (foa count : ℕ) :
    reportFields data foa (count + 1) =
      UInt32.ofNat (LittleEndian.field data foa 4) :: reportFields data (foa + 4) count := by
  rw [reportFields, List.range_succ_eq_map, List.map_cons, List.map_map]
  refine congrArg (UInt32.ofNat (LittleEndian.field data foa 4) :: ·)
    (List.map_congr_left fun k _ => ?_)
  rw [Function.comp_apply, show foa + 4 * (k + 1) = foa + 4 + 4 * k by ring]

/-- A report that is there. -/
lemma reportFieldsM_eq (hM : M.InRange) {foa : ℕ} (left : ℕ) : ∀ {i : ℕ},
    foa + (i + left) * 4 ≤ data.length →
      reportFieldsM M data foa left i = pure (reportFields data (foa + 4 * i) left) := by
  induction left with
  | zero => exact fun _ => rfl
  | succ left ih =>
    intro i h
    rw [reportFieldsM, readLeM_eq hM (by omega), pure_bind, ih (by omega), pure_bind,
      reportFields_succ, Nat.mul_comm i 4, Nat.mul_succ 4 i, Nat.add_assoc]

omit [Monad m] [LawfulMonad m] in
/-- Behind the end of the index no entry can be read. -/
lemma not_entryReadable_of_le {idx idx' : ℕ}
    (hshort : data.length < entryOffset idx + indexItemSize) (hle : idx ≤ idx') :
    ¬ EntryReadable data idx' := by
  rintro ⟨hthere, -⟩
  unfold entryOffset indexItemSize financialHeaderSize at hshort hthere
  omega

/-- **The entries that are left** are read if they can be. The first that is not all there ends the
index, and no later one is there.

**Proof sketch.** Induction on the entries that are left. If the next entry is not all there,
neither is any later one (`not_entryReadable_of_le`), and the loop ends. Otherwise its code and
offset are read within the data; if its report is not all there, the entry is passed over and the
loop goes on, and if it is, `reportFieldsM_eq` reads it. -/
lemma financialEntriesM_eq (hM : M.InRange) (left : ℕ) : ∀ {idx : ℕ},
    financialEntriesM M data (UInt32.ofNat (LittleEndian.field data 2 4)) (reportFieldsCount data)
        left idx =
      pure (((List.range' idx left).filter fun idx => EntryReadable data idx).map
        (financialRecord data)) := by
  induction left with
  | zero => exact fun {_} => rfl
  | succ left ih =>
    intro idx
    rw [financialEntriesM]
    by_cases hshort : data.length < entryOffset idx + indexItemSize
    · -- the end of the index
      have hnone : (List.range' idx (left + 1)).filter (fun idx => EntryReadable data idx) =
          [] := by
        refine List.filter_eq_nil_iff.mpr fun idx' hidx' => ?_
        rw [decide_eq_true_iff]
        exact not_entryReadable_of_le hshort (List.mem_range'_1.mp hidx').1
      rw [hnone]
      exact if_pos hshort
    · have hthere : entryOffset idx + indexItemSize ≤ data.length := not_lt.mp hshort
      have hcode : entryOffset idx + 6 ≤ data.length :=
        le_trans (Nat.add_le_add_left (by decide) _) hthere
      have hfoa : entryOffset idx + 7 + 4 ≤ data.length := hthere
      refine (if_neg hshort).trans ?_
      show (M.slice data (entryOffset idx) 6 >>= _) = _
      rw [hM.slice hcode, pure_bind]
      show (readLeM M data (entryOffset idx + 7) 4 >>= _) = _
      rw [readLeM_eq hM hfoa, pure_bind, List.range'_succ]
      by_cases hcut : data.length < reportOffset data idx + reportFieldsCount data * 4
      · -- the report is not all there
        have hnot : ¬ EntryReadable data idx := fun h => by
          have := h.2
          omega
        rw [List.filter_cons_of_neg (by rwa [decide_eq_true_iff])]
        exact (if_pos hcut).trans ih
      · have hreadable : EntryReadable data idx := ⟨hthere, by omega⟩
        rw [List.filter_cons_of_pos (by rwa [decide_eq_true_iff]), List.map_cons]
        refine (if_neg hcut).trans ?_
        show (reportFieldsM M data (reportOffset data idx) (reportFieldsCount data) 0 >>= _) = _
        rw [reportFieldsM_eq hM _ (by omega), pure_bind, ih, pure_bind]
        rfl

/-- **The parser does not panic**, and gives the records of the entries that can be read. -/
lemma parseFinancialM_eq (hM : M.InRange) (hheader : financialHeaderSize ≤ data.length) :
    parseFinancialM M data = pure (.ok (financialRecords data)) := by
  have hlength : 20 ≤ data.length := hheader
  rw [parseFinancialM, if_neg (not_lt.mpr hheader), readLeM_eq hM (by omega), pure_bind,
    readLeM_eq hM (by omega), pure_bind, readLeM_eq hM (by omega), pure_bind,
    readLeM_eq hM (by omega), pure_bind]
  rw [show LittleEndian.field data 12 4 / 4 = reportFieldsCount data from rfl,
    financialEntriesM_eq hM, pure_bind, financialRecords, List.range_eq_range']

end

/-! ## Files -/

/-- The header of a file. Three of its numbers are not read, or not used. -/
structure FinancialHeader where
  recordType : UInt16
  reportDate : UInt32
  maxCount : UInt16
  reserved : UInt32
  reportSize : UInt32
  reserved' : UInt32
deriving DecidableEq

/-- The bytes of a header. -/
def FinancialHeader.bytes (h : FinancialHeader) : Bytes :=
  LittleEndian.toLE 2 h.recordType.toNat ++ LittleEndian.toLE 4 h.reportDate.toNat ++
    LittleEndian.toLE 2 h.maxCount.toNat ++ LittleEndian.toLE 4 h.reserved.toNat ++
    LittleEndian.toLE 4 h.reportSize.toNat ++ LittleEndian.toLE 4 h.reserved'.toNat

lemma FinancialHeader.length_bytes (h : FinancialHeader) :
    h.bytes.length = financialHeaderSize := by
  simp [FinancialHeader.bytes, financialHeaderSize]

/-- A stock, its report, and where the report stands. The code has at most six ASCII characters, and
no zero byte at its end. -/
structure StockReport where
  code : Bytes
  separator : UInt8
  foa : UInt32
  fields : List UInt32
  ascii : ∀ b ∈ code, b < 0x80
  short : code.length ≤ 6
  trimmed : code.getLast? ≠ some 0

namespace StockReport

variable (r : StockReport)

/-- The bytes of the code. -/
def codeBytes : Bytes := r.code ++ List.replicate (6 - r.code.length) 0

/-- The entry of the index. -/
def entry : Bytes := r.codeBytes ++ r.separator :: LittleEndian.toLE 4 r.foa.toNat

/-- The report. -/
def report : Bytes := r.fields.flatMap fun v => LittleEndian.toLE 4 v.toNat

/-- What is to be read back. -/
def record (reportDate : UInt32) : FinancialRecord := ⟨asciiText r.code, reportDate, r.fields⟩

lemma length_codeBytes : r.codeBytes.length = 6 := by
  have hshort := r.short
  rw [codeBytes, List.length_append, List.length_replicate]
  omega

lemma length_entry : r.entry.length = indexItemSize := by
  rw [entry, List.length_append, length_codeBytes, List.length_cons, LittleEndian.length_toLE]
  rfl

lemma length_report : r.report.length = 4 * r.fields.length := by
  simp [report, List.length_flatMap, Nat.mul_comm]

/-- The report stands where it is said to, inside the file. -/
def PlacedIn (data : Bytes) : Prop :=
  r.foa.toNat ≤ data.length ∧ Pieces.At data r.foa.toNat r.report

instance (data : Bytes) : Decidable (r.PlacedIn data) := inferInstanceAs (Decidable (_ ∧ _))

end StockReport

/-! ## Reading a file back -/

section

variable {data : Bytes} {pos : ℕ}

/-- A number of 32 bits that stands at a position. -/
lemma field_word_of_at {v : UInt32} (h : Pieces.At data pos (LittleEndian.toLE 4 v.toNat)) :
    LittleEndian.field data pos 4 = v.toNat := LittleEndian.field_of_at h v.toNat_lt

/-- The numbers of a report that stands at a position. -/
lemma reportFields_of_at {fields : List UInt32} : ∀ {pos : ℕ},
    Pieces.At data pos (fields.flatMap fun v => LittleEndian.toLE 4 v.toNat) →
      reportFields data pos fields.length = fields := by
  induction fields with
  | nil => exact fun _ => rfl
  | cons v fields ih =>
    intro pos h
    obtain ⟨hfirst, hrest⟩ := Pieces.at_append_iff.mp h
    rw [LittleEndian.length_toLE] at hrest
    rw [List.length_cons, reportFields_succ, field_word_of_at hfirst, UInt32.ofNat_toNat, ih hrest]

variable {h : FinancialHeader} {stocks : List StockReport}

/-- The numbers of the header. -/
lemma header_of_at (hat : Pieces.At data 0 h.bytes) :
    UInt32.ofNat (LittleEndian.field data 2 4) = h.reportDate ∧
      LittleEndian.field data 6 2 = h.maxCount.toNat ∧
        reportFieldsCount data = h.reportSize.toNat / 4 := by
  simp only [FinancialHeader.bytes, Pieces.at_append_iff, LittleEndian.length_toLE,
    List.length_append, Nat.zero_add, Nat.reduceAdd] at hat
  obtain ⟨⟨⟨⟨⟨-, hdate⟩, hcount⟩, -⟩, hsize⟩, -⟩ := hat
  refine ⟨?_, LittleEndian.field_of_at hcount h.maxCount.toNat_lt, ?_⟩
  · rw [field_word_of_at hdate, UInt32.ofNat_toNat]
  · rw [reportFieldsCount, field_word_of_at hsize]

/-- The index has one entry for each stock. -/
lemma length_index (stocks : List StockReport) :
    (stocks.flatMap StockReport.entry).length = stocks.length * indexItemSize := by
  simp [List.length_flatMap, StockReport.length_entry]

/-- **An entry and its report are read back** where they stand.

**Proof sketch.** The entry is code, separator and offset, of eleven bytes together, so it is all
there; the offset is where the report stands, and so is the report. The code is ASCII, and the
numbers are read one by one (`reportFields_of_at`). -/
lemma financialRecord_of_at {r : StockReport} {idx : ℕ}
    (hentry : Pieces.At data (entryOffset idx) r.entry) (hplaced : r.PlacedIn data)
    (hcount : r.fields.length = reportFieldsCount data)
    (hinside : entryOffset idx ≤ data.length) :
    EntryReadable data idx ∧
      financialRecord data idx = r.record (UInt32.ofNat (LittleEndian.field data 2 4)) := by
  have hend : entryOffset idx + indexItemSize ≤ data.length := by
    rw [← r.length_entry]
    exact hentry.length_le hinside
  obtain ⟨hcode, hrest⟩ := Pieces.at_append_iff.mp hentry
  have hword : Pieces.At data (entryOffset idx + 7) (LittleEndian.toLE 4 r.foa.toNat) := by
    rw [r.length_codeBytes] at hrest
    exact ((Pieces.at_append_iff (a := [r.separator])).mp hrest).2
  have hfoa : reportOffset data idx = r.foa.toNat := field_word_of_at hword
  have htext : (data.drop (entryOffset idx)).take 6 = r.codeBytes := by
    have htake := hcode.take_drop
    rwa [r.length_codeBytes] at htake
  refine ⟨⟨hend, ?_⟩, ?_⟩
  · have hreport := hplaced.2.length_le hplaced.1
    rw [r.length_report, hcount] at hreport
    rwa [hfoa]
  · rw [financialRecord, htext, hfoa, StockReport.codeBytes, decodeCode_ascii r.ascii r.trimmed,
      ← hcount, reportFields_of_at hplaced.2]
    rfl

/-- **The round trip of a file.** The header and the index stand at the beginning, and the reports
anywhere.

**Proof sketch.** All entries have eleven bytes, so entry `idx` stands at `entryOffset idx`
(`Pieces.At.getElem_flatMap`) and `financialRecord_of_at` reads it back with its report. Thus every
entry that the count announces is readable, and the filter keeps them all. -/
lemma financialRecords_of_prefix
    (hfront : h.bytes ++ stocks.flatMap StockReport.entry <+: data)
    (hcount : h.maxCount.toNat = stocks.length)
    (hfields : ∀ r ∈ stocks, r.fields.length = h.reportSize.toNat / 4)
    (hplaced : ∀ r ∈ stocks, r.PlacedIn data) :
    financialRecords data = stocks.map fun r => r.record h.reportDate := by
  obtain ⟨hheader, hindex⟩ := Pieces.at_append_iff.mp
    (show Pieces.At data 0 (h.bytes ++ stocks.flatMap StockReport.entry) by
      rwa [Pieces.At, List.drop_zero])
  obtain ⟨hdate, hmax, hsize⟩ := header_of_at hheader
  rw [h.length_bytes, Nat.zero_add] at hindex
  have hlength : financialHeaderSize + stocks.length * indexItemSize ≤ data.length := by
    have hle := hfront.length_le
    rw [List.length_append, h.length_bytes, length_index] at hle
    omega
  have hrecord : ∀ idx (hidx : idx < stocks.length), EntryReadable data idx ∧
      financialRecord data idx = stocks[idx].record h.reportDate := by
    intro idx hidx
    have hmem : stocks[idx] ∈ stocks := List.getElem_mem hidx
    have hentry : Pieces.At data (entryOffset idx) stocks[idx].entry :=
      hindex.getElem_flatMap StockReport.length_entry hidx
    have hinside : entryOffset idx ≤ data.length :=
      le_trans (Nat.add_le_add_left (Nat.mul_le_mul_right _ hidx.le) _) hlength
    rw [← hdate]
    exact financialRecord_of_at hentry (hplaced _ hmem) ((hfields _ hmem).trans hsize.symm) hinside
  have hall : (List.range stocks.length).filter (fun idx => EntryReadable data idx) =
      List.range stocks.length :=
    List.filter_eq_self.mpr fun idx hidx =>
      decide_eq_true (hrecord idx (List.mem_range.mp hidx)).1
  rw [financialRecords, hmax, hcount, hall]
  refine List.ext_getElem (by simp) fun idx hidx _ => ?_
  rw [List.length_map, List.length_range] at hidx
  rw [List.getElem_map, List.getElem_map, List.getElem_range]
  exact (hrecord idx hidx).2

end

/-- **Reading financial data is exact and safe.** Whatever the bytes, no index is out of bounds.
Without a header there is an error; with one, the result is the records, in the order of the index,
of those of the first `max_count` entries that are all there and whose reports are all there. So a
file whose index lists up to 65535 stocks with reports of one length gives back the stocks, wherever
in the file the reports stand.

**Proof sketch.** Without a header both machines return the error before they read anything, and the
bytes cannot begin with a header and an index. With one, `parseFinancialM_eq` gives the records on
any machine, and `financialRecords_of_prefix` says which these are for a file. -/
theorem financial_exact (data : Bytes) :
    parseFinancialM Machine.checked data = .ok (parseFinancial data) ∧
      parseFinancial data =
        (if data.length < financialHeaderSize then
          .error (.invalidData "Financial file too small for header")
        else .ok (financialRecords data)) ∧
      ∀ (h : FinancialHeader) (stocks : List StockReport),
        h.bytes ++ stocks.flatMap StockReport.entry <+: data →
        h.maxCount.toNat = stocks.length →
        (∀ r ∈ stocks, r.fields.length = h.reportSize.toNat / 4) →
        (∀ r ∈ stocks, r.PlacedIn data) →
        parseFinancial data = .ok (stocks.map fun r => r.record h.reportDate) := by
  by_cases hshort : data.length < financialHeaderSize
  · refine ⟨?_, ?_, fun h stocks hfront => ?_⟩
    · rw [parseFinancial, parseFinancialM, parseFinancialM, if_pos hshort, if_pos hshort]
      rfl
    · rw [parseFinancial, parseFinancialM, if_pos hshort, if_pos hshort]
      rfl
    · have hlength := hfront.length_le
      rw [List.length_append, h.length_bytes] at hlength
      omega
  · have hparse : parseFinancial data = .ok (financialRecords data) :=
      parseFinancialM_eq inRange_wrapping (not_lt.mp hshort)
    refine ⟨?_, ?_, fun h stocks hfront hcount hfields hplaced => ?_⟩
    · rw [hparse]
      exact parseFinancialM_eq inRange_checked (not_lt.mp hshort)
    · rw [hparse, if_neg hshort]
    · rw [hparse, financialRecords_of_prefix hfront hcount hfields hplaced]

/-- Two stocks whose reports, 1.5 and 2.5, stand in one place. -/
def sharedReports : FinancialHeader × List StockReport :=
  (⟨1, 20231231, 2, 0, 9, 0⟩,
    [⟨[0x36, 0x30, 0x30, 0x35, 0x31, 0x39], 0, 44, [0x3FC00000, 0x40200000], by decide +kernel,
        by decide, by decide⟩,
      ⟨[0x36, 0x36], 0, 44, [0x3FC00000, 0x40200000], by decide +kernel, by decide, by decide⟩])

/-- A file of these stocks, with two bytes that nothing refers to. -/
def sharedFile : Bytes :=
  sharedReports.1.bytes ++ sharedReports.2.flatMap StockReport.entry ++
    [7, 7, 0, 0, 0xC0, 0x3F, 0, 0, 0x20, 0x40]

/-- Both stocks are read back. -/
theorem financial_exact_shared :
    parseFinancial sharedFile =
      .ok [⟨"600519".toList, 20231231, [0x3FC00000, 0x40200000]⟩,
        ⟨"66".toList, 20231231, [0x3FC00000, 0x40200000]⟩] :=
  (financial_exact sharedFile).2.2 sharedReports.1 sharedReports.2 ⟨_, rfl⟩ rfl (by decide)
    (by decide)

end Tdxrs
