import Mathlib.Data.Finset.Interval
import Mathlib.Order.Interval.Finset.Nat
import Tdxrs.Library.Pieces
import Tdxrs.Protocol.Encoding
import Tdxrs.Reader.Block

set_option relaxedAutoImplicit false
set_option autoImplicit false

/-!
# The areas of a block file

A block of a block file has a header of 13 bytes and an area of 2800 bytes for its codes, which is
enough for 400 of them. `parse_block` goes from block to block by these sizes, but inside a block it
goes by the number of stocks that the block says it has: with more than 400 it reads on behind the
area, first of all the header of the next block.

## Main definitions

* `Tdxrs.codesRead`, `Tdxrs.codeSpan` — the codes that are read from a file, and from which bytes.
* `Tdxrs.CodesApart` — codes stay in the areas of their blocks.
* `Tdxrs.StockBlock` — a block that is written.

## Main results

* `Tdxrs.parseBlock_eq` — the records of a file, with where they are read.
* `Tdxrs.parseBlock_file` — the round trip of a file.
* `Tdxrs.block_codes_apart_iff` — when codes stay in their blocks.
-/

namespace Tdxrs

/-! ## Where codes are read -/

/-- How many blocks a file says it has. -/
def numBlocks (data : Bytes) : ℕ := readU16 data headerSize

/-- Where a block begins. -/
def blockOffset (block : ℕ) : ℕ := headerSize + 2 + block * (13 + blockStockArea)

/-- How many stocks a block says it has. -/
def stockCount (data : Bytes) (block : ℕ) : ℕ := readU16 data (blockOffset block + 9)

/-- The type of a block. -/
def blockType (data : Bytes) (block : ℕ) : ℕ := readU16 data (blockOffset block + 11)

/-- The bytes of the header of a block. -/
def headerSpan (block : ℕ) : Finset ℕ := Finset.Ico (blockOffset block) (blockOffset block + 13)

/-- The bytes of the area of a block. -/
def areaSpan (block : ℕ) : Finset ℕ :=
  Finset.Ico (blockOffset block + 13) (blockOffset block + 13 + blockStockArea)

/-- Where the code of a block with an index is read. -/
def codeOffset (block codeIndex : ℕ) : ℕ := blockOffset block + 13 + codeSize * codeIndex

/-- The bytes of a code, given by its block and its index. -/
def codeSpan (c : ℕ × ℕ) : Finset ℕ :=
  Finset.Ico (codeOffset c.1 c.2) (codeOffset c.1 c.2 + codeSize)

/-- The codes that are read, in the order of reading: the blocks, and the indices in them. -/
def codesRead (data : Bytes) : List (ℕ × ℕ) :=
  (List.range (numBlocks data)).flatMap fun block =>
    if blockType data block = 2 then (List.range (stockCount data block)).map fun i => (block, i)
    else []

/-- What is made of a code: the name and the type are those of its block. -/
def recordRead (gbk : Bytes → Text) (data : Bytes) (c : ℕ × ℕ) : BlockRecord where
  blockname := trimEndNul (gbk ((data.drop (blockOffset c.1)).take 9))
  blockType := blockType data c.1
  codeIndex := c.2
  code := trimEndNul (gbk ((data.drop (codeOffset c.1 c.2)).take codeSize))

/-- Codes stay in the areas of their blocks, so that no byte is read for codes of two blocks, or for
a code and a header, and there are at most 400 codes of a block. -/
structure CodesApart (data : Bytes) : Prop where
  inside : ∀ c ∈ codesRead data, codeSpan c ⊆ areaSpan c.1
  blocks : ∀ c ∈ codesRead data, ∀ c' ∈ codesRead data, c.1 ≠ c'.1 →
    Disjoint (codeSpan c) (codeSpan c')
  headers : ∀ c ∈ codesRead data, ∀ block < numBlocks data,
    Disjoint (codeSpan c) (headerSpan block)
  few : ∀ block, ((codesRead data).filter fun c => c.1 = block).length ≤ 400

/-- No block whose stocks are read says that it has more than 400. -/
def CountsFit (data : Bytes) : Prop :=
  ∀ block < numBlocks data, blockType data block = 2 → stockCount data block ≤ 400

instance (data : Bytes) : Decidable (CountsFit data) :=
  inferInstanceAs (Decidable (∀ block < _, _))

/-! ## The records of a file -/

variable {gbk : Bytes → Text} {data : Bytes}

/-- Where the next block begins. -/
lemma blockOffset_succ (block : ℕ) :
    blockOffset (block + 1) = blockOffset block + 13 + blockStockArea := by
  unfold blockOffset
  ring

/-- Where the next code is read. -/
lemma codeOffset_succ (block codeIndex : ℕ) :
    codeOffset block (codeIndex + 1) = codeOffset block codeIndex + codeSize := by
  unfold codeOffset
  ring

/-- The stocks of a block that are left, with where they are read.

**Proof sketch.** Induction on the stocks that are left, for any index to go on from: the next code
stands one code further on (`codeOffset_succ`). -/
lemma blockStocks_eq {block left : ℕ} {result : List BlockRecord} : ∀ {codeIndex : ℕ},
    blockStocks gbk data (trimEndNul (gbk ((data.drop (blockOffset block)).take 9)))
        (blockType data block) left codeIndex (codeOffset block codeIndex) = .ok result →
      result = (List.range' codeIndex left).map fun i => recordRead gbk data (block, i) := by
  induction left generalizing result with
  | zero =>
    intro codeIndex h
    exact (Except.ok.inj h).symm
  | succ left ih =>
    intro codeIndex h
    rw [blockStocks] at h
    split at h
    · cases h
    · rw [← codeOffset_succ] at h
      rcases hrest : blockStocks gbk data
          (trimEndNul (gbk ((data.drop (blockOffset block)).take 9))) (blockType data block) left
          (codeIndex + 1) (codeOffset block (codeIndex + 1)) with e | rest <;> rw [hrest] at h
      · cases h
      · rw [← Except.ok.inj h, ih hrest]
        rfl

/-- A block whose stocks are read, and the blocks behind it. -/
lemma blocks_stocks_eq_ok {left pos : ℕ} {result : List BlockRecord}
    (hlong : ¬ data.length < pos + 9 + 4) (htype : readU16 data (pos + 11) = 2) :
    blocks gbk data (left + 1) pos = .ok result ↔
      ∃ stocks rest,
        blockStocks gbk data (trimEndNul (gbk ((data.drop pos).take 9))) (readU16 data (pos + 11))
          (readU16 data (pos + 9)) 0 (pos + 13) = .ok stocks ∧
        blocks gbk data left (pos + 13 + blockStockArea) = .ok rest ∧ result = stocks ++ rest := by
  rw [blocks, if_neg hlong]
  refine (Eq.congr_left (if_neg (not_not.mpr htype))).trans ?_
  rcases blockStocks gbk data (trimEndNul (gbk ((data.drop pos).take 9)))
    (readU16 data (pos + 11)) (readU16 data (pos + 9)) 0 (pos + 13) with e | stocks
  · simp
  · rcases blocks gbk data left (pos + 13 + blockStockArea) with e | rest <;> simp [eq_comm]

/-- A block that is passed over. -/
lemma blocks_other {left pos : ℕ} (hlong : ¬ data.length < pos + 9 + 4)
    (htype : readU16 data (pos + 11) ≠ 2) :
    blocks gbk data (left + 1) pos = blocks gbk data left (pos + 13 + blockStockArea) := by
  rw [blocks, if_neg hlong]
  exact if_pos htype

/-- The blocks that are left, with where their codes are read.

**Proof sketch.** Induction on the blocks that are left: one of the type that is read gives its
stocks (`blockStocks_eq`), any other gives none, and the next block starts where the area ends
(`blockOffset_succ`). -/
lemma blocks_eq {left : ℕ} {result : List BlockRecord} : ∀ {block : ℕ},
    blocks gbk data left (blockOffset block) = .ok result →
      result = ((List.range' block left).flatMap fun block =>
        if blockType data block = 2 then
          (List.range (stockCount data block)).map fun i => (block, i)
        else []).map (recordRead gbk data) := by
  induction left generalizing result with
  | zero =>
    intro block h
    exact (Except.ok.inj h).symm
  | succ left ih =>
    intro block h
    by_cases hlong : data.length < blockOffset block + 9 + 4
    · rw [blocks, if_pos hlong] at h
      cases h
    · rw [List.range'_succ, List.flatMap_cons, List.map_append]
      by_cases htype : blockType data block = 2
      · obtain ⟨stocks, rest, hstocks, hrest, rfl⟩ := (blocks_stocks_eq_ok hlong htype).mp h
        rw [← blockOffset_succ] at hrest
        rw [blockStocks_eq hstocks, ih hrest, if_pos htype, List.map_map, List.range_eq_range']
        rfl
      · rw [blocks_other hlong htype, ← blockOffset_succ] at h
        rw [if_neg htype, List.map_nil, List.nil_append]
        exact ih h

/-- **The records of a file**, with where they are read. -/
theorem parseBlock_eq {result : List BlockRecord} (h : parseBlock gbk data = .ok result) :
    result = (codesRead data).map (recordRead gbk data) := by
  rw [parseBlock] at h
  split at h
  · cases h
  · have hfirst : blockOffset 0 = headerSize + 2 := by simp [blockOffset]
    rw [← hfirst] at h
    rw [codesRead, List.range_eq_range']
    exact blocks_eq h

/-! ## When codes stay in their blocks -/

/-- The codes that are read: those of the blocks of the type that is read, as many as the count
says.

**Proof sketch.** A code is one of a block and a place in it; the block is of the right type or has
no codes read. -/
lemma mem_codesRead {c : ℕ × ℕ} :
    c ∈ codesRead data ↔
      c.1 < numBlocks data ∧ blockType data c.1 = 2 ∧ c.2 < stockCount data c.1 := by
  obtain ⟨block, i⟩ := c
  rw [codesRead, List.mem_flatMap]
  constructor
  · rintro ⟨block', hblock, hi⟩
    split at hi
    · rename_i htype
      obtain ⟨i', hi', heq⟩ := List.mem_map.mp hi
      obtain ⟨rfl, rfl⟩ := Prod.mk.inj heq
      exact ⟨List.mem_range.mp hblock, htype, List.mem_range.mp hi'⟩
    · exact absurd hi List.not_mem_nil
  · rintro ⟨hblock, htype, hi⟩
    refine ⟨block, List.mem_range.mpr hblock, ?_⟩
    rw [if_pos htype]
    exact List.mem_map_of_mem (List.mem_range.mpr hi)

/-- A code with one of the first 400 indices is in the area of its block. -/
lemma codeSpan_subset {c : ℕ × ℕ} (hc : c.2 < 400) : codeSpan c ⊆ areaSpan c.1 := by
  refine Finset.Ico_subset_Ico ?_ ?_
  · exact Nat.le_add_right _ _
  · unfold codeOffset codeSize blockStockArea
    omega

/-- The area of a block with none of the bytes of another block. -/
lemma disjoint_area {block block' : ℕ} (hne : block ≠ block') :
    Disjoint (areaSpan block) (headerSpan block' ∪ areaSpan block') := by
  rw [Finset.disjoint_left]
  intro p hp hp'
  simp only [areaSpan, headerSpan, Finset.mem_union, Finset.mem_Ico, blockOffset, headerSize,
    blockStockArea] at hp hp'
  omega

/-- The header of a block has none of the bytes of its area. -/
lemma disjoint_header (block : ℕ) : Disjoint (areaSpan block) (headerSpan block) := by
  rw [Finset.disjoint_left]
  intro p hp hp'
  simp only [areaSpan, headerSpan, Finset.mem_Ico] at hp hp'
  omega

/-- How many codes of a block are read.

**Proof sketch.** By induction on the number of blocks. The last block is the one in question, whose
codes are all counted, or another one, of whose codes none is. -/
lemma filter_codesRead (block : ℕ) :
    ((codesRead data).filter fun c => c.1 = block).length =
      if block < numBlocks data ∧ blockType data block = 2 then stockCount data block else 0 := by
  rw [codesRead]
  induction numBlocks data with
  | zero => simp
  | succ n ih =>
    rw [List.range_succ, List.flatMap_append, List.filter_append, List.length_append, ih,
      List.flatMap_singleton]
    by_cases hlast : block = n
    · subst hlast
      by_cases htype : blockType data block = 2 <;> simp [htype, List.filter_map, Function.comp_def]
    · have hlt : block < n + 1 ↔ block < n := by omega
      by_cases htype : blockType data n = 2 <;>
        simp [htype, hlt, Ne.symm hlast, List.filter_map, Function.comp_def]

/-- **Codes stay in their blocks** exactly if no count is above 400.

**Proof sketch.** Codes that are apart are at most 400 to a block, because no more than these fit
into its area. Conversely a code with an index below 400 lies inside the area of its block
(`codeSpan_subset`); areas of different blocks are disjoint, and an area is disjoint from the header
in front of it. -/
lemma codesApart_iff : CodesApart data ↔ CountsFit data := by
  constructor
  · intro h block hblock htype
    have hfew := h.few block
    rwa [filter_codesRead, if_pos ⟨hblock, htype⟩] at hfew
  · intro h
    have hinside : ∀ c ∈ codesRead data, codeSpan c ⊆ areaSpan c.1 := by
      intro c hc
      obtain ⟨hblock, htype, hi⟩ := mem_codesRead.mp hc
      exact codeSpan_subset (lt_of_lt_of_le hi (h c.1 hblock htype))
    refine ⟨hinside, fun c hc c' hc' hne => ?_, fun c hc block _ => ?_, fun block => ?_⟩
    · exact (disjoint_area hne).mono (hinside c hc)
        ((hinside c' hc').trans Finset.subset_union_right)
    · by_cases hsame : c.1 = block
      · rw [← hsame]
        exact (disjoint_header c.1).mono_left (hinside c hc)
      · exact (disjoint_area hsame).mono (hinside c hc) Finset.subset_union_left
    · rw [filter_codesRead]
      split
      · rename_i hread
        exact h block hread.1 hread.2
      · exact Nat.zero_le _

/-! ## Files -/

/-- A text for a field of `width` bytes. Its encoding fits into the field, and is decoded back, also
with zero bytes behind it. -/
structure GbkText (gbk : Bytes → Text) (width : ℕ) where
  text : Text
  encoded : Bytes
  fits : encoded.length ≤ width
  trimmed : text.getLast? ≠ some '\x00'
  decoded : ∀ k, gbk (encoded ++ List.replicate k 0) = text ++ List.replicate k '\x00'

/-- The field. -/
def GbkText.bytes {width : ℕ} (t : GbkText gbk width) : Bytes :=
  t.encoded ++ List.replicate (width - t.encoded.length) 0

/-- A block with at most 400 stocks. -/
structure StockBlock (gbk : Bytes → Text) where
  name : GbkText gbk 9
  blockType : UInt16
  codes : List (GbkText gbk codeSize)
  few : codes.length ≤ 400

namespace StockBlock

variable (b : StockBlock gbk)

/-- The bytes of a block: its header, and its codes in an area that is filled up with zeros. -/
def bytes : Bytes :=
  b.name.bytes ++ LittleEndian.toLE 2 b.codes.length ++ LittleEndian.toLE 2 b.blockType.toNat ++
    (b.codes.flatMap GbkText.bytes ++
      List.replicate (blockStockArea - codeSize * b.codes.length) 0)

/-- What is to be read back. -/
def records : List BlockRecord :=
  if b.blockType = 2 then
    b.codes.zipIdx.map fun (code, i) => ⟨b.name.text, 2, i, code.text⟩
  else []

end StockBlock

/-- The bytes of a file with a header and blocks. -/
def blockFile (header : Bytes) (bs : List (StockBlock gbk)) : Bytes :=
  header ++ (LittleEndian.toLE 2 bs.length ++ bs.flatMap StockBlock.bytes)

lemma GbkText.length_bytes {width : ℕ} (t : GbkText gbk width) : t.bytes.length = width := by
  have hfits := t.fits
  rw [bytes, List.length_append, List.length_replicate]
  omega

/-- The text of a field. -/
lemma GbkText.trim_bytes {width : ℕ} (t : GbkText gbk width) :
    trimEndNul (gbk t.bytes) = t.text := by
  rw [bytes, t.decoded, trimEndNul_append t.trimmed]

lemma StockBlock.length_bytes (b : StockBlock gbk) : b.bytes.length = 13 + blockStockArea := by
  have hcodes : (b.codes.flatMap GbkText.bytes).length = codeSize * b.codes.length := by
    simp [List.length_flatMap, GbkText.length_bytes, Nat.mul_comm]
  have hroom : codeSize * b.codes.length ≤ blockStockArea := Nat.mul_le_mul_left codeSize b.few
  simp only [bytes, List.length_append, GbkText.length_bytes, LittleEndian.length_toLE, hcodes,
    List.length_replicate]
  omega

/-! ## Reading a file back -/

/-- A number that stands at a position. -/
lemma readU16_of_at {pos n : ℕ} (h : Pieces.At data pos (LittleEndian.toLE 2 n))
    (hn : n < 2 ^ 16) : readU16 data pos = n := by
  obtain ⟨rest, hrest⟩ := h
  exact readU16_of_drop hrest.symm hn

/-- Codes that stand one after the other. -/
lemma blockStocks_of_at (blockName : Text) (type : ℕ) {codes : List (GbkText gbk codeSize)} :
    ∀ (codeIndex : ℕ) {pos : ℕ}, pos ≤ data.length →
      Pieces.At data pos (codes.flatMap GbkText.bytes) →
      blockStocks gbk data blockName type codes.length codeIndex pos =
        .ok ((codes.zipIdx codeIndex).map fun (code, i) => ⟨blockName, type, i, code.text⟩) := by
  induction codes with
  | nil => exact fun _ _ _ _ => rfl
  | cons code codes ih =>
    intro codeIndex pos hpos h
    obtain ⟨hfirst, hrest⟩ := Pieces.at_append_iff.mp h
    have hend := hfirst.length_le hpos
    have htake := hfirst.take_drop
    rw [code.length_bytes] at hrest hend htake
    rw [List.length_cons, blockStocks, if_neg (not_lt.mpr hend), ih _ hend hrest, htake,
      code.trim_bytes, List.zipIdx_cons, List.map_cons]

/-- Blocks that stand one after the other.

**Proof sketch.** Induction on the blocks. The pieces of the first one stand where the parser reads
them: name, count, type and codes, of which at most 400 fill the area together with the padding, so
the next block starts at its end. -/
lemma blocks_of_at {bs : List (StockBlock gbk)} :
    ∀ {pos : ℕ}, pos ≤ data.length → Pieces.At data pos (bs.flatMap StockBlock.bytes) →
      blocks gbk data bs.length pos = .ok (bs.flatMap StockBlock.records) := by
  induction bs with
  | nil => exact fun _ _ => rfl
  | cons b bs ih =>
    intro pos hpos h
    obtain ⟨hfirst, hrest⟩ := Pieces.at_append_iff.mp h
    have hend := hfirst.length_le hpos
    rw [b.length_bytes, ← Nat.add_assoc] at hrest hend
    simp only [StockBlock.bytes, Pieces.at_append_iff, List.length_append, GbkText.length_bytes,
      LittleEndian.length_toLE] at hfirst
    obtain ⟨⟨⟨hname, hcount⟩, htype⟩, hcodes, -⟩ := hfirst
    have hfew := b.few
    have hheader : pos + 13 ≤ data.length := by omega
    have hnext := ih hend hrest
    have hstocks := blockStocks_of_at b.name.text 2 0 hheader hcodes
    have htext := hname.take_drop
    rw [b.name.length_bytes] at htext
    have hblock := readU16_of_at htype b.blockType.toNat_lt
    rw [List.length_cons, List.flatMap_cons, StockBlock.records]
    by_cases hkind : b.blockType = 2
    · rw [hkind] at hblock
      have hread : blockStocks gbk data (trimEndNul (gbk ((data.drop pos).take 9)))
          (readU16 data (pos + 11)) (readU16 data (pos + 9)) 0 (pos + 13) =
            .ok (b.codes.zipIdx.map fun (code, i) => ⟨b.name.text, 2, i, code.text⟩) := by
        rw [htext, b.name.trim_bytes, readU16_of_at hcount (by omega), hblock]
        exact hstocks
      rw [if_pos hkind]
      exact (blocks_stocks_eq_ok (not_lt.mpr hheader) hblock).mpr ⟨_, _, hread, hnext, rfl⟩
    · have hother : b.blockType.toNat ≠ 2 := fun h => hkind (UInt16.toNat_inj.mp h)
      rw [← hblock] at hother
      rw [blocks_other (not_lt.mpr hheader) hother, if_neg hkind, List.nil_append]
      exact hnext

/-- **The round trip of a file**: the stocks of the blocks of type 2, in order, each with its index
in its block. -/
theorem parseBlock_file {header : Bytes} (hheader : header.length = headerSize)
    {bs : List (StockBlock gbk)} (hcount : bs.length < 2 ^ 16)
    (h : Pieces.At data 0 (blockFile header bs)) :
    parseBlock gbk data = .ok (bs.flatMap StockBlock.records) := by
  have hlength := h.length_le (Nat.zero_le _)
  rw [blockFile, Pieces.at_append_iff, Pieces.at_append_iff, LittleEndian.length_toLE, hheader,
    Nat.zero_add] at h
  rw [blockFile, List.length_append, List.length_append, LittleEndian.length_toLE, hheader]
    at hlength
  obtain ⟨-, hnumber, hblocks⟩ := h
  have hlong : headerSize + 2 ≤ data.length := by omega
  rw [parseBlock, if_neg (not_lt.mpr hlong), readU16_of_at hnumber hcount]
  exact blocks_of_at hlong hblocks

/-- **When the codes of a file stay in their blocks**, for every file that is read: exactly if no
block of type 2 says that it has more than 400 stocks. For every list of blocks with at most 400
stocks, the file that is written is read back.

**Proof sketch.** Codes are read one after the other from the beginning of the area on, and the area
has room for 400. -/
theorem block_codes_apart_iff (gbk : Bytes → Text) (data : Bytes) :
    ((∀ result, parseBlock gbk data = .ok result →
        result = (codesRead data).map (recordRead gbk data) ∧ CodesApart data) ↔
      (BlocksFit data → CountsFit data)) ∧
    ∀ (header : Bytes) (bs : List (StockBlock gbk)), header.length = headerSize →
      bs.length < 2 ^ 16 →
        parseBlock gbk (blockFile header bs) = .ok (bs.flatMap StockBlock.records) := by
  refine ⟨?_, fun header bs hheader hcount =>
    parseBlock_file hheader hcount (by rw [Pieces.At, List.drop_zero])⟩
  rw [← parseBlock_ok_iff gbk, ← codesApart_iff]
  constructor
  · rintro h ⟨result, hresult⟩
    exact (h result hresult).2
  · exact fun h result hresult => ⟨parseBlock_eq hresult, h ⟨result, hresult⟩⟩

/-! ### Two files -/

/-- A text of ASCII characters for a field. -/
def asciiField (width : ℕ) (bytes : Bytes) (hfits : bytes.length ≤ width)
    (htrimmed : (asciiText bytes).getLast? ≠ some '\x00') : GbkText asciiText width where
  text := asciiText bytes
  encoded := bytes
  fits := hfits
  trimmed := htrimmed
  decoded k := by
    rw [asciiText, List.map_append, List.map_replicate]
    rfl

/-- A block of the type 3, which is passed over, and a block with two stocks. -/
def twoBlocks : List (StockBlock asciiText) :=
  [⟨asciiField 9 [0x58] (by decide) (by decide), 3,
      [asciiField 7 [0x31] (by decide) (by decide)], by decide⟩,
    ⟨asciiField 9 [0x54, 0x65, 0x73, 0x74] (by decide) (by decide), 2,
      [asciiField 7 [0x36, 0x30, 0x30, 0x35, 0x31, 0x39] (by decide) (by decide),
        asciiField 7 [0x30, 0x30, 0x30, 0x38, 0x35, 0x38] (by decide) (by decide)], by decide⟩]

/-- The two stocks are read back. -/
theorem block_codes_apart_file :
    parseBlock asciiText (blockFile (List.replicate 384 0) twoBlocks) =
      .ok [⟨"Test".toList, 2, 0, "600519".toList⟩, ⟨"Test".toList, 2, 1, "000858".toList⟩] :=
  (block_codes_apart_iff asciiText []).2 (List.replicate 384 0) twoBlocks List.length_replicate
    (by decide)

/-- A file of two blocks of type 2, the first of which says that it has 401 stocks. -/
def overfullFile : Bytes :=
  List.replicate 384 0 ++ [2, 0] ++ List.replicate 9 0 ++ [0x91, 1, 2, 0] ++
    List.replicate 2800 0 ++ List.replicate 9 0 ++ [0, 0, 2, 0] ++ List.replicate 2800 0

/-- **The 401st code** of the first block is read from the header of the second one. -/
theorem block_codes_overlap :
    ¬ ∀ (gbk : Bytes → Text) (data : Bytes) (result : List BlockRecord),
      parseBlock gbk data = .ok result →
        result = (codesRead data).map (recordRead gbk data) ∧ CodesApart data := by
  intro h
  have hfits : BlocksFit overfullFile := by decide +kernel
  have hcounts : ¬ CountsFit overfullFile := by decide +kernel
  obtain ⟨result, hresult⟩ := (parseBlock_ok_iff asciiText).mpr hfits
  exact hcounts (codesApart_iff.mp (h asciiText overfullFile result hresult).2)

end Tdxrs
