import Tdxrs.Protocol.Codes
import Tdxrs.Protocol.Parsers

set_option relaxedAutoImplicit false
set_option autoImplicit false

/-!
# Reading block files

`parse_block` of `src/reader/block.rs`. A file has a header, the number of its blocks and then the
blocks, each in a place of the same size: a name, the number of its stocks, its type and the codes
of the stocks. Blocks of another type than 2 are passed over. The parser checks that what it reads
is there, and nothing else about it: names and codes are whatever stands in their places.

## Main definitions

* `Tdxrs.parseBlock` — the records of a file.
* `Tdxrs.BlocksFit` — everything that is read is there.

## Main results

* `Tdxrs.parseBlock_ok_iff` — a file is read exactly if everything that is read is there.
* `Tdxrs.parseBlock_append` — what stands behind it does not matter.
-/

namespace Tdxrs

/-- One stock of one block. -/
structure BlockRecord where
  blockname : Text
  blockType : ℕ
  codeIndex : ℕ
  code : Text
deriving DecidableEq

def headerSize : ℕ := 384
def codeSize : ℕ := 7
def blockStockArea : ℕ := 2800

/-- The stocks of a block that are left, from an index and a position on. -/
def blockStocks (gbk : Bytes → Text) (data : Bytes) (blockName : Text) (blockType : ℕ) :
    ℕ → ℕ → ℕ → Except TdxError (List BlockRecord)
  | 0, _, _ => .ok []
  | left + 1, codeIndex, pos =>
    if data.length < pos + codeSize then .error (.invalidData "Truncated stock code")
    else
      match blockStocks gbk data blockName blockType left (codeIndex + 1) (pos + codeSize) with
      | .error e => .error e
      | .ok result =>
        .ok (⟨blockName, blockType, codeIndex, trimEndNul (gbk ((data.drop pos).take codeSize))⟩ ::
          result)

/-- The blocks that are left, from a position on. -/
def blocks (gbk : Bytes → Text) (data : Bytes) : ℕ → ℕ → Except TdxError (List BlockRecord)
  | 0, _ => .ok []
  | left + 1, pos =>
    if data.length < pos + 9 + 4 then .error (.invalidData "Truncated block header")
    else
      let blockName := trimEndNul (gbk ((data.drop pos).take 9))
      let stockCount := readU16 data (pos + 9)
      let blockType := readU16 data (pos + 11)
      if blockType ≠ 2 then blocks gbk data left (pos + 13 + blockStockArea)
      else
        match blockStocks gbk data blockName blockType stockCount 0 (pos + 13) with
        | .error e => .error e
        | .ok stocks =>
          match blocks gbk data left (pos + 13 + blockStockArea) with
          | .error e => .error e
          | .ok result => .ok (stocks ++ result)

/-- Parses a block file. -/
def parseBlock (gbk : Bytes → Text) (data : Bytes) : Except TdxError (List BlockRecord) :=
  if data.length < headerSize + 2 then .error (.invalidData "Block file too small")
  else blocks gbk data (readU16 data headerSize) (headerSize + 2)

/-! ## When a file is read -/

/-- The block at a position is there as far as it is read. -/
def BlockFits (data : Bytes) (pos : ℕ) : Prop :=
  pos + 13 ≤ data.length ∧
    (readU16 data (pos + 11) = 2 → pos + 13 + codeSize * readU16 data (pos + 9) ≤ data.length)

instance (data : Bytes) (pos : ℕ) : Decidable (BlockFits data pos) :=
  inferInstanceAs (Decidable (_ ∧ _))

/-- The file has its header, and each of the blocks that it says it has is there as far as it is
read. -/
def BlocksFit (data : Bytes) : Prop :=
  headerSize + 2 ≤ data.length ∧ ∀ block < readU16 data headerSize,
    BlockFits data (headerSize + 2 + block * (13 + blockStockArea))

instance (data : Bytes) : Decidable (BlocksFit data) := inferInstanceAs (Decidable (_ ∧ _))

variable {gbk : Bytes → Text} {data : Bytes}

/-- The stocks of a block are read exactly if they are there.

**Proof sketch.** Induction on the stocks that are left: if the next code is not all there neither
are the others, and if it is, they are read seven bytes further on. -/
lemma blockStocks_ok_iff {blockName : Text} {blockType left codeIndex pos : ℕ}
    (hpos : pos ≤ data.length) :
    (∃ result, blockStocks gbk data blockName blockType left codeIndex pos = .ok result) ↔
      pos + codeSize * left ≤ data.length := by
  induction left generalizing codeIndex pos with
  | zero => exact iff_of_true ⟨[], rfl⟩ hpos
  | succ left ih =>
    rw [blockStocks]
    split
    · rename_i hshort
      refine iff_of_false (fun ⟨_, h⟩ => nomatch h) fun hall => ?_
      rw [Nat.mul_succ] at hall
      omega
    · rename_i hthere
      have hrest : (∃ result, blockStocks gbk data blockName blockType left (codeIndex + 1)
          (pos + codeSize) = .ok result) ↔ pos + codeSize + codeSize * left ≤ data.length :=
        ih (not_lt.mp hthere)
      rw [show pos + codeSize * (left + 1) = pos + codeSize + codeSize * left by ring, ← hrest]
      rcases blockStocks gbk data blockName blockType left (codeIndex + 1) (pos + codeSize) with
        e | result
      · exact iff_of_false (fun ⟨_, h⟩ => nomatch h) fun ⟨_, h⟩ => nomatch h
      · exact iff_of_true ⟨_, rfl⟩ ⟨result, rfl⟩

/-- The blocks are read exactly if they are there as far as they are read.

**Proof sketch.** Induction on the blocks that are left. The first one must have its header, and, if
it is of the type that is read, its stocks (`blockStocks_ok_iff`); the others start where the area
of the first one ends, whatever its count says. -/
lemma blocks_ok_iff (left pos : ℕ) :
    (∃ result, blocks gbk data left pos = .ok result) ↔
      ∀ block < left, BlockFits data (pos + block * (13 + blockStockArea)) := by
  induction left generalizing pos with
  | zero => exact iff_of_true ⟨[], rfl⟩ fun block hblock => absurd hblock (Nat.not_lt_zero block)
  | succ left ih =>
    have hrest : (∃ result, blocks gbk data left (pos + 13 + blockStockArea) = .ok result) ↔
        ∀ block < left, BlockFits data (pos + (block + 1) * (13 + blockStockArea)) := by
      rw [ih]
      refine forall₂_congr fun block _ => ?_
      rw [show pos + 13 + blockStockArea + block * (13 + blockStockArea) =
        pos + (block + 1) * (13 + blockStockArea) by ring]
    have hfirst : (∀ block < left + 1, BlockFits data (pos + block * (13 + blockStockArea))) ↔
        BlockFits data pos ∧
          ∃ result, blocks gbk data left (pos + 13 + blockStockArea) = .ok result := by
      rw [hrest, Nat.forall_lt_succ_left', Nat.zero_mul, Nat.add_zero]
    rw [hfirst, blocks, BlockFits]
    split
    · rename_i hshort
      exact iff_of_false (fun ⟨_, h⟩ => nomatch h) fun ⟨hfits, _⟩ => absurd hfits.1 (by omega)
    · rename_i hthere
      have hthere : pos + 13 ≤ data.length := not_lt.mp hthere
      show (∃ result, (if readU16 data (pos + 11) ≠ 2 then _ else _) = _) ↔ _
      split
      · rename_i htype
        exact (and_iff_right ⟨hthere, fun h => absurd h htype⟩).symm
      · rename_i htype
        rw [and_iff_right hthere, imp_iff_right (not_not.mp htype), ← blockStocks_ok_iff hthere]
        rcases blockStocks gbk data _ _ _ 0 (pos + 13) with e | stocks
        · exact iff_of_false (fun ⟨_, h⟩ => nomatch h) fun h => h.1.elim fun _ h => nomatch h
        · rw [and_iff_right ⟨stocks, rfl⟩]
          rcases blocks gbk data left (pos + 13 + blockStockArea) with e | result
          · exact iff_of_false (fun ⟨_, h⟩ => nomatch h) fun ⟨_, h⟩ => nomatch h
          · exact iff_of_true ⟨_, rfl⟩ ⟨result, rfl⟩

variable (gbk) in
/-- **A file is read** exactly if everything that is read is there. -/
theorem parseBlock_ok_iff : (∃ result, parseBlock gbk data = .ok result) ↔ BlocksFit data := by
  rw [parseBlock, BlocksFit]
  split
  · rename_i hshort
    exact iff_of_false (fun ⟨_, h⟩ => nomatch h) fun h => absurd h.1 (not_le.mpr hshort)
  · rename_i hthere
    rw [and_iff_right (not_lt.mp hthere)]
    exact blocks_ok_iff _ _

/-- Otherwise there is an error. -/
lemma parseBlock_error_iff : (∃ e, parseBlock gbk data = .error e) ↔ ¬ BlocksFit data := by
  rw [← parseBlock_ok_iff gbk]
  rcases parseBlock gbk data with e | result
  · exact iff_of_true ⟨e, rfl⟩ fun ⟨_, h⟩ => nomatch h
  · exact iff_of_false (fun ⟨_, h⟩ => nomatch h) fun h => h ⟨result, rfl⟩

/-! ## What stands behind -/

/-- A number inside the first part of a file. -/
lemma readU16_append {pos : ℕ} (rest : Bytes) (hpos : pos + 2 ≤ data.length) :
    readU16 (data ++ rest) pos = readU16 data pos := by
  rw [readU16, readU16, List.length_append, if_neg (by omega), if_neg (by omega),
    LittleEndian.field_append_left rest hpos]

/-- Bytes inside the first part of a file. -/
lemma take_drop_append {pos count : ℕ} (rest : Bytes) (hpos : pos + count ≤ data.length) :
    ((data ++ rest).drop pos).take count = (data.drop pos).take count := by
  rw [List.drop_append_of_le_length (by omega), List.take_append_of_le_length]
  rw [List.length_drop]
  omega

lemma blockStocks_append (rest : Bytes) {blockName : Text} {blockType left codeIndex pos : ℕ}
    (hpos : pos + codeSize * left ≤ data.length) :
    blockStocks gbk (data ++ rest) blockName blockType left codeIndex pos =
      blockStocks gbk data blockName blockType left codeIndex pos := by
  induction left generalizing codeIndex pos with
  | zero => rfl
  | succ left ih =>
    rw [show pos + codeSize * (left + 1) = pos + codeSize + codeSize * left by ring] at hpos
    rw [blockStocks, blockStocks, ih hpos, take_drop_append rest (by omega), List.length_append,
      if_neg (by omega), if_neg (by omega)]

/-- What follows the blocks does not matter.

**Proof sketch.** Induction on the blocks that are left: header and stocks of a block that fits are
read from the same bytes. -/
lemma blocks_append (rest : Bytes) (left : ℕ) {pos : ℕ}
    (hfits : ∀ block < left, BlockFits data (pos + block * (13 + blockStockArea))) :
    blocks gbk (data ++ rest) left pos = blocks gbk data left pos := by
  induction left generalizing pos with
  | zero => rfl
  | succ left ih =>
    rw [Nat.forall_lt_succ_left', Nat.zero_mul, Nat.add_zero] at hfits
    obtain ⟨⟨hthere, hstocks⟩, hrest⟩ := hfits
    have hnext : blocks gbk (data ++ rest) left (pos + 13 + blockStockArea) =
        blocks gbk data left (pos + 13 + blockStockArea) := ih fun block hblock => by
      rw [show pos + 13 + blockStockArea + block * (13 + blockStockArea) =
        pos + (block + 1) * (13 + blockStockArea) by ring]
      exact hrest block hblock
    have hlong : pos + 13 ≤ (data ++ rest).length := hthere.trans (by simp)
    rw [blocks, blocks, if_neg (not_lt.mpr hlong), if_neg (not_lt.mpr hthere), hnext,
      take_drop_append rest (by omega), readU16_append rest (by omega : pos + 9 + 2 ≤ data.length),
      readU16_append rest (by omega : pos + 11 + 2 ≤ data.length)]
    by_cases htype : readU16 data (pos + 11) = 2
    · simp only [blockStocks_append rest (hstocks htype)]
    · exact (if_pos htype).trans (if_pos htype).symm

/-- **What stands behind a file that is read** does not matter. -/
theorem parseBlock_append (rest : Bytes) (h : BlocksFit data) :
    parseBlock gbk (data ++ rest) = parseBlock gbk data := by
  have hlong : headerSize + 2 ≤ (data ++ rest).length := h.1.trans (by simp)
  rw [parseBlock, parseBlock, if_neg (not_lt.mpr hlong), if_neg (not_lt.mpr h.1),
    readU16_append rest h.1, blocks_append rest _ h.2]

end Tdxrs
