import Tdxrs.Reader.Block

set_option relaxedAutoImplicit false
set_option autoImplicit false

/-!
# Block files in groups

`parse_block_group` of `src/reader/block.rs` reads the files that `parse_block` reads, in two loops
of its own, and gives one group for each block: its name, its type, the number of its stocks and
their codes with commas between them. The loops are modelled with what is pushed for a block as a
parameter, so that the codes can be looked at before they are joined.

## Main definitions

* `Tdxrs.parseBlockGroup` — the groups of a file.
* `Tdxrs.codedGroups` — the groups before their codes are joined.

## Main results

* `Tdxrs.block_parsers_agree` — the two parsers agree.
-/

namespace Tdxrs

/-- The stocks of one block. -/
structure BlockGroup where
  blockname : Text
  blockType : ℕ
  stockCount : ℕ
  codeList : Text
deriving DecidableEq

/-- The codes of a block that are left, from a position on. -/
def groupCodes (gbk : Bytes → Text) (data : Bytes) : ℕ → ℕ → Except TdxError (List Text)
  | 0, _ => .ok []
  | left + 1, pos =>
    if data.length < pos + codeSize then .error (.invalidData "Truncated stock code")
    else
      match groupCodes gbk data left (pos + codeSize) with
      | .error e => .error e
      | .ok codes => .ok (trimEndNul (gbk ((data.drop pos).take codeSize)) :: codes)

/-- The groups that are left, from a position on. For each block that is not passed over, a group is
made of its name, its type, the number of its stocks and their codes. -/
def blockGroups {γ : Type} (push : Text → ℕ → ℕ → List Text → γ) (gbk : Bytes → Text)
    (data : Bytes) : ℕ → ℕ → Except TdxError (List γ)
  | 0, _ => .ok []
  | left + 1, pos =>
    if data.length < pos + 9 + 4 then .error (.invalidData "Truncated block header")
    else
      let blockName := trimEndNul (gbk ((data.drop pos).take 9))
      let stockCount := readU16 data (pos + 9)
      let blockType := readU16 data (pos + 11)
      if blockType ≠ 2 then blockGroups push gbk data left (pos + 13 + blockStockArea)
      else
        match groupCodes gbk data stockCount (pos + 13) with
        | .error e => .error e
        | .ok codes =>
          match blockGroups push gbk data left (pos + 13 + blockStockArea) with
          | .error e => .error e
          | .ok result => .ok (push blockName blockType stockCount codes :: result)

/-- Parses a block file into groups of what is made of each block. -/
def parseGroups {γ : Type} (push : Text → ℕ → ℕ → List Text → γ) (gbk : Bytes → Text)
    (data : Bytes) : Except TdxError (List γ) :=
  if data.length < headerSize + 2 then .error (.invalidData "Block file too small")
  else blockGroups push gbk data (readU16 data headerSize) (headerSize + 2)

/-- Texts with commas between them. -/
def joinCodes (codes : List Text) : Text := List.intercalate [','] codes

/-- Parses a block file into groups. -/
def parseBlockGroup (gbk : Bytes → Text) (data : Bytes) : Except TdxError (List BlockGroup) :=
  parseGroups (fun blockname blockType stockCount codes =>
    ⟨blockname, blockType, stockCount, joinCodes codes⟩) gbk data

/-! ## Groups before their codes are joined -/

/-- A group whose codes have not been joined. -/
structure CodedGroup where
  blockname : Text
  blockType : ℕ
  stockCount : ℕ
  codes : List Text
deriving DecidableEq

namespace CodedGroup

/-- The group that is returned. -/
def join (g : CodedGroup) : BlockGroup :=
  ⟨g.blockname, g.blockType, g.stockCount, joinCodes g.codes⟩

/-- The name, the type and the code of each stock of a group. -/
def stocks (g : CodedGroup) : List (Text × ℕ × Text) :=
  g.codes.map fun code => (g.blockname, g.blockType, code)

/-- The records of the stocks of a group. -/
def records (g : CodedGroup) : List BlockRecord :=
  g.codes.zipIdx.map fun (code, i) => ⟨g.blockname, g.blockType, i, code⟩

end CodedGroup

/-- The groups of a file before their codes are joined. -/
def codedGroups (gbk : Bytes → Text) (data : Bytes) : Except TdxError (List CodedGroup) :=
  parseGroups CodedGroup.mk gbk data

/-- A record without its index. -/
def BlockRecord.stock (r : BlockRecord) : Text × ℕ × Text := (r.blockname, r.blockType, r.code)

/-! ## The loops of the two parsers -/

variable {gbk : Bytes → Text} {data : Bytes}

/-- As many codes are read as there should be.

**Proof sketch.** By induction on the codes that are left; each round that succeeds reads one. -/
lemma length_groupCodes {left : ℕ} {codes : List Text} : ∀ {pos : ℕ},
    groupCodes gbk data left pos = .ok codes → codes.length = left := by
  induction left generalizing codes with
  | zero =>
    intro pos h
    rw [← Except.ok.inj h, List.length_nil]
  | succ left ih =>
    intro pos h
    rw [groupCodes] at h
    split at h
    · exact nomatch h
    · rcases hrest : groupCodes gbk data left (pos + codeSize) with e | rest <;> rw [hrest] at h
      · exact nomatch h
      · rw [← Except.ok.inj h, List.length_cons, ih hrest]

/-- **Inside a block** the two parsers read the same codes. -/
lemma blockStocks_eq_map (blockName : Text) (blockType left : ℕ) : ∀ codeIndex pos : ℕ,
    blockStocks gbk data blockName blockType left codeIndex pos =
      (groupCodes gbk data left pos).map fun codes =>
        (codes.zipIdx codeIndex).map fun (code, i) => ⟨blockName, blockType, i, code⟩ := by
  induction left with
  | zero => exact fun _ _ => rfl
  | succ left ih =>
    intro codeIndex pos
    rw [blockStocks, groupCodes, ih]
    split
    · rfl
    · rcases groupCodes gbk data left (pos + codeSize) with e | codes <;> rfl

/-- **From block to block** the two parsers go the same way.

**Proof sketch.** Induction on the blocks that are left: both parsers look at the same header, read
the same codes (`blockStocks_eq_map`) and go on at the same position. -/
lemma blocks_eq_map (left : ℕ) : ∀ pos : ℕ,
    blocks gbk data left pos =
      (blockGroups CodedGroup.mk gbk data left pos).map fun groups =>
        groups.flatMap CodedGroup.records := by
  induction left with
  | zero => exact fun _ => rfl
  | succ left ih =>
    intro pos
    rw [blocks, blockGroups]
    simp only [blockStocks_eq_map, ih]
    split
    · rfl
    split
    · rfl
    rcases groupCodes gbk data (readU16 data (pos + 9)) (pos + 13) with e | codes
    · rfl
    rcases blockGroups CodedGroup.mk gbk data left (pos + 13 + blockStockArea) with e | groups <;>
      rfl

/-- What is made of the blocks can be made of them afterwards.

**Proof sketch.** Induction on the blocks that are left; only what is made of a block differs
between the two sides. -/
lemma blockGroups_eq_map {γ : Type} (push : Text → ℕ → ℕ → List Text → γ) (left : ℕ) :
    ∀ pos : ℕ, blockGroups push gbk data left pos =
      (blockGroups CodedGroup.mk gbk data left pos).map fun groups =>
        groups.map fun g => push g.blockname g.blockType g.stockCount g.codes := by
  induction left with
  | zero => exact fun _ => rfl
  | succ left ih =>
    intro pos
    rw [blockGroups, blockGroups]
    simp only [ih]
    split
    · rfl
    split
    · rfl
    rcases groupCodes gbk data (readU16 data (pos + 9)) (pos + 13) with e | codes
    · rfl
    rcases blockGroups CodedGroup.mk gbk data left (pos + 13 + blockStockArea) with e | groups <;>
      rfl

/-- A group has as many codes as it says.

**Proof sketch.** Induction on the blocks that are left: the codes of a group are read by count
(`length_groupCodes`), and a block of another type makes no group. -/
lemma stockCount_of_mem {left : ℕ} {groups : List CodedGroup} : ∀ {pos : ℕ},
    blockGroups CodedGroup.mk gbk data left pos = .ok groups →
      ∀ g ∈ groups, g.stockCount = g.codes.length := by
  induction left generalizing groups with
  | zero =>
    intro pos h
    rw [← Except.ok.inj h]
    exact fun g hg => absurd hg List.not_mem_nil
  | succ left ih =>
    intro pos h
    rw [blockGroups] at h
    split at h
    · exact nomatch h
    simp only at h
    split at h
    · exact ih h
    rcases hcodes : groupCodes gbk data (readU16 data (pos + 9)) (pos + 13) with e | codes <;>
      rw [hcodes] at h
    · exact nomatch h
    rcases hrest : blockGroups CodedGroup.mk gbk data left (pos + 13 + blockStockArea) with
      e | rest <;> simp only [hrest] at h
    · exact nomatch h
    rw [← Except.ok.inj h, List.forall_mem_cons]
    exact ⟨(length_groupCodes hcodes).symm, ih hrest⟩

/-! ## The two parsers -/

variable (gbk data) in
lemma parseBlock_eq_map :
    parseBlock gbk data = (codedGroups gbk data).map fun groups =>
      groups.flatMap CodedGroup.records := by
  rw [parseBlock, codedGroups, parseGroups]
  split
  · rfl
  · exact blocks_eq_map _ _

variable (gbk data) in
lemma parseBlockGroup_eq_map :
    parseBlockGroup gbk data = (codedGroups gbk data).map fun groups =>
      groups.map CodedGroup.join := by
  rw [parseBlockGroup, codedGroups, parseGroups, parseGroups]
  split
  · rfl
  · exact blockGroups_eq_map _ _ _

/-- The stocks of the records of a group. -/
lemma CodedGroup.map_stock_records (g : CodedGroup) :
    g.records.map BlockRecord.stock = g.stocks := by
  rw [records, stocks, List.map_map, ← List.zipIdx_map_fst 0 g.codes, List.map_map]
  simp [Function.comp_def, BlockRecord.stock]

/-- The indices of the records of a group. -/
lemma CodedGroup.map_codeIndex_records (g : CodedGroup) :
    g.records.map BlockRecord.codeIndex = List.range g.codes.length := by
  rw [records, List.map_map, List.range_eq_range', ← List.zipIdx_map_snd 0 g.codes]
  rfl

/-- **The flat and the grouped parser agree** on every byte string. Both give the same error, or the
stocks of the groups, before their codes are joined, are those of the records one after the other;
each group has as many codes as it says, and the indices of its records count from zero.

**Proof sketch.** Both are maps of one parser of groups whose codes are kept apart
(`parseBlock_eq_map`, `parseBlockGroup_eq_map`), so they have its error or are made of its groups.
Within a group, the records have its name, its type and its codes in order, numbered from zero. -/
theorem block_parsers_agree (gbk : Bytes → Text) (data : Bytes) :
    (∃ e, parseBlock gbk data = .error e ∧ parseBlockGroup gbk data = .error e) ∨
      ∃ records groups, parseBlock gbk data = .ok records ∧ codedGroups gbk data = .ok groups ∧
        parseBlockGroup gbk data = .ok (groups.map CodedGroup.join) ∧
        records.map BlockRecord.stock = groups.flatMap CodedGroup.stocks ∧
        records.map BlockRecord.codeIndex = groups.flatMap (fun g => List.range g.stockCount) ∧
        ∀ g ∈ groups, g.stockCount = g.codes.length := by
  rw [parseBlock_eq_map, parseBlockGroup_eq_map]
  rcases hgroups : codedGroups gbk data with e | groups
  · exact .inl ⟨e, rfl, rfl⟩
  · have hcount : ∀ g ∈ groups, g.stockCount = g.codes.length := by
      rw [codedGroups, parseGroups] at hgroups
      split at hgroups
      · exact nomatch hgroups
      · exact stockCount_of_mem hgroups
    refine .inr ⟨_, groups, rfl, rfl, rfl, ?_, ?_, hcount⟩
    · rw [List.map_flatMap]
      exact List.flatMap_congr fun g _ => g.map_stock_records
    · rw [List.map_flatMap]
      refine List.flatMap_congr fun g hg => ?_
      rw [hcount g hg, g.map_codeIndex_records]

end Tdxrs
