import Tdxrs.Library.FirstSeen
import Tdxrs.Library.Utf8
import Tdxrs.Reader.Block

set_option relaxedAutoImplicit false
set_option autoImplicit false

/-!
# Queries on block records

`search_blocks`, `list_blocks` and `get_block_constituents` of `src/block/query.rs`. Each goes over
the records of a block file in its own way: the list and the search keep a set of the names they
have seen, the search looks only at names with the keyword in them and ends with the 200th result,
and the third one takes all records with a name.

## Main definitions

* `Tdxrs.searchBlocks`, `Tdxrs.listBlocks`, `Tdxrs.getBlockConstituents` — the queries.

## Main results

* `Tdxrs.listBlocks_eq`, `Tdxrs.searchBlocks_eq` — what the loops give.
* `Tdxrs.block_queries_agree` — the queries agree with each other.
-/

namespace Tdxrs

open FirstSeen

/-! ## The queries -/

/-- The kinds of blocks. -/
inductive BlockType where
  | index
  | industry
  | concept
deriving DecidableEq, Repr

/-- A block with the number of its stocks. -/
structure BlockInfo where
  name : Text
  blockType : BlockType
  stockCount : ℕ
deriving DecidableEq

/-- The stocks of a block. -/
structure BlockConstituents where
  blockName : Text
  blockType : BlockType
  codes : List Text
deriving DecidableEq

/-- The greatest length of a keyword, in bytes. -/
def maxSearchLen : ℕ := 20

/-- The greatest number of results of a search. -/
def maxResults : ℕ := 200

/-- Whether a text has another one in it. -/
def containsText (s keyword : Text) : Bool := decide (keyword <:+: s)

/-- A block, with its number of records in all. -/
def blockInfo (blockType : BlockType) (rawData : List BlockRecord) (name : Text) : BlockInfo where
  name := name
  blockType := blockType
  stockCount := (rawData.filter fun r => r.blockname = name).length

/-- The records that a search has left to go over, with the names it has seen and its results. -/
def searchLoop (keyword : Text) (blockType : BlockType) (rawData : List BlockRecord) :
    List BlockRecord → List Text → List BlockInfo → List BlockInfo
  | [], _, results => results
  | record :: left, seen, results =>
    if containsText record.blockname keyword ∧ record.blockname ∉ seen then
      let results := results ++ [blockInfo blockType rawData record.blockname]
      if results.length ≥ maxResults then results
      else searchLoop keyword blockType rawData left (record.blockname :: seen) results
    else searchLoop keyword blockType rawData left seen results

/-- Searches for blocks by a part of their names. -/
def searchBlocks (keyword : Text) (blockType : BlockType) (rawData : List BlockRecord) :
    Except TdxError (List BlockInfo) :=
  if keyword = [] then .error (.invalidData "search keyword cannot be empty")
  else if Utf8.len keyword > maxSearchLen then
    .error (.invalidData s!"search keyword too long (max {maxSearchLen} chars)")
  else .ok (searchLoop keyword blockType rawData rawData [] [])

/-- The records that the list has left to go over. -/
def listLoop (blockType : BlockType) (rawData : List BlockRecord) :
    List BlockRecord → List Text → List BlockInfo → List BlockInfo
  | [], _, results => results
  | record :: left, seen, results =>
    if record.blockname ∉ seen then
      listLoop blockType rawData left (record.blockname :: seen)
        (results ++ [blockInfo blockType rawData record.blockname])
    else listLoop blockType rawData left seen results

/-- All blocks. -/
def listBlocks (blockType : BlockType) (rawData : List BlockRecord) : List BlockInfo :=
  listLoop blockType rawData rawData [] []

/-- The stocks of a block. -/
def getBlockConstituents (blockName : Text) (blockType : BlockType) (rawData : List BlockRecord) :
    Except TdxError BlockConstituents :=
  let codes := (rawData.filter fun r => r.blockname = blockName).map BlockRecord.code
  if codes = [] then
    .error (.invalidData s!"block '{String.ofList blockName}' not found or has no constituents")
  else .ok ⟨blockName, blockType, codes⟩

/-! ## What the loops give -/

variable {blockType : BlockType} {rawData : List BlockRecord}

lemma listLoop_eq (left : List BlockRecord) : ∀ (seen : List Text) (results : List BlockInfo),
    listLoop blockType rawData left seen results =
      results ++ (firstSeen seen (left.map BlockRecord.blockname)).map
        (blockInfo blockType rawData) := by
  induction left with
  | nil => exact fun _ _ => (List.append_nil _).symm
  | cons record left ih =>
    intro seen results
    rw [listLoop, List.map_cons]
    by_cases hseen : record.blockname ∈ seen
    · rw [if_neg (not_not.mpr hseen), ih, firstSeen_cons_of_mem hseen]
    · rw [if_pos hseen, ih, firstSeen_cons_of_notMem hseen, List.map_cons, List.append_assoc,
        List.singleton_append]

/-- **All blocks**: the names of the records by their first appearance. -/
lemma listBlocks_eq (blockType : BlockType) (rawData : List BlockRecord) :
    listBlocks blockType rawData =
      (firstSeen [] (rawData.map BlockRecord.blockname)).map (blockInfo blockType rawData) := by
  rw [listBlocks, listLoop_eq, List.nil_append]

/-- The loop of a search goes on as long as it has less than 200 results.

**Proof sketch.** Induction on the records. A name that matches and was not seen is added; if the
results are full then, the loop returns them, which are the first 200 of what would follow, and
otherwise the induction hypothesis goes on with room. Any other name is passed over on both
sides. -/
lemma searchLoop_eq {keyword : Text} (left : List BlockRecord) :
    ∀ (seen : List Text) (results : List BlockInfo), results.length < maxResults →
      searchLoop keyword blockType rawData left seen results =
        (results ++ (firstSeen seen ((left.map BlockRecord.blockname).filter fun name =>
          containsText name keyword)).map (blockInfo blockType rawData)).take maxResults := by
  induction left with
  | nil =>
    intro seen results hroom
    simp only [searchLoop, List.map_nil, List.filter_nil, firstSeen, List.append_nil]
    exact (List.take_of_length_le hroom.le).symm
  | cons record left ih =>
    intro seen results hroom
    rw [searchLoop, List.map_cons]
    by_cases hmatch : containsText record.blockname keyword = true
    · rw [List.filter_cons_of_pos (p := fun name => containsText name keyword) hmatch]
      by_cases hseen : record.blockname ∈ seen
      · rw [if_neg fun h => h.2 hseen, ih seen results hroom, firstSeen_cons_of_mem hseen]
      · have hlength : (results ++ [blockInfo blockType rawData record.blockname]).length =
            results.length + 1 := by simp
        rw [if_pos ⟨hmatch, hseen⟩, firstSeen_cons_of_notMem hseen, List.map_cons,
          List.append_cons results _ (List.map _ _)]
        show (if (results ++ [blockInfo blockType rawData record.blockname]).length ≥ maxResults
          then _ else _) = _
        by_cases hfull : (results ++ [blockInfo blockType rawData record.blockname]).length ≥
            maxResults
        · rw [if_pos hfull, List.take_append_of_le_length hfull, List.take_of_length_le (by omega)]
        · rw [if_neg hfull, ih _ _ (not_le.mp hfull)]
    · rw [List.filter_cons_of_neg (p := fun name => containsText name keyword) hmatch,
        if_neg fun h => hmatch h.1, ih seen results hroom]

/-- **A search**: the first 200 blocks with the keyword in their names. -/
lemma searchBlocks_eq {keyword : Text} {results : List BlockInfo}
    (h : searchBlocks keyword blockType rawData = .ok results) :
    results = ((listBlocks blockType rawData).filter fun info =>
      containsText info.name keyword).take maxResults := by
  rw [searchBlocks] at h
  split at h
  · exact nomatch h
  split at h
  · exact nomatch h
  rw [← Except.ok.inj h, searchLoop_eq rawData [] [] (by decide), List.nil_append, listBlocks_eq,
    ← filter_firstSeen, List.filter_map]
  rfl

/-! ## The queries together -/

/-- A query for the stocks of a block gives their codes, in the order of the records, if there are
any. -/
lemma getBlockConstituents_eq_ok {blockName : Text} {c : BlockConstituents} :
    getBlockConstituents blockName blockType rawData = .ok c ↔
      blockName ∈ rawData.map BlockRecord.blockname ∧
        c = ⟨blockName, blockType,
          (rawData.filter fun r => r.blockname = blockName).map BlockRecord.code⟩ := by
  have hnone : (rawData.filter fun r => r.blockname = blockName).map BlockRecord.code = [] ↔
      blockName ∉ rawData.map BlockRecord.blockname := by
    rw [List.map_eq_nil_iff, List.filter_eq_nil_iff, List.mem_map]
    simp only [decide_eq_true_eq]
    exact ⟨fun h ⟨r, hr, hname⟩ => h r hr hname, fun h r hr hname => h ⟨r, hr, hname⟩⟩
  rw [getBlockConstituents]
  by_cases hmem : blockName ∈ rawData.map BlockRecord.blockname
  · rw [if_neg (hnone.not.mpr (not_not.mpr hmem)), and_iff_right hmem, Except.ok.injEq, eq_comm]
  · rw [if_pos (hnone.mpr hmem)]
    exact iff_of_false (fun h => nomatch h) fun h => hmem h.1

/-- The number of records with a name. -/
lemma stockCount_blockInfo (name : Text) :
    (blockInfo blockType rawData name).stockCount =
      ((rawData.map BlockRecord.blockname).filter fun other => other = name).length := by
  rw [List.filter_map, List.length_map]
  rfl

/-- The names of the list. -/
lemma names_listBlocks (blockType : BlockType) (rawData : List BlockRecord) :
    (listBlocks blockType rawData).map BlockInfo.name =
      firstSeen [] (rawData.map BlockRecord.blockname) := by
  rw [listBlocks_eq, List.map_map]
  exact List.map_id _

/-- The counts of the list make up the number of records. -/
lemma sum_stockCounts (blockType : BlockType) (rawData : List BlockRecord) :
    ((listBlocks blockType rawData).map BlockInfo.stockCount).sum = rawData.length := by
  have hcounts : (listBlocks blockType rawData).map BlockInfo.stockCount =
      (firstSeen [] (rawData.map BlockRecord.blockname)).map fun name =>
        ((rawData.map BlockRecord.blockname).filter fun other => other = name).length := by
    rw [listBlocks_eq, List.map_map]
    exact List.map_congr_left fun name _ => stockCount_blockInfo name
  rw [hcounts, sum_length_filter, List.length_map]

/-- **The queries agree**, for every list of records. The list has each block once, by its first
appearance, and its counts make up the number of records. A search that is accepted gives the first
200 blocks of the list with the keyword in their names. And exactly the blocks of the list have
stocks, as many as the list says, in the order of the records.

**Proof sketch.** The names of the list are the names of the records by first appearance
(`names_listBlocks`), so that what is known of `firstSeen` holds of them: no repetition, the same
elements, the order. The search is the same list filtered (`searchBlocks_eq`), and the stocks of a
block are the records with its name (`getBlockConstituents_eq_ok`), which are counted in the
list. -/
theorem block_queries_agree (blockType : BlockType) (rawData : List BlockRecord) :
    let names := (listBlocks blockType rawData).map BlockInfo.name
    (names.Nodup ∧ (∀ name, name ∈ names ↔ ∃ r ∈ rawData, r.blockname = name) ∧
      names.Pairwise (fun a b => (rawData.map BlockRecord.blockname).idxOf a <
        (rawData.map BlockRecord.blockname).idxOf b) ∧
      ((listBlocks blockType rawData).map BlockInfo.stockCount).sum = rawData.length) ∧
    (∀ keyword results, searchBlocks keyword blockType rawData = .ok results →
      results = ((listBlocks blockType rawData).filter fun info =>
        containsText info.name keyword).take maxResults) ∧
    (∀ name, (∃ c, getBlockConstituents name blockType rawData = .ok c) ↔ name ∈ names) ∧
    ∀ info ∈ listBlocks blockType rawData, ∀ c,
      getBlockConstituents info.name blockType rawData = .ok c →
        c.codes.length = info.stockCount ∧
          c.codes = (rawData.filter fun r => r.blockname = info.name).map BlockRecord.code := by
  have hnames := names_listBlocks blockType rawData
  have hmem : ∀ name, name ∈ (listBlocks blockType rawData).map BlockInfo.name ↔
      name ∈ rawData.map BlockRecord.blockname := fun name => by
    rw [hnames, mem_firstSeen, and_iff_left List.not_mem_nil]
  refine ⟨⟨?_, fun name => (hmem name).trans List.mem_map, ?_,
    sum_stockCounts blockType rawData⟩, fun keyword results => searchBlocks_eq, ?_, ?_⟩
  · rw [hnames]
    exact nodup_firstSeen [] (rawData.map BlockRecord.blockname)
  · rw [hnames]
    exact pairwise_idxOf [] (rawData.map BlockRecord.blockname)
  · intro name
    rw [hmem]
    exact ⟨fun ⟨c, hc⟩ => (getBlockConstituents_eq_ok.mp hc).1,
      fun h => ⟨_, getBlockConstituents_eq_ok.mpr ⟨h, rfl⟩⟩⟩
  · intro info hinfo c hc
    obtain ⟨-, rfl⟩ := getBlockConstituents_eq_ok.mp hc
    rw [listBlocks_eq] at hinfo
    obtain ⟨name, -, rfl⟩ := List.mem_map.mp hinfo
    exact ⟨List.length_map _, rfl⟩

end Tdxrs
