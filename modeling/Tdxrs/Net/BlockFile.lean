import Tdxrs.Library.Pieces
import Tdxrs.Net.BarsCalls
import Tdxrs.Reader.Block

set_option relaxedAutoImplicit false
set_option autoImplicit false

/-!
# Fetching a block file

`get_and_parse_block_info` of `TdxHqClient` and `TdxDirectClient`: the size of a block file is asked
for first, then the file in chunks, which are put together and parsed. The loop goes on by the size
that it asked for, whatever the size of what it got, so that what stands behind a short chunk
slides. Since the parser only checks that what it reads is there, it may well read a file that has
slid.

The two clients have the same code over their own ways to send a request.

## Main definitions

* `Tdxrs.getAndParseBlockInfo` — the call, for any way to send a request.
* `Tdxrs.BlockClient` — the two clients.
* `Tdxrs.blockAnswers` — what a server answers to the requests for the chunks.
* `Tdxrs.GapFree` — an error, or exactly the bytes of the file are parsed.
* `Tdxrs.ChunksLand` — the chunks are as they have to be for that.

## Main results

* `Tdxrs.blockChunks_eq` — the bytes that are parsed are the chunks one after the other.
* `Tdxrs.gap_free_iff` — when the assembly of a block file is free of gaps.
-/

namespace Tdxrs

open Pieces

variable {σ : Type}

/-! ## The call -/

/-- The size of a block file and its hash. -/
structure BlockInfoMeta where
  size : ℕ
  hashValue : Text
deriving DecidableEq

/-- A byte in two hexadecimal digits. -/
def hexByte (b : UInt8) : Text := [Nat.digitChar (b.toNat / 16), Nat.digitChar (b.toNat % 16)]

/-- Parses the size and the hash of a block file. -/
def parseBlockInfoMeta (body : Bytes) : Except TdxError BlockInfoMeta :=
  if body.length < 38 then
    .error (ErrorCode.responseLengthMismatch.err "body too short for block meta")
  else .ok ⟨readU32 body 0, ((body.drop 5).take 32).flatMap hexByte⟩

/-- The bytes of a chunk, behind a header of four bytes. -/
def parseBlockInfo (body : Bytes) : Except TdxError Bytes :=
  if 4 < body.length then .ok (body.drop 4) else .ok []

/-- A name in `width` bytes, cut off or filled up with zeros. -/
def nameBuf (width : ℕ) (name : String) : Bytes := ((asBytes name).take width).rightpad width 0

/-- The request for the size and the hash. -/
def blockInfoMetaPacket (blockFile : String) : Bytes :=
  [0x0C, 0x39, 0x18, 0x69, 0x00, 0x01, 0x2A, 0x00, 0x2A, 0x00, 0xC5, 0x02] ++ nameBuf 40 blockFile

/-- The request for a chunk. -/
def blockInfoPacket (blockFile : String) (start size : ℕ) : Bytes :=
  [0x0c, 0x37, 0x18, 0x6a, 0x00, 0x01, 0x6e, 0x00, 0x6e, 0x00, 0xb9, 0x06] ++
    LittleEndian.toLE 4 start ++ LittleEndian.toLE 4 size ++ nameBuf 100 blockFile

section Call

variable (send : Bytes → σ → Except TdxError Bytes × σ)

/-- Asks for the size and the hash. -/
def getBlockInfoMeta (blockFile : String) (w : σ) : Except TdxError BlockInfoMeta × σ :=
  match send (blockInfoMetaPacket blockFile) w with
  | (.error e, w) => (.error e, w)
  | (.ok body, w) => (parseBlockInfoMeta body, w)

/-- Asks for a chunk. -/
def getBlockInfo (blockFile : String) (start size : ℕ) (w : σ) : Except TdxError Bytes × σ :=
  match send (blockInfoPacket blockFile start size) w with
  | (.error e, w) => (.error e, w)
  | (.ok body, w) => (parseBlockInfo body, w)

def blockChunkSize : ℕ := 0x7530

/-- The chunks that are left, from `offset` on. The offset moves on by what was asked for. -/
def blockChunks (blockFile : String) (size offset : ℕ) (allData : Bytes) (w : σ) :
    Except TdxError Bytes × σ :=
  if offset < size then
    let readSize := min blockChunkSize (size - offset)
    match getBlockInfo send blockFile offset readSize w with
    | (.error e, w) => (.error e, w)
    | (.ok chunk, w) => blockChunks blockFile size (offset + readSize) (allData ++ chunk) w
  else (.ok allData, w)
termination_by size - offset
decreasing_by simp only [blockChunkSize]; omega

/-- Fetches and parses a block file. -/
def getAndParseBlockInfo (gbk : Bytes → Text) (blockFile : String) (w : σ) :
    Except TdxError (List BlockRecord) × σ :=
  match getBlockInfoMeta send blockFile w with
  | (.error e, w) => (.error e, w)
  | (.ok info, w) =>
    match blockChunks send blockFile info.size 0 [] w with
    | (.error e, w) => (.error e, w)
    | (.ok allData, w) => (parseBlock gbk allData, w)

end Call

/-- The call of the synchronous client. -/
def HqEnv.getAndParseBlockInfo (env : HqEnv σ) (gbk : Bytes → Text) (blockFile : String) (w : σ) :
    Except TdxError (List BlockRecord) × σ :=
  Tdxrs.getAndParseBlockInfo env.sendAndRecvLimited gbk blockFile w

/-- The call of the client without a pool. -/
def DirectEnv.getAndParseBlockInfo (env : DirectEnv σ) (gbk : Bytes → Text) (blockFile : String)
    (w : σ) : Except TdxError (List BlockRecord) × σ :=
  Tdxrs.getAndParseBlockInfo env.sendAndRecv gbk blockFile w

/-- The clients that fetch block files. -/
inductive BlockClient (σ : Type) where
  | hq (env : HqEnv σ)
  | direct (env : DirectEnv σ)

namespace BlockClient

/-- How a client sends a request. -/
def send : BlockClient σ → Bytes → σ → Except TdxError Bytes × σ
  | hq env => env.sendAndRecvLimited
  | direct env => env.sendAndRecv

/-- The call of a client. -/
def getAndParseBlockInfo (gbk : Bytes → Text) (blockFile : String) (w : σ) :
    BlockClient σ → Except TdxError (List BlockRecord) × σ
  | hq env => env.getAndParseBlockInfo gbk blockFile w
  | direct env => env.getAndParseBlockInfo gbk blockFile w

lemma getAndParseBlockInfo_eq (client : BlockClient σ) (gbk : Bytes → Text) (blockFile : String)
    (w : σ) :
    client.getAndParseBlockInfo gbk blockFile w =
      Tdxrs.getAndParseBlockInfo client.send gbk blockFile w := by
  cases client <;> rfl

end BlockClient

/-! ## The chunks of a file -/

/-- The requests for the bytes of a file from a position on: where each starts, and for how many
bytes it asks. -/
def blockRequests (size offset : ℕ) : List (ℕ × ℕ) :=
  if offset < size then
    let readSize := min blockChunkSize (size - offset)
    (offset, readSize) :: blockRequests size (offset + readSize)
  else []
termination_by size - offset
decreasing_by simp only [blockChunkSize]; omega

/-- What a server answers to such requests, one after the other. -/
def blockAnswers (send : Bytes → σ → Except TdxError Bytes × σ) (blockFile : String) :
    List (ℕ × ℕ) → σ → Except TdxError (List (Piece UInt8))
  | [], _ => .ok []
  | (start, size) :: requests, w =>
    match getBlockInfo send blockFile start size w with
    | (.error e, _) => .error e
    | (.ok chunk, w) =>
      match blockAnswers send blockFile requests w with
      | .error e => .error e
      | .ok pieces => .ok (⟨start, size, chunk⟩ :: pieces)

variable {send : Bytes → σ → Except TdxError Bytes × σ} {blockFile : String}

variable (send blockFile) in
/-- **The bytes that are parsed** are the chunks one after the other.

**Proof sketch.** By induction along the requests: a chunk is put behind the bytes that are there,
and the next request starts where this one ended by its own count, whatever the length of the
chunk. -/
lemma blockChunks_eq (size offset : ℕ) (allData : Bytes) (w : σ) :
    (blockChunks send blockFile size offset allData w).1 =
      (blockAnswers send blockFile (blockRequests size offset) w).map (allData ++ together ·) := by
  induction offset using blockRequests.induct size generalizing allData w with
  | case1 offset hleft readSize ih =>
    rw [blockChunks, blockRequests, if_pos hleft, if_pos hleft]
    simp only [blockAnswers]
    rcases getBlockInfo send blockFile offset (min blockChunkSize (size - offset)) w with
      ⟨e | chunk, w'⟩
    · rfl
    · refine (ih (allData ++ chunk) w').trans ?_
      show _ = Except.map _ (match blockAnswers send blockFile
        (blockRequests size (offset + readSize)) w' with
        | .error e => .error e
        | .ok pieces => .ok (⟨offset, readSize, chunk⟩ :: pieces))
      rcases blockAnswers send blockFile (blockRequests size (offset + readSize)) w' with e | pieces
      · rfl
      · exact congrArg Except.ok (List.append_assoc _ _ _)
  | case2 offset hdone =>
    rw [blockChunks, blockRequests, if_neg hdone, if_neg hdone]
    exact congrArg Except.ok (List.append_nil _).symm

/-- The chunks were asked for one behind the other, up to the size.

**Proof sketch.** By induction along the requests: each starts where the one before it was to end,
and the last one ends at the size. -/
lemma planned_blockAnswers {size offset : ℕ} (hoffset : offset ≤ size) {w : σ}
    {pieces : List (Piece UInt8)}
    (h : blockAnswers send blockFile (blockRequests size offset) w = .ok pieces) :
    Planned offset pieces size := by
  induction offset using blockRequests.induct size generalizing pieces w with
  | case1 offset hleft readSize ih =>
    rw [blockRequests, if_pos hleft] at h
    simp only [blockAnswers] at h
    rcases hchunk : getBlockInfo send blockFile offset (min blockChunkSize (size - offset)) w with
      ⟨e | chunk, w'⟩ <;> simp only [hchunk] at h
    · exact nomatch h
    · rcases hrest : blockAnswers send blockFile (blockRequests size (offset + readSize)) w' with
        e | rest <;> simp only [readSize] at hrest <;> rw [hrest] at h
      · exact nomatch h
      · obtain rfl := Except.ok.inj h
        exact ⟨rfl, ih (by omega) hrest⟩
  | case2 offset hdone =>
    rw [blockRequests, if_neg hdone] at h
    obtain rfl := Except.ok.inj h
    exact le_antisymm hoffset (not_lt.mp hdone)

/-! ## The assembly of a file -/

/-- A call gives an error, or it parses as many bytes as the file has by its size, each of them the
one that the file has at its position. -/
def GapFree (client : BlockClient σ) (gbk : Bytes → Text) (file : Bytes) (blockFile : String)
    (w : σ) : Prop :=
  (∃ e, (client.getAndParseBlockInfo gbk blockFile w).1 = .error e) ∨
    ∃ info w₁ data w₂, getBlockInfoMeta client.send blockFile w = (.ok info, w₁) ∧
      blockChunks client.send blockFile info.size 0 [] w₁ = (.ok data, w₂) ∧
      client.getAndParseBlockInfo gbk blockFile w = (parseBlock gbk data, w₂) ∧
      data.length = info.size ∧ ∀ i < info.size, data[i]? = file[i]?

/-- One of the requests fails; or the chunks one after the other are no block file; or they have the
size of the file, and each of them is what the file has where it has come to stand. -/
def ChunksLand (client : BlockClient σ) (file : Bytes) (blockFile : String) (w : σ) : Prop :=
  match getBlockInfoMeta client.send blockFile w with
  | (.error _, _) => True
  | (.ok info, w) =>
    match blockAnswers client.send blockFile (blockRequests info.size 0) w with
    | .error _ => True
    | .ok pieces =>
      ¬ BlocksFit (together pieces) ∨
        (together pieces).length = info.size ∧ Landed file 0 (pieces.map Piece.data)

/-- Chunks that are there are parsed as they have to be exactly if they have landed. -/
lemma assembled_iff {file : Bytes} {size : ℕ} (pieces : List (Piece UInt8)) :
    ((together pieces).length = size ∧ ∀ i < size, (together pieces)[i]? = file[i]?) ↔
      (together pieces).length = size ∧ Landed file 0 (pieces.map Piece.data) := by
  refine and_congr_right fun hlen => ?_
  rw [← at_flatten_iff]
  exact (hlen ▸ at_zero_iff).symm

/-- What a call gives, by what the server answers. -/
lemma getAndParseBlockInfo_fst (gbk : Bytes → Text) {w w₁ : σ} {info : BlockInfoMeta}
    (hinfo : getBlockInfoMeta send blockFile w = (.ok info, w₁)) :
    (getAndParseBlockInfo send gbk blockFile w).1 =
      match blockAnswers send blockFile (blockRequests info.size 0) w₁ with
      | .error e => .error e
      | .ok pieces => parseBlock gbk (together pieces) := by
  have hdata := blockChunks_eq send blockFile info.size 0 [] w₁
  rw [getAndParseBlockInfo, hinfo]
  rcases hchunks : blockChunks send blockFile info.size 0 [] w₁ with ⟨e | data, w₂⟩ <;>
    rcases hpieces : blockAnswers send blockFile (blockRequests info.size 0) w₁ with e' | pieces <;>
    rw [hchunks, hpieces] at hdata <;> simp only [hchunks]
  · exact congrArg Except.error (Except.error.inj hdata)
  · exact nomatch hdata
  · exact nomatch hdata
  · exact congrArg (parseBlock gbk) (Except.ok.inj hdata)

/-- The assembly is free of gaps exactly if the chunks land.

**Proof sketch.** If a request fails there is an error, and nothing to assemble. Otherwise what is
parsed is the chunks one behind the other (`blockChunks_eq`), which the parser refuses
(`parseBlock_error_iff`), or which are the bytes of the file exactly if they have the length that
was announced and each of them lands (`assembled_iff`). -/
lemma gapFree_iff_chunksLand (client : BlockClient σ) (gbk : Bytes → Text) (file : Bytes)
    (blockFile : String) (w : σ) :
    GapFree client gbk file blockFile w ↔ ChunksLand client file blockFile w := by
  rw [GapFree, ChunksLand, client.getAndParseBlockInfo_eq]
  rcases hinfo : getBlockInfoMeta client.send blockFile w with ⟨e | info, w₁⟩
  · refine iff_of_true (.inl ⟨e, ?_⟩) trivial
    rw [getAndParseBlockInfo, hinfo]
  · have hdata := blockChunks_eq client.send blockFile info.size 0 [] w₁
    rw [getAndParseBlockInfo_fst gbk hinfo, getAndParseBlockInfo, hinfo]
    rcases hpieces : blockAnswers client.send blockFile (blockRequests info.size 0) w₁ with
      e | pieces <;> simp only [hpieces]
    · exact iff_of_true (.inl ⟨e, rfl⟩) trivial
    · obtain ⟨w₂, hchunks⟩ : ∃ w₂, blockChunks client.send blockFile info.size 0 [] w₁ =
          (.ok (together pieces), w₂) := by
        rw [hpieces] at hdata
        exact ⟨_, Prod.ext hdata rfl⟩
      refine or_congr parseBlock_error_iff ((Iff.symm (assembled_iff pieces)).trans ?_).symm
      constructor
      · exact fun h => ⟨info, w₁, _, w₂, rfl, hchunks, by rw [hchunks], h⟩
      · rintro ⟨info', w₁', data, w₂', hinfo', hchunks', -, h⟩
        obtain ⟨hsame, rfl⟩ := Prod.mk.inj hinfo'
        obtain rfl := Except.ok.inj hsame
        obtain ⟨hdata', -⟩ := Prod.mk.inj (hchunks.symm.trans hchunks')
        obtain rfl := Except.ok.inj hdata'
        exact h

/-- **When the assembly of a block file is free of gaps**, for every file and every way the server
answers: if a request fails, if the chunks together are no block file, or if they have the size of
the file and each is what the file has where it has come to stand. Of chunks that are from the file
and not longer than asked for, the last is true exactly if each of them is as long as asked for.

**Proof sketch.** The bytes that are parsed are the chunks one after the other, and the parser gives
an error exactly if they are no block file. Chunks that are not longer than asked for cannot make up
for one that is shorter. -/
theorem gap_free_iff (client : BlockClient σ) (gbk : Bytes → Text) (file : Bytes)
    (blockFile : String) (w : σ) :
    (GapFree client gbk file blockFile w ↔ ChunksLand client file blockFile w) ∧
      ∀ info w₁ pieces, getBlockInfoMeta client.send blockFile w = (.ok info, w₁) →
        blockAnswers client.send blockFile (blockRequests info.size 0) w₁ = .ok pieces →
        (∀ p ∈ pieces, At file p.start p.data ∧ p.data.length ≤ p.size) →
        ((together pieces).length = info.size ∧ Landed file 0 (pieces.map Piece.data) ↔
          ∀ p ∈ pieces, p.data.length = p.size) := by
  refine ⟨gapFree_iff_chunksLand client gbk file blockFile w, ?_⟩
  intro info w₁ pieces _ hpieces hserved
  have hfull := landed_iff_full (planned_blockAnswers (Nat.zero_le _) hpieces)
    (fun p hp => (hserved p hp).1) fun p hp => (hserved p hp).2
  rwa [Nat.zero_add] at hfull

/-! ### Two servers -/

/-- A server with a block file of the given size, of which it sends the given chunks: a request of
52 bytes is for the size, and any other for a chunk. -/
def blockServer (size : ℕ) (chunk : ℕ → Bytes) : DirectEnv Unit where
  sendAndRecv packet w :=
    if packet.length = 52 then (.ok (LittleEndian.toLE 4 size ++ List.replicate 34 0), w)
    else (.ok (List.replicate 4 0 ++ chunk (LittleEndian.field packet 12 4)), w)
  getXdxrInfo _ _ w := (.ok [], w)
  fqContextTier := .low
  maxValidYear := 2036

/-- The head of a file whose only block has the type 2 and one stock. -/
def oneBlockHead : Bytes :=
  List.replicate 384 0 ++ [1, 0] ++ List.replicate 9 0x41 ++ [1, 0] ++ [2, 0]

/-- The stock with six times the digit in its code. -/
def digitStock (digit : UInt8) : Bytes := List.replicate 6 digit ++ [0]

/-- A file with a stock in its only block. -/
def oneStockFile : Bytes := oneBlockHead ++ digitStock 0x31

/-- A server that sends this file in one chunk. -/
def wholeServer : DirectEnv Unit := blockServer 406 fun _ => oneStockFile

/-- A file that fits in one chunk is asked for in one chunk. -/
lemma blockRequests_whole : blockRequests 406 0 = [(0, 406)] := by
  rw [blockRequests, if_pos (by decide)]
  refine congrArg ((0, 406) :: ·) ?_
  rw [blockRequests, if_neg (by decide)]

/-- **A file that comes in full** is parsed as it is.

**Proof sketch.** The two requests are evaluated, and the one chunk is the file from its start. -/
theorem block_file_whole : GapFree (.direct wholeServer) asciiText oneStockFile "block.dat" () := by
  have hinfo : getBlockInfoMeta wholeServer.sendAndRecv "block.dat" () =
      (.ok ⟨406, List.replicate 64 '0'⟩, ()) := by
    decide +kernel
  have hanswers : blockAnswers wholeServer.sendAndRecv "block.dat" (blockRequests 406 0) () =
      .ok [⟨0, 406, oneStockFile⟩] := by
    rw [blockRequests_whole]
    decide +kernel
  obtain ⟨hiff, hfull⟩ :=
    gap_free_iff (.direct wholeServer) asciiText oneStockFile "block.dat" ()
  have hland := (hfull _ _ _ hinfo hanswers (by decide +kernel)).mpr (by decide +kernel)
  rw [hiff, ChunksLand, BlockClient.send, hinfo]
  simp only [hanswers]
  exact .inr hland

/-- A longer file, with another stock where its second chunk begins. -/
def twoStockFile : Bytes := oneStockFile ++ List.replicate 29594 0 ++ digitStock 0x32

/-- The server of that file, whose first chunk ends before the stock. -/
def slidServer : DirectEnv Unit :=
  blockServer 30007 fun start => if start = 0 then oneBlockHead else digitStock 0x32

/-- Two chunks are asked for. -/
lemma blockRequests_slid : blockRequests 30007 0 = [(0, 30000), (30000, 7)] := by
  rw [blockRequests, if_pos (by decide)]
  refine congrArg ((0, 30000) :: ·) ?_
  rw [blockRequests, if_pos (by decide)]
  refine congrArg ((30000, 7) :: ·) ?_
  rw [blockRequests, if_neg (by decide)]

/-- What the server answers to the request for the size. -/
lemma slidServer_info :
    getBlockInfoMeta slidServer.sendAndRecv "block.dat" () =
      (.ok ⟨30007, List.replicate 64 '0'⟩, ()) := by
  decide +kernel

/-- The chunks are from the file. -/
lemma slid_chunks_served : At twoStockFile 0 oneBlockHead ∧
    At twoStockFile 30000 (digitStock 0x32) := by
  constructor
  · rw [At, List.drop_zero, twoStockFile, oneStockFile, List.append_assoc, List.append_assoc]
    exact List.prefix_append _ _
  · have hlen : (oneStockFile ++ List.replicate 29594 0).length = 30000 := by
      have hfirst : oneStockFile.length = 406 := by decide +kernel
      rw [List.length_append, List.length_replicate, hfirst]
    rw [At, twoStockFile, ← hlen, List.drop_left]

/-- The stock of the file. -/
lemma parseBlock_twoStockFile :
    parseBlock asciiText twoStockFile = .ok [⟨"AAAAAAAAA".toList, 2, 0, "111111".toList⟩] := by
  have hfits : BlocksFit oneStockFile := by decide +kernel
  rw [twoStockFile, List.append_assoc, parseBlock_append _ hfits]
  decide +kernel

/-- **A short chunk makes the file slide**: all chunks are from the file, and the call returns a
stock that is not the one of the block. -/
theorem block_file_slides :
    (At twoStockFile 0 oneBlockHead ∧ At twoStockFile 30000 (digitStock 0x32)) ∧
    parseBlock asciiText twoStockFile = .ok [⟨"AAAAAAAAA".toList, 2, 0, "111111".toList⟩] ∧
    ((BlockClient.direct slidServer).getAndParseBlockInfo asciiText "block.dat" ()).1 =
      .ok [⟨"AAAAAAAAA".toList, 2, 0, "222222".toList⟩] ∧
    ¬ GapFree (.direct slidServer) asciiText twoStockFile "block.dat" () := by
  have hanswers : blockAnswers slidServer.sendAndRecv "block.dat" (blockRequests 30007 0) () =
      .ok [⟨0, 30000, oneBlockHead⟩, ⟨30000, 7, digitStock 0x32⟩] := by
    rw [blockRequests_slid]
    decide +kernel
  refine ⟨slid_chunks_served, parseBlock_twoStockFile, ?_, ?_⟩
  · rw [BlockClient.getAndParseBlockInfo_eq]
    refine (getAndParseBlockInfo_fst asciiText slidServer_info).trans ?_
    simp only [hanswers]
    decide +kernel
  · rw [gapFree_iff_chunksLand, ChunksLand, BlockClient.send, slidServer_info]
    simp only [hanswers]
    rintro (hnot | ⟨hlen, -⟩)
    · exact hnot (by decide +kernel)
    · exact absurd hlen (by decide +kernel)

end Tdxrs
