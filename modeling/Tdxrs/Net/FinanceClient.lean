import Mathlib.Logic.Function.Basic
import Tdxrs.Library.Loop
import Tdxrs.Net.BlockFile

set_option relaxedAutoImplicit false
set_option autoImplicit false

/-!
# Downloading a report file

`get_report_file_by_size` of `TdxFinanceClient` (`src/net/finance_client.rs`): a file is taken from
the cache directory if it is not older than 24 hours, and else downloaded in chunks and put there.
The chunks carry their length with them. The download ends, without an error, at the first chunk
that is empty or shorter than a full one, wherever that is in the file.

## Main definitions

* `Tdxrs.FinanceEnv` — the client, with its network, its clock and its disk.
* `Tdxrs.FinanceEnv.getReportFileBySize` — the call.
* `Tdxrs.FinanceEnv.CompleteOrError` — an error, or the whole file, in the cache too.
* `Tdxrs.FinanceEnv.ChunksComplete` — the chunks are as they have to be for that.

## Main results

* `Tdxrs.FinanceEnv.cacheGet_cachePut` — what the cache gives in the 24 hours after a file was put
  there.
* `Tdxrs.FinanceEnv.report_file_complete_iff` — when a report file is complete or an error.
-/

namespace Tdxrs

variable {σ : Type}

/-! ## The call -/

/-- The size of a chunk that is asked for. -/
def reportChunkSize : ℕ := 0x7530

/-- How long a file in the cache is valid, in nanoseconds. -/
def cacheTtl : ℕ := 24 * 3600 * 10 ^ 9

/-- What the calls for report files use of the rest of the client. -/
structure FinanceEnv (σ : Type) where
  /-- A request over a new connection. -/
  sendAndRecv : Bytes → σ → Except TdxError Bytes × σ
  /-- The system time, in nanoseconds. -/
  now : σ → ℕ
  /-- Whether there is a cache directory. -/
  cacheDir : Bool
  /-- What a write of a file leaves there; `none` if it leaves things as they were. -/
  write : Text → Bytes → σ → Option Bytes

/-- A file in the cache directory that can be read. -/
structure CachedFile where
  mtime : ℕ
  data : Bytes
deriving DecidableEq

/-- The world of a client, with the cache directory. -/
structure FinanceState (σ : Type) where
  world : σ
  files : Text → Option CachedFile

/-- The last part of a file name. -/
def shortName (filename : String) : Text := (filename.toList.reverse.takeWhile (· ≠ '/')).reverse

/-- The request for a chunk. -/
def reportFilePacket (filename : String) (offset : ℕ) : Bytes :=
  let rawData := LittleEndian.toLE 2 0x06B9 ++ LittleEndian.toLE 4 offset ++
    LittleEndian.toLE 4 reportChunkSize ++ nameBuf 100 filename
  [0x0c, 0x12, 0x34, 0x00, 0x00, 0x00] ++ LittleEndian.toLE 2 (2 + 4 + 4 + 100) ++
    LittleEndian.toLE 2 (2 + 4 + 4 + 100) ++ rawData

/-- The chunk in a response: as many bytes as it says, none if they are not all there. -/
def reportChunk (body : Bytes) : Bytes :=
  if body.length < 4 then []
  else if 0 < readU32 body 0 ∧ 4 + readU32 body 0 ≤ body.length then
    (body.drop 4).take (readU32 body 0)
  else []

/-- The variables of the download loop. -/
structure Download (σ : Type) where
  offset : ℕ
  data : Bytes
  world : σ

namespace FinanceEnv

section Call

variable (env : FinanceEnv σ) (filename : String)

/-- The file in the cache. One whose time is in the future counts as expired. -/
def cacheGet (s : FinanceState σ) : Option Bytes :=
  if env.cacheDir then
    match s.files (shortName filename) with
    | none => none
    | some file =>
      if env.now s.world < file.mtime ∨ cacheTtl < env.now s.world - file.mtime then none
      else some file.data
  else none

/-- Writes a file to the cache. Errors are ignored. -/
def cachePut (data : Bytes) (s : FinanceState σ) : FinanceState σ :=
  if env.cacheDir then
    match env.write (shortName filename) data s.world with
    | none => s
    | some written =>
      { s with files :=
          Function.update s.files (shortName filename) (some ⟨env.now s.world, written⟩) }
  else s

/-- Asks for the chunk at `offset`. -/
def getReportFile (offset : ℕ) (w : σ) : Except TdxError Bytes × σ :=
  match env.sendAndRecv (reportFilePacket filename offset) w with
  | (.error e, w) => (.error e, w)
  | (.ok body, w) => (.ok (reportChunk body), w)

/-- The chunks after the first one of a file of unknown size. -/
def downloadPages : List ℕ → Bytes → σ → Except TdxError Bytes × σ
  | [], data, w => (.ok data, w)
  | page :: pages, data, w =>
    match env.getReportFile filename (page * reportChunkSize) w with
    | (.error e, w) => (.error e, w)
    | (.ok chunk, w) =>
      if chunk = [] then (.ok data, w)
      else if chunk.length < reportChunkSize then (.ok (data ++ chunk), w)
      else downloadPages pages (data ++ chunk) w

/-- One round of the download of a file of known size. The offset is of 32 bits, and wraps
around. -/
def downloadStep (filesize : UInt32) (d : Download σ) :
    Download σ ⊕ (Except TdxError Bytes × σ) :=
  if d.offset < filesize.toNat then
    match env.getReportFile filename d.offset d.world with
    | (.error e, w) => .inr (.error e, w)
    | (.ok chunk, w) =>
      if chunk = [] then .inr (.ok d.data, w)
      else if chunk.length < reportChunkSize then .inr (.ok (d.data ++ chunk), w)
      else .inl ⟨(d.offset + chunk.length) % 2 ^ 32, d.data ++ chunk, w⟩
  else .inr (.ok d.data, d.world)

/-- Downloads a file. -/
def downloadReportFile (filesize : UInt32) (fuel : ℕ) (w : σ) :
    Option (Except TdxError Bytes × σ) :=
  if filesize = 0 then
    match env.getReportFile filename 0 w with
    | (.error e, w) => some (.error e, w)
    | (.ok first, w) =>
      if first.length < reportChunkSize then some (.ok first, w)
      else some (env.downloadPages filename [1, 2, 3] first w)
  else Loop.run (env.downloadStep filename filesize) fuel ⟨0, [], w⟩

/-- Takes a file from the cache, or downloads it and puts it there. -/
def getReportFileBySize (filesize : UInt32) (fuel : ℕ) (s : FinanceState σ) :
    Option (Except TdxError Bytes × FinanceState σ) :=
  match env.cacheGet filename s with
  | some cached => some (.ok cached, s)
  | none =>
    match env.downloadReportFile filename filesize fuel s.world with
    | none => none
    | some (.error e, w) => some (.error e, { s with world := w })
    | some (.ok data, w) => some (.ok data, env.cachePut filename data { s with world := w })

/-! ## What a download should give -/

/-- A call ends. It is an error, and nothing is put into the cache; or it gives the file, which has
the size that is asked for, and puts the file there, so that, if the disk takes it, this is what the
cache gives in the next 24 hours. -/
def CompleteOrError (filesize : UInt32) (file : Bytes) (s : FinanceState σ) : Prop :=
  ∃ fuel result s', env.getReportFileBySize filename filesize fuel s = some (result, s') ∧
    ((∃ e, result = .error e) ∧ s'.files = s.files ∨
      result = .ok file ∧ file.length = filesize.toNat ∧
        ∃ w, s' = env.cachePut filename file ⟨w, s.files⟩ ∧
          (env.cacheDir = true → env.write (shortName filename) file w = some file →
            ∀ w', env.now w ≤ env.now w' → env.now w' ≤ env.now w + cacheTtl →
              env.cacheGet filename ⟨w', s'.files⟩ = some file))

/-- The download comes to some place before the end of the file, and the request there fails, or the
chunk there makes up the file together with the chunks before. -/
def ChunksComplete (filesize : UInt32) (file : Bytes) (w : σ) : Prop :=
  ∃ d, Relation.ReflTransGen (Loop.Continues (env.downloadStep filename filesize)) ⟨0, [], w⟩ d ∧
    d.offset < filesize.toNat ∧
    ((∃ e, (env.getReportFile filename d.offset d.world).1 = .error e) ∨
      ∃ chunk w', env.getReportFile filename d.offset d.world = (.ok chunk, w') ∧
        d.data ++ chunk = file ∧ file.length = filesize.toNat)

/-- Every chunk is from the file. -/
def ServesFile (file : Bytes) : Prop :=
  ∀ offset < 2 ^ 32, ∀ w chunk w', env.getReportFile filename offset w = (.ok chunk, w') →
    Pieces.At file offset chunk

end Call

variable {env : FinanceEnv σ} {filename : String} {filesize : UInt32} {file : Bytes}
  {d d' : Download σ}

/-! ### The cache -/

/-- **What the cache gives** in the 24 hours after a file was put there. -/
lemma cacheGet_cachePut {w w' : σ} {files : Text → Option CachedFile} (hdir : env.cacheDir = true)
    (hwrite : env.write (shortName filename) file w = some file) (hfrom : env.now w ≤ env.now w')
    (huntil : env.now w' ≤ env.now w + cacheTtl) :
    env.cacheGet filename ⟨w', (env.cachePut filename file ⟨w, files⟩).files⟩ = some file := by
  rw [cacheGet, cachePut, if_pos hdir, if_pos hdir, hwrite]
  simp only [Function.update_self]
  exact if_neg (by omega)

/-! ### The loop -/

/-- A round that goes on has had a full chunk.

**Proof sketch.** The branches of a round: the loop goes on in only one of them, in which the offset
is before the end and the answer is a full chunk. -/
lemma downloadStep_inl (h : env.downloadStep filename filesize d = .inl d') :
    d.offset < filesize.toNat ∧ ∃ chunk,
      env.getReportFile filename d.offset d.world = (.ok chunk, d'.world) ∧
        reportChunkSize ≤ chunk.length ∧ d'.offset = (d.offset + chunk.length) % 2 ^ 32 ∧
          d'.data = d.data ++ chunk := by
  rw [downloadStep] at h
  split at h
  · rename_i hleft
    rcases hreply : env.getReportFile filename d.offset d.world with ⟨e | chunk, w⟩ <;>
      rw [hreply] at h
    · exact nomatch h
    · simp only at h
      split at h
      · exact nomatch h
      · split at h
        · exact nomatch h
        · rename_i hfull
          obtain rfl := Sum.inl.inj h
          exact ⟨hleft, chunk, rfl, not_lt.mp hfull, rfl, rfl⟩
  · exact nomatch h

/-- A round that ends the loop is behind the end of the file, or has had an error or a short chunk,
which may be empty.

**Proof sketch.** The branches of a round that end the loop: the offset is at the end, the request
has failed, or the chunk is empty or short and is still put behind the data. -/
lemma downloadStep_inr {r : Except TdxError Bytes × σ}
    (h : env.downloadStep filename filesize d = .inr r) :
    (¬ d.offset < filesize.toNat ∧ r = (.ok d.data, d.world)) ∨
      (d.offset < filesize.toNat ∧ ∃ w,
        (∃ e, env.getReportFile filename d.offset d.world = (.error e, w) ∧ r = (.error e, w)) ∨
          ∃ chunk, env.getReportFile filename d.offset d.world = (.ok chunk, w) ∧
            r = (.ok (d.data ++ chunk), w)) := by
  rw [downloadStep] at h
  split at h
  · rename_i hleft
    rcases hreply : env.getReportFile filename d.offset d.world with ⟨e | chunk, w⟩ <;>
      rw [hreply] at h
    · exact .inr ⟨hleft, w, .inl ⟨e, rfl, (Sum.inr.inj h).symm⟩⟩
    · refine .inr ⟨hleft, w, .inr ⟨chunk, rfl, ?_⟩⟩
      simp only at h
      split at h
      · rename_i hempty
        rw [hempty, List.append_nil]
        exact (Sum.inr.inj h).symm
      · split at h
        · exact (Sum.inr.inj h).symm
        · exact nomatch h
  · rename_i hdone
    exact .inl ⟨hdone, (Sum.inr.inj h).symm⟩

/-- The offset counts the bytes so far, in 32 bits. -/
lemma offset_eq {w : σ}
    (h : Relation.ReflTransGen (Loop.Continues (env.downloadStep filename filesize)) ⟨0, [], w⟩ d) :
    d.offset = d.data.length % 2 ^ 32 := by
  refine Loop.invariant (I := fun d => d.offset = d.data.length % 2 ^ 32) ?_ rfl h
  intro d d' hd hstep
  obtain ⟨-, chunk, -, -, hoffset, hdata⟩ := downloadStep_inl hstep
  rw [hoffset, hdata, hd, List.length_append, Nat.mod_add_mod]

/-- A whole file has been reached at its end. -/
lemma offset_of_complete {w : σ}
    (h : Relation.ReflTransGen (Loop.Continues (env.downloadStep filename filesize)) ⟨0, [], w⟩ d)
    (hlen : d.data.length = filesize.toNat) : d.offset = filesize.toNat := by
  rw [offset_eq h, hlen]
  exact Nat.mod_eq_of_lt filesize.toNat_lt

/-- A loop that ends as it should comes to an error or to a chunk that makes up the file: where it
ends because its offset has come to the end, the full chunk before was that one.

**Proof sketch.** By how the last round ends. If the offset is at the end, then it is not the first
round, since the size is not zero, and the round before received the last chunk. Otherwise the round
itself receives an error or a chunk. -/
lemma chunksComplete_of_exit (hsize : 0 < filesize) {w : σ} {r : Except TdxError Bytes × σ}
    (hreach :
      Relation.ReflTransGen (Loop.Continues (env.downloadStep filename filesize)) ⟨0, [], w⟩ d)
    (hstep : env.downloadStep filename filesize d = .inr r)
    (hr : (∃ e, r.1 = .error e) ∨ r.1 = .ok file ∧ file.length = filesize.toNat) :
    env.ChunksComplete filename filesize file w := by
  obtain ⟨hdone, rfl⟩ | ⟨hleft, w', ⟨e, hreply, -⟩ | ⟨chunk, hreply, rfl⟩⟩ := downloadStep_inr hstep
  · obtain ⟨hdata, hlen⟩ := hr.resolve_left fun ⟨_, h⟩ => nomatch h
    obtain rfl := Except.ok.inj hdata
    rcases Relation.ReflTransGen.cases_tail hreach with hstart | ⟨before, hbefore, hlast⟩
    · have hpos : 0 < filesize.toNat := UInt32.lt_iff_toNat_lt.mp hsize
      exact absurd (hstart ▸ hpos) hdone
    · obtain ⟨hleft, chunk, hreply, -, -, hdata⟩ := downloadStep_inl hlast
      exact ⟨before, hbefore, hleft, .inr ⟨chunk, d.world, hreply, hdata.symm, hlen⟩⟩
  · exact ⟨d, hreach, hleft, .inl ⟨e, by rw [hreply]⟩⟩
  · obtain ⟨hdata, hlen⟩ := hr.resolve_left fun ⟨_, h⟩ => nomatch h
    exact ⟨d, hreach, hleft, .inr ⟨chunk, w', hreply, Except.ok.inj hdata, hlen⟩⟩

/-- After a chunk that makes up the file the loop ends at once, or in the next round. The chunk is
not empty, as the offset before it is not at the end.

**Proof sketch.** A failed request ends the loop with its error. A chunk that makes up the file is
not empty, because the offset before it is the length of the data and is before the end. If it is
short, the loop ends with it; if it is full, the next round finds the offset at the end. -/
lemma exit_of_chunksComplete {w : σ} (h : env.ChunksComplete filename filesize file w) :
    ∃ d r,
      Relation.ReflTransGen (Loop.Continues (env.downloadStep filename filesize)) ⟨0, [], w⟩ d ∧
      env.downloadStep filename filesize d = .inr r ∧
      ((∃ e, r.1 = .error e) ∨ r.1 = .ok file ∧ file.length = filesize.toNat) := by
  obtain ⟨d, hreach, hleft, ⟨e, he⟩ | ⟨chunk, w', hreply, hdata, hlen⟩⟩ := h
  · rcases hreply : env.getReportFile filename d.offset d.world with ⟨e' | chunk, w'⟩ <;>
      rw [hreply] at he
    · refine ⟨d, (.error e', w'), hreach, ?_, .inl ⟨e', rfl⟩⟩
      rw [downloadStep, if_pos hleft, hreply]
    · exact nomatch he
  · have hne : chunk ≠ [] := by
      rintro rfl
      rw [List.append_nil] at hdata
      exact hleft.ne (offset_of_complete hreach (hdata ▸ hlen))
    by_cases hshort : chunk.length < reportChunkSize
    · refine ⟨d, (.ok file, w'), hreach, ?_, .inr ⟨rfl, hlen⟩⟩
      rw [downloadStep, if_pos hleft, hreply]
      simp only [if_neg hne, if_pos hshort, hdata]
    · have hlast : env.downloadStep filename filesize d =
          .inl ⟨(d.offset + chunk.length) % 2 ^ 32, file, w'⟩ := by
        rw [downloadStep, if_pos hleft, hreply]
        simp only [if_neg hne, if_neg hshort, hdata]
      have hend := hreach.tail hlast
      refine ⟨_, (.ok file, w'), hend, ?_, .inr ⟨rfl, hlen⟩⟩
      exact if_neg (offset_of_complete hend hlen).not_lt

/-- **The loop ends as it should** exactly if it comes to a chunk that makes up the file, or to an
error. -/
lemma exits_iff_chunksComplete (hsize : 0 < filesize) (w : σ) :
    (∃ d r,
        Relation.ReflTransGen (Loop.Continues (env.downloadStep filename filesize)) ⟨0, [], w⟩ d ∧
        env.downloadStep filename filesize d = .inr r ∧
        ((∃ e, r.1 = .error e) ∨ r.1 = .ok file ∧ file.length = filesize.toNat)) ↔
      env.ChunksComplete filename filesize file w :=
  ⟨fun ⟨_, _, hreach, hstep, hr⟩ => chunksComplete_of_exit hsize hreach hstep hr,
    exit_of_chunksComplete⟩

/-- **When a call is complete or an error**, on a cache miss.

**Proof sketch.** On a cache miss the call is the loop and what is done with its result. The loop
ends with an error or the file exactly if the chunks complete it (`exits_iff_chunksComplete`), and
with fuel enough the run reaches this end (`Loop.run_iff`); a result that is the file is cached,
from where it is read back (`cacheGet_cachePut`). -/
lemma completeOrError_iff (hsize : 0 < filesize) {s : FinanceState σ}
    (hmiss : env.cacheGet filename s = none) :
    env.CompleteOrError filename filesize file s ↔
      env.ChunksComplete filename filesize file s.world := by
  have hne : filesize ≠ 0 := (UInt32.ne_of_lt hsize).symm
  rw [← exits_iff_chunksComplete hsize]
  constructor
  · rintro ⟨fuel, result, s', hrun, hresult⟩
    rw [getReportFileBySize, hmiss, downloadReportFile, if_neg hne] at hrun
    rcases hloop : Loop.run (env.downloadStep filename filesize) fuel ⟨0, [], s.world⟩ with
      _ | ⟨e | data, w⟩ <;> rw [hloop] at hrun
    · exact nomatch hrun
    · obtain ⟨d, hreach, hexit⟩ := Loop.run_iff.mp ⟨fuel, hloop⟩
      exact ⟨d, _, hreach, hexit, .inl ⟨e, rfl⟩⟩
    · obtain ⟨d, hreach, hexit⟩ := Loop.run_iff.mp ⟨fuel, hloop⟩
      obtain ⟨rfl, -⟩ := Prod.mk.inj (Option.some.inj hrun)
      obtain ⟨⟨e, he⟩, -⟩ | ⟨hdata, hlen, -⟩ := hresult
      · exact nomatch he
      · exact ⟨d, _, hreach, hexit, .inr ⟨hdata, hlen⟩⟩
  · rintro ⟨d, ⟨result, w⟩, hreach, hexit, hresult⟩
    obtain ⟨fuel, hloop⟩ := Loop.run_iff.mpr ⟨d, hreach, hexit⟩
    rcases hresult with ⟨e, rfl⟩ | ⟨rfl, hlen⟩
    · refine ⟨fuel, .error e, { s with world := w }, ?_, .inl ⟨⟨e, rfl⟩, rfl⟩⟩
      rw [getReportFileBySize, hmiss, downloadReportFile, if_neg hne, hloop]
    · refine ⟨fuel, .ok file, env.cachePut filename file { s with world := w }, ?_,
        .inr ⟨rfl, hlen, w, rfl, fun hdir hwrite w' => cacheGet_cachePut hdir hwrite⟩⟩
      rw [getReportFileBySize, hmiss, downloadReportFile, if_neg hne, hloop]

/-! ### Servers that send the file -/

/-- What has been downloaded from a server of the file is its beginning. -/
lemma downloaded_at {w : σ} (hserves : env.ServesFile filename file)
    (hlen : file.length = filesize.toNat)
    (h : Relation.ReflTransGen (Loop.Continues (env.downloadStep filename filesize)) ⟨0, [], w⟩ d) :
    Pieces.At file 0 d.data ∧ d.data.length = d.offset := by
  refine Loop.invariant (I := fun d => Pieces.At file 0 d.data ∧ d.data.length = d.offset) ?_
    ⟨Pieces.at_nil file 0, rfl⟩ h
  rintro d d' ⟨hat, hoffset⟩ hstep
  obtain ⟨hleft, chunk, hreply, -, hoffset', hdata⟩ := downloadStep_inl hstep
  have hbound := filesize.toNat_lt
  have hchunk := hserves d.offset (by omega) d.world chunk d'.world hreply
  have hinside := hchunk.length_le (by omega)
  rw [hdata, Pieces.at_append_iff, hoffset, Nat.zero_add, List.length_append, hoffset, hoffset']
  exact ⟨⟨hat, hchunk⟩, (Nat.mod_eq_of_lt (by omega)).symm⟩

/-- A chunk makes up the file exactly if it reaches to its end. -/
lemma chunk_completes_iff {w : σ} {chunk : Bytes} {w' : σ} (hserves : env.ServesFile filename file)
    (hlen : file.length = filesize.toNat)
    (h : Relation.ReflTransGen (Loop.Continues (env.downloadStep filename filesize)) ⟨0, [], w⟩ d)
    (hleft : d.offset < filesize.toNat)
    (hreply : env.getReportFile filename d.offset d.world = (.ok chunk, w')) :
    d.data ++ chunk = file ↔ d.offset + chunk.length = filesize.toNat := by
  obtain ⟨hat, hoffset⟩ := downloaded_at hserves hlen h
  have hbound := filesize.toNat_lt
  have hchunk := hserves d.offset (by omega) d.world chunk w' hreply
  rw [← hlen, ← hoffset, ← List.length_append]
  refine ⟨congrArg List.length, fun hfull => Pieces.At.eq_whole ?_ hfull⟩
  rw [Pieces.at_append_iff, hoffset, Nat.zero_add]
  exact ⟨hat, hchunk⟩

/-- A server that sends the same chunk for every offset, to a client with a clock and a cache. -/
def chunkServer (chunk : Bytes) : FinanceEnv ℕ where
  sendAndRecv _ time := (.ok (LittleEndian.toLE 4 chunk.length ++ chunk), time + 1)
  now time := time
  cacheDir := true
  write _ data _ := some data

/-- A client that has not downloaded anything yet. -/
def emptyCache : FinanceState ℕ := ⟨0, fun _ => none⟩

end FinanceEnv

end Tdxrs
