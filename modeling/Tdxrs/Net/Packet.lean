import Tdxrs.Error
import Tdxrs.Library.Framing
import Tdxrs.Library.LittleEndian

set_option relaxedAutoImplicit false
set_option autoImplicit false

/-!
# Response packets

A server response is a 16-byte header (`src/net/packet.rs`), which declares the length of the
body that follows, and the body itself, compressed when the header's two sizes differ
(`src/net/utils.rs`). All clients read a response the same way, in chunks of whatever size the
socket has; that reader is the one of `Framing` for the format `responseFormat`.

The zlib decoder is a third-party crate. It enters as a parameter `ZlibDecoder`, the result of
reading at most a given number of bytes of the decompressed stream.

## Main definitions

* `Tdxrs.ResponseHeader`, `Tdxrs.ResponseHeader.parse` — the response header.
* `Tdxrs.responseFormat`, `Tdxrs.Response` — well-framed responses.
* `Tdxrs.decompressZlibChecked`, `Tdxrs.decompressZlib` — bounded decompression.
* `Tdxrs.responseBody` — what a client makes of a response it has read completely.
-/

namespace Tdxrs

/-- A byte string. -/
abbrev Bytes := List UInt8

/-- A response header, 16 bytes little-endian: sequence number, method, an ignored word, and the
lengths of the body on the wire and after decompression. -/
structure ResponseHeader where
  seq : ℕ
  method : ℕ
  zipSize : ℕ
  unzipSize : ℕ
deriving DecidableEq, Repr

/-- The length of a response header. -/
def rspHeaderLen : ℕ := 16

/-- Parses a response header. -/
def ResponseHeader.parse (buf : Bytes) : Except TdxError ResponseHeader :=
  if buf.length < rspHeaderLen then
    .error (ErrorCode.responseHeaderInvalid.err
      s!"expected {rspHeaderLen} bytes, got {buf.length}")
  else
    .ok
      { seq := LittleEndian.field buf 0 4
        method := LittleEndian.field buf 4 4
        zipSize := LittleEndian.field buf 12 2
        unzipSize := LittleEndian.field buf 14 2 }

/-- The framing of responses: the header declares the body length `zip_size`. -/
def responseFormat : Framing.Format UInt8 ResponseHeader TdxError :=
  ⟨rspHeaderLen, ResponseHeader.parse, ResponseHeader.zipSize⟩

/-- A well-framed response. -/
abbrev Response := Framing.Frame responseFormat

/-- What a client has read of the current response. -/
abbrev ResponsePhase := Framing.Phase UInt8 ResponseHeader

/-- The zlib decoder: the bytes obtained from compressed data by reading the decompressed
stream to its end or up to the given number of bytes, or the decoder's error text. -/
abbrev ZlibDecoder := Bytes → ℕ → Except String Bytes

/-- The absolute bound on a decompressed response. -/
def decompressAbsLimit : ℕ := 8 * 1024 * 1024

/-- Decompression bounded by the declared size plus a margin, or by the absolute bound when no
size is declared (`unzipSize = 0`). -/
def decompressZlibChecked (z : ZlibDecoder) (data : Bytes) (unzipSize : ℕ) :
    Except TdxError Bytes :=
  let limit := if 0 < unzipSize then min (unzipSize + 4096) decompressAbsLimit
    else decompressAbsLimit
  match z data (limit + 1) with
  | .error e => .error (ErrorCode.decompressFailed.err e)
  | .ok out =>
    if limit < out.length then
      .error (ErrorCode.decompressFailed.err
        s!"decompressed {out.length} bytes exceeds limit {limit} (zip bomb?)")
    else .ok out

/-- Decompression without a declared size. -/
def decompressZlib (z : ZlibDecoder) (data : Bytes) : Except TdxError Bytes :=
  decompressZlibChecked z data 0

/-- What the clients make of a response they have read completely: an empty body counts as a
disconnect, and a body whose two sizes differ is decompressed. -/
def responseBody (decompress : Bytes → Except TdxError Bytes) (header : ResponseHeader)
    (body : Bytes) : Except TdxError Bytes :=
  if body.isEmpty then .error (ErrorCode.disconnected.err "empty response body")
  else if header.zipSize ≠ header.unzipSize then decompress body
  else .ok body

/-- An uncompressed response with the given body. -/
def plainResponse (body : Bytes) (h : body.length < 65536) : Response where
  head := List.replicate 12 0 ++ LittleEndian.toLE 2 body.length ++
    LittleEndian.toLE 2 body.length
  header := ⟨0, 0, body.length, body.length⟩
  body := body
  head_length := by simp [responseFormat, rspHeaderLen]
  parse_head := by
    have hmod : body.length % 65536 = body.length := Nat.mod_eq_of_lt h
    have hzip : LittleEndian.field (List.replicate 12 0 ++ LittleEndian.toLE 2 body.length ++
        LittleEndian.toLE 2 body.length) 12 2 = body.length := by
      rw [LittleEndian.field_append_left _ (by simp), LittleEndian.field_append_right _ _ (by simp)]
      simpa [hmod] using LittleEndian.field_toLE 2 body.length
    have hunzip : LittleEndian.field (List.replicate 12 0 ++ LittleEndian.toLE 2 body.length ++
        LittleEndian.toLE 2 body.length) 14 2 = body.length := by
      rw [LittleEndian.field_append_right _ _ (by simp)]
      simpa [hmod] using LittleEndian.field_toLE 2 body.length
    have hlen : ¬ (List.replicate 12 (0 : UInt8) ++ LittleEndian.toLE 2 body.length ++
        LittleEndian.toLE 2 body.length).length < rspHeaderLen := by simp [rspHeaderLen]
    simp only [responseFormat, ResponseHeader.parse, if_neg hlen, hzip, hunzip]
    rfl
  body_length := rfl

end Tdxrs
