import Mathlib.Data.List.DropRight
import Tdxrs.Library.Pieces
import Tdxrs.Library.Program
import Tdxrs.Library.Utf8
import Tdxrs.Protocol.Codes
import Tdxrs.Protocol.Constants

set_option relaxedAutoImplicit false
set_option autoImplicit false

/-!
# Requests for company information

The F10 clients `TdxF10Client` of `src/net/f10_client.rs` and `ProfileClient` of
`src/profile/client.rs`. A list of categories says for each of them in which file, from where on and
how long its content is, and the content is asked for with what the list says. The bytes of the name
of the file are kept without the zeros behind them and filled up again. The code is checked by its
length in UTF-8, and is written in GBK.

## Main definitions

* `Tdxrs.parseCompanyInfoCategory` — the parser of a list of categories.
* `Tdxrs.F10Client.getContent` — the request for a content, as a program.
* `Tdxrs.ContentLayout` — the layout of the request.

## Main results

* `Tdxrs.parseCompanyInfoCategory_getElem` — where a category is in a response.
* `Tdxrs.resizeTo_trimNullBytes` — the name of a file comes back.
* `Tdxrs.contentLayout_iff` — when a request has the layout.
* `Tdxrs.contentLayout_of_ascii` — it has for a code of ASCII characters.
-/

namespace Tdxrs

/-! ## Texts in GBK -/

/-- A text in GBK, by the bytes of its characters. -/
def encodeGbk (gbk : Char → Bytes) (s : Text) : Bytes := s.flatMap gbk

/-- Bytes filled up with zeros, or cut, to a length. -/
def resizeTo (targetLen : ℕ) (bytes : Bytes) : Bytes :=
  if bytes.length < targetLen then bytes ++ List.replicate (targetLen - bytes.length) 0
  else if targetLen < bytes.length then bytes.take targetLen
  else bytes

/-- A text in GBK, filled up with zeros or cut to a length. -/
def encodeGbkPadded (gbk : Char → Bytes) (s : Text) (targetLen : ℕ) : Bytes :=
  resizeTo targetLen (encodeGbk gbk s)

/-- Bytes without the zeros at their end. -/
def trimNullBytes (bytes : Bytes) : Bytes := bytes.rdropWhile (· = 0)

/-- The text of bytes in GBK without the zeros at their end. -/
def decodeGbkString (decode : Bytes → Text) (bytes : Bytes) : Text :=
  let bytes := trimNullBytes bytes
  if bytes = [] then [] else decode bytes

/-! ## The parsers -/

def categoryEntrySize : ℕ := 152
def categoryNameSize : ℕ := 64
def categoryFilenameSize : ℕ := 80
def contentHeaderSize : ℕ := 12

/-- A category of company information. -/
structure F10Category where
  name : Text
  filename : Text
  /-- The bytes of the name of the file, to be sent back. -/
  filenameRaw : Bytes
  start : UInt32
  length : UInt32
deriving DecidableEq

/-- A content with the number of its bytes. -/
structure F10Content where
  category : Text
  content : Text
  byteLength : ℕ

section Parsers

variable (decode : Bytes → Text)

/-- The category at a position. -/
def parseCategory (data : Bytes) (pos : ℕ) : F10Category :=
  let filenameBytes := (data.drop (pos + categoryNameSize)).take categoryFilenameSize
  { name := decodeGbkString decode ((data.drop pos).take categoryNameSize)
    filename := decodeGbkString decode filenameBytes
    filenameRaw := trimNullBytes filenameBytes
    start := UInt32.ofNat (LittleEndian.field data (pos + 144) 4)
    length := UInt32.ofNat (LittleEndian.field data (pos + 148) 4) }

/-- The categories that are left, from a position on. -/
def categoriesFrom (data : Bytes) : ℕ → ℕ → List F10Category
  | 0, _ => []
  | left + 1, pos =>
    parseCategory decode data pos :: categoriesFrom data left (pos + categoryEntrySize)

/-- Parses a list of categories. -/
def parseCompanyInfoCategory (data : Bytes) : Except TdxError (List F10Category) :=
  if data.length < 2 then .error (.invalidData "响应数据太短")
  else
    let count := LittleEndian.field data 0 2
    let expectedLen := 2 + count * categoryEntrySize
    if data.length < expectedLen then
      .error (.invalidData s!"响应数据长度不足: 期望 {expectedLen} 字节, 实际 {data.length} 字节")
    else .ok (categoriesFrom decode data count 2)

/-- Parses a content. -/
def parseCompanyInfoContent (data : Bytes) : Except TdxError Text :=
  if data.length < contentHeaderSize then .error (.invalidData "响应数据太短")
  else
    let length := LittleEndian.field data 10 2
    let expectedLen := contentHeaderSize + length
    if data.length < expectedLen then
      .error (.invalidData s!"响应数据长度不足: 期望 {expectedLen} 字节, 实际 {data.length} 字节")
    else .ok (decodeGbkString decode ((data.drop contentHeaderSize).take length))

end Parsers

/-! ## The request for a content -/

/-- The header of the request. -/
def contentRequestHeader : Bytes :=
  [0x0c, 0x07, 0x10, 0x9c, 0x00, 0x01, 0x68, 0x00, 0x68, 0x00, 0xd0, 0x02]

/-- The bytes of the name of a file: those that were received, if there are any. -/
def filenameBytes (gbk : Char → Bytes) (category : F10Category) : Bytes :=
  if category.filenameRaw = [] then encodeGbkPadded gbk category.filename categoryFilenameSize
  else resizeTo categoryFilenameSize category.filenameRaw

/-- The request for the content of a category. -/
def contentRequest (gbk : Char → Bytes) (market : UInt8) (code : Text) (category : F10Category) :
    Bytes :=
  contentRequestHeader ++ LittleEndian.toLE 2 market.toNat ++ encodeGbk gbk code ++
    LittleEndian.toLE 2 0 ++ filenameBytes gbk category ++
    LittleEndian.toLE 4 category.start.toNat ++ LittleEndian.toLE 4 category.length.toNat ++
    LittleEndian.toLE 4 0

/-- The two clients, which differ in their connections and errors. -/
inductive F10Client where
  | f10
  | profile

/-- The programs of a client: what they ask for is sent, and answered with a body or an error. -/
abbrev F10Program := Program Bytes fun _ => Except TdxError Bytes

namespace F10Client

/-- The error of a client for an unknown market. -/
def marketError (client : F10Client) (market : UInt8) : TdxError :=
  let message := s!"无效的市场代码: {market} (仅支持 0=SZ, 1=SH)"
  match client with
  | f10 => ErrorCode.argumentOutOfRange.err message
  | profile => .invalidData message

/-- The error of a client for a code of another length. -/
def codeError (client : F10Client) (code : Text) : TdxError :=
  match client with
  | f10 => ErrorCode.invalidStockCode.err s!"{String.ofList code} (必须为 6 位数字)"
  | profile => .invalidData s!"无效的股票代码: {String.ofList code} (必须为 6 位数字)"

/-- `get_content`. -/
def getContent (client : F10Client) (gbk : Char → Bytes) (decode : Bytes → Text) (market : UInt8)
    (code : Text) (category : F10Category) : F10Program (Except TdxError F10Content) :=
  if market ≠ marketSz ∧ market ≠ marketSh then .done (.error (client.marketError market))
  else if Utf8.len code ≠ 6 then .done (.error (client.codeError code))
  else do
    match ← .perform (contentRequest gbk market code category) with
    | .error e => .done (.error e)
    | .ok response =>
      .done ((parseCompanyInfoContent decode response).map fun content =>
        ⟨category.name, content, Utf8.len content⟩)

end F10Client

/-! ## Sizes and positions -/

/-- The length of what is filled up or cut. -/
@[simp] lemma length_resizeTo (targetLen : ℕ) (bytes : Bytes) :
    (resizeTo targetLen bytes).length = targetLen := by
  unfold resizeTo
  split
  · rw [List.length_append, List.length_replicate]
    omega
  · split
    · rw [List.length_take]
      omega
    · omega

/-- **The name of a file comes back**: the zeros that were taken away are filled up again.

**Proof sketch.** The bytes are what is left after trimming, and zeros only. If there were zeros,
filling up adds as many; if there were none, the bytes have the length already. -/
theorem resizeTo_trimNullBytes {targetLen : ℕ} {bytes : Bytes} (h : bytes.length = targetLen) :
    resizeTo targetLen (trimNullBytes bytes) = bytes := by
  have hsplit : trimNullBytes bytes ++ bytes.rtakeWhile (· = 0) = bytes :=
    List.rdropWhile_append_rtakeWhile
  have hzeros : bytes.rtakeWhile (· = 0) =
      List.replicate (bytes.rtakeWhile (· = 0)).length 0 :=
    List.eq_replicate_of_mem fun b hb => by simpa using List.mem_rtakeWhile_imp hb
  have hlen : (trimNullBytes bytes).length + (bytes.rtakeWhile (· = 0)).length = targetLen := by
    rw [← List.length_append, hsplit, h]
  unfold resizeTo
  split
  · rw [← hlen, Nat.add_sub_cancel_left, ← hzeros, hsplit]
  · have hnone : bytes.rtakeWhile (· = 0) = [] := List.length_eq_zero_iff.mp (by omega)
    rw [if_neg (by omega)]
    rwa [hnone, List.append_nil] at hsplit

/-- Where a category begins in a response. -/
def categoryOffset (i : ℕ) : ℕ := 2 + i * categoryEntrySize

lemma categoriesFrom_getElem? (decode : Bytes → Text) (data : Bytes) (left pos i : ℕ) :
    (categoriesFrom decode data left pos)[i]? =
      if i < left then some (parseCategory decode data (pos + i * categoryEntrySize))
      else none := by
  induction left generalizing pos i with
  | zero => rfl
  | succ left ih =>
    cases i with
    | zero =>
      rw [categoriesFrom, List.getElem?_cons_zero, if_pos (Nat.succ_pos _), Nat.zero_mul,
        Nat.add_zero]
    | succ i =>
      rw [categoriesFrom, List.getElem?_cons_succ, ih, Nat.succ_mul, Nat.add_assoc,
        Nat.add_comm categoryEntrySize]
      simp only [Nat.add_lt_add_iff_right]

/-- **Where a category is in a response** that is accepted: an entry that is all there.

**Proof sketch.** A response that is accepted is as long as its count of entries asks for, so entry
`i` ends within it; `categoriesFrom_getElem?` says what is parsed there. -/
theorem parseCompanyInfoCategory_getElem? {decode : Bytes → Text} {data : Bytes}
    {categories : List F10Category} (hparse : parseCompanyInfoCategory decode data = .ok categories)
    {i : ℕ} {category : F10Category} (hcategory : categories[i]? = some category) :
    categoryOffset i + categoryEntrySize ≤ data.length ∧
      category = parseCategory decode data (categoryOffset i) := by
  unfold parseCompanyInfoCategory at hparse
  split at hparse
  · exact nomatch hparse
  · dsimp only at hparse
    split at hparse
    · exact nomatch hparse
    · rename_i hlen
      cases hparse
      rw [categoriesFrom_getElem?] at hcategory
      split at hcategory
      · rename_i hi
        cases hcategory
        refine ⟨?_, rfl⟩
        have hentries := Nat.mul_le_mul_right categoryEntrySize (Nat.succ_le_of_lt hi)
        rw [Nat.succ_mul] at hentries
        unfold categoryOffset
        omega
      · exact nomatch hcategory

/-! ## The layout of the request -/

/-- The fixed layout of a request for what is in a response at a position: twelve bytes of header,
two of the market, six of the code, two zeros, the 80 bytes of the name of the file, start and
length as in the response, and four zeros. -/
structure ContentLayout (market : UInt8) (codeBytes data : Bytes) (pos : ℕ) (request : Bytes) :
    Prop where
  size : request.length = 114
  header : request.take 12 = contentRequestHeader
  market : LittleEndian.field request 12 2 = market.toNat
  code : (request.drop 14).take 6 = codeBytes
  zeros : (request.drop 20).take 2 = [0, 0]
  filename : (request.drop 22).take 80 = (data.drop (pos + 64)).take 80
  start : LittleEndian.field request 102 4 = LittleEndian.field data (pos + 144) 4
  length : LittleEndian.field request 106 4 = LittleEndian.field data (pos + 148) 4
  zeros' : request.drop 110 = [0, 0, 0, 0]

section Layout

variable {client : F10Client} {gbk : Char → Bytes} {decode : Bytes → Text} {data : Bytes}
  {categories : List F10Category} {i : ℕ} {category : F10Category} {market : UInt8} {code : Text}
  {request : Bytes} {next : Except TdxError Bytes → F10Program (Except TdxError F10Content)}

/-- What is sent where a market and a code are accepted. -/
lemma F10Client.getContent_call
    (hcall : client.getContent gbk decode market code category = .call request next) :
    request = contentRequest gbk market code category ∧ Utf8.len code = 6 := by
  unfold getContent at hcall
  split at hcall
  · exact nomatch hcall
  · split at hcall
    · exact nomatch hcall
    · rename_i hlen
      injection hcall with hrequest
      exact ⟨hrequest.symm, not_not.mp hlen⟩

/-- A field of four bytes is a `u32`. -/
lemma toNat_field_four (l : Bytes) (pos : ℕ) :
    (UInt32.ofNat (LittleEndian.field l pos 4)).toNat = LittleEndian.field l pos 4 :=
  UInt32.toNat_ofNat_of_lt (LittleEndian.field_lt l pos 4)

/-- The name of the file is the one of the response, unless that is empty. -/
lemma filenameBytes_parseCategory (gbk : Char → Bytes) (decode : Bytes → Text) {pos : ℕ}
    (hlen : pos + categoryEntrySize ≤ data.length)
    (hname : ∃ b ∈ (data.drop (pos + 64)).take 80, b ≠ 0) :
    filenameBytes gbk (parseCategory decode data pos) = (data.drop (pos + 64)).take 80 := by
  have hsize : ((data.drop (pos + 64)).take 80).length = 80 := by
    unfold categoryEntrySize at hlen
    rw [List.length_take, List.length_drop]
    omega
  have hraw : trimNullBytes ((data.drop (pos + 64)).take 80) ≠ [] := by
    rw [trimNullBytes, Ne, List.rdropWhile_eq_nil_iff]
    obtain ⟨b, hb, hzero⟩ := hname
    exact fun h => hzero (by simpa using h b hb)
  exact (if_neg hraw).trans (resizeTo_trimNullBytes hsize)

lemma length_filenameBytes : (filenameBytes gbk category).length = 80 := by
  unfold filenameBytes encodeGbkPadded
  split <;> exact length_resizeTo _ _

/-- The size of a request goes with the size of the code in GBK. -/
lemma length_contentRequest (gbk : Char → Bytes) (market : UInt8) (code : Text)
    (category : F10Category) :
    (contentRequest gbk market code category).length = 108 + (encodeGbk gbk code).length := by
  simp only [contentRequest, contentRequestHeader, List.length_append, List.length_cons,
    List.length_nil, LittleEndian.length_toLE, length_filenameBytes]
  omega

/-- A request has the layout if the code has six bytes in GBK.

**Proof sketch.** The request is its pieces one behind the other, and once the code has six bytes,
every piece stands at a fixed position (`Pieces.at_flatten_iff`). The name of the file is the one of
the entry, with the zeros that the parser took away filled up again
(`filenameBytes_parseCategory`). -/
lemma contentLayout_of_length {pos : ℕ} (hlen : pos + categoryEntrySize ≤ data.length)
    (hname : ∃ b ∈ (data.drop (pos + 64)).take 80, b ≠ 0)
    (hcode : (encodeGbk gbk code).length = 6) :
    ContentLayout market (encodeGbk gbk code) data pos
      (contentRequest gbk market code (parseCategory decode data pos)) := by
  have hsize := length_contentRequest gbk market code (parseCategory decode data pos)
  have hfile := filenameBytes_parseCategory gbk decode hlen hname
  set category := parseCategory decode data pos with hcategory
  set request := contentRequest gbk market code category with hrequest
  have hlanded : Pieces.Landed request 0
      [contentRequestHeader, LittleEndian.toLE 2 market.toNat, encodeGbk gbk code,
        LittleEndian.toLE 2 0, filenameBytes gbk category,
        LittleEndian.toLE 4 category.start.toNat, LittleEndian.toLE 4 category.length.toNat,
        LittleEndian.toLE 4 0] := by
    rw [← Pieces.at_flatten_iff, hrequest]
    simp [Pieces.At, contentRequest]
  simp only [Pieces.Landed, LittleEndian.length_toLE, length_filenameBytes, hcode, and_true]
    at hlanded
  obtain ⟨hheader, hmarket, hcodeAt, hzeros, hfileAt, hstart, hlength, hzeros'⟩ := hlanded
  have htake {pos w : ℕ} {piece : Bytes} (hat : Pieces.At request pos piece)
      (hw : piece.length = w) : (request.drop pos).take w = piece := hw ▸ hat.take_drop
  have hrest : LittleEndian.toLE 4 0 = request.drop 110 :=
    List.IsPrefix.eq_of_length hzeros' (by rw [List.length_drop, hsize, hcode]; rfl)
  exact
    { size := by omega
      header := htake hheader rfl
      market := LittleEndian.field_of_at hmarket (market.toNat_lt.trans (by decide))
      code := htake hcodeAt hcode
      zeros := htake hzeros rfl
      filename := (htake hfileAt length_filenameBytes).trans hfile
      start :=
        (LittleEndian.field_of_at hstart category.start.toNat_lt).trans (toNat_field_four _ _)
      length :=
        (LittleEndian.field_of_at hlength category.length.toNat_lt).trans (toNat_field_four _ _)
      zeros' := hrest.symm }

/-- **When a request has the layout**: for an accepted response, a category with a name of a file,
and an accepted market and code, exactly if the code has six bytes in GBK.

**Proof sketch.** With six bytes each part of the request stands where the layout has it, and the
name of the file is filled up with the zeros that were taken away. With another number of bytes the
request has another size. -/
theorem contentLayout_iff
    (hparse : parseCompanyInfoCategory decode data = .ok categories)
    (hcategory : categories[i]? = some category)
    (hname : ∃ b ∈ (data.drop (categoryOffset i + 64)).take 80, b ≠ 0)
    (hcall : client.getContent gbk decode market code category = .call request next) :
    ContentLayout market (encodeGbk gbk code) data (categoryOffset i) request ↔
      (encodeGbk gbk code).length = 6 := by
  obtain ⟨hlen, rfl⟩ := parseCompanyInfoCategory_getElem? hparse hcategory
  obtain ⟨rfl, -⟩ := F10Client.getContent_call hcall
  refine ⟨fun hlayout => ?_, contentLayout_of_length hlen hname⟩
  have hsize := hlayout.size
  rw [length_contentRequest] at hsize
  omega

end Layout

/-! ## Codes of six bytes -/

/-- In GBK an ASCII character is one byte, and every other one is one or more. -/
structure GbkWidths (gbk : Char → Bytes) : Prop where
  ascii : ∀ c, c.utf8Size = 1 → (gbk c).length = 1
  other : ∀ c, 1 ≤ (gbk c).length

/-- **A code of ASCII characters**, whose bytes are the same number in UTF-8 and in GBK, gives a
request with the layout. -/
theorem contentLayout_of_ascii {gbk : Char → Bytes} (hgbk : GbkWidths gbk) {decode : Bytes → Text}
    {data : Bytes} {categories : List F10Category} {i : ℕ} {category : F10Category}
    {market : UInt8} {code : Text} {client : F10Client} {request : Bytes}
    {next : Except TdxError Bytes → F10Program (Except TdxError F10Content)}
    (hparse : parseCompanyInfoCategory decode data = .ok categories)
    (hcategory : categories[i]? = some category)
    (hname : ∃ b ∈ (data.drop (categoryOffset i + 64)).take 80, b ≠ 0)
    (hcall : client.getContent gbk decode market code category = .call request next)
    (hcode : ∀ c ∈ code, c.utf8Size = 1) :
    ContentLayout market (encodeGbk gbk code) data (categoryOffset i) request := by
  obtain ⟨hlen, rfl⟩ := parseCompanyInfoCategory_getElem? hparse hcategory
  obtain ⟨rfl, hsix⟩ := F10Client.getContent_call hcall
  refine contentLayout_of_length hlen hname ?_
  have hwidths : code.map (fun c => (gbk c).length) = code.map Char.utf8Size :=
    List.map_congr_left fun c hc => (hgbk.ascii c (hcode c hc)).trans (hcode c hc).symm
  rw [encodeGbk, List.length_flatMap, hwidths, ← hsix, Utf8.len]

/-- The bytes in GBK of two characters and of ASCII. -/
def sampleGbk (c : Char) : Bytes :=
  if c = '茅' then [0xC3, 0xA9] else if c = '台' then [0xCC, 0xA8] else [UInt8.ofNat c.toNat]

/-- A response with one category. -/
def sampleCategories : Bytes :=
  [1, 0] ++ resizeTo 64 [0x41, 0x42] ++ resizeTo 80 [0x36, 0x30, 0x2E, 0x74, 0x78, 0x74] ++
    [0, 1, 0, 0] ++ [0, 0, 2, 0]

/-- The category of the response. -/
def sampleCategory : F10Category where
  name := "AB".toList
  filename := "60.txt".toList
  filenameRaw := [0x36, 0x30, 0x2E, 0x74, 0x78, 0x74]
  start := 256
  length := 131072

lemma parse_sampleCategories :
    parseCompanyInfoCategory asciiText sampleCategories = .ok [sampleCategory] := by
  decide +kernel

lemma sampleCategories_filename :
    ∃ b ∈ (sampleCategories.drop (categoryOffset 0 + 64)).take 80, b ≠ 0 :=
  ⟨0x36, by decide, by decide⟩

lemma gbkWidths_sampleGbk : GbkWidths sampleGbk := by
  constructor
  · intro c hc
    unfold sampleGbk
    split_ifs with h h'
    · exact absurd hc (by rw [h]; decide)
    · exact absurd hc (by rw [h']; decide)
    · rfl
  · intro c
    unfold sampleGbk
    split_ifs <;> simp

/-- A request for a code of six digits. -/
theorem contentLayout_digits :
    ContentLayout 1 (encodeGbk sampleGbk "600519".toList) sampleCategories (categoryOffset 0)
      (contentRequest sampleGbk 1 "600519".toList sampleCategory) :=
  (contentLayout_iff parse_sampleCategories rfl sampleCategories_filename
    (rfl : F10Client.f10.getContent sampleGbk asciiText 1 "600519".toList sampleCategory =
      .call _ _)).mpr (by decide)

/-- Two characters of three bytes each in UTF-8, and of two each in GBK, are accepted as a code. -/
theorem contentLayout_two_characters :
    GbkWidths sampleGbk ∧
      parseCompanyInfoCategory asciiText sampleCategories = .ok [sampleCategory] ∧
      (∃ b ∈ (sampleCategories.drop (categoryOffset 0 + 64)).take 80, b ≠ 0) ∧
      ∀ client : F10Client, ∃ request next,
        client.getContent sampleGbk asciiText 1 "茅台".toList sampleCategory =
          .call request next ∧
        ¬ ContentLayout 1 (encodeGbk sampleGbk "茅台".toList) sampleCategories (categoryOffset 0)
          request :=
  ⟨gbkWidths_sampleGbk, parse_sampleCategories, sampleCategories_filename,
    fun _ => ⟨_, _, rfl, fun hlayout => absurd hlayout.size (by decide)⟩⟩

end Tdxrs
