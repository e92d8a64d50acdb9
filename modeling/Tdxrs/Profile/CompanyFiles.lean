import Tdxrs.Profile.CompanyInfo
import Tdxrs.Protocol.Encoding

set_option relaxedAutoImplicit false
set_option autoImplicit false

/-!
# Company information as files

The calls of the F10 clients that use the directory of categories: one category by its name, and
all of them. What is behind them is a server with files. Its directory says for each category which
part of which file is the content, and a client sends this back to ask for it. A part is sent with
its length in 16 bits.

The calls in one piece are `get_content` (`Tdxrs.Profile.CompanyInfo`) and those of this file, of
`src/net/f10_client.rs` and `src/profile/client.rs`.

## Main definitions

* `Tdxrs.F10Client.getCategory`, `getCategoryAuto`, `getContentByName`, `getAllContents`,
  `getAllData` — the calls.
* `Tdxrs.CompanyFiles` — what a server knows of a company.
* `Tdxrs.CompanyQuery` — what a request asks for, read from its bytes.
* `Tdxrs.ServesCompany` — a server that answers requests with what it knows, or fails them.

## Main results

* `Tdxrs.parse_encodeDirectory` — a directory is read back.
* `Tdxrs.company_files_read` — what the calls return of the files of a company.
-/

namespace Tdxrs

/-! ## The calls -/

/-- The header of the request for the categories. -/
def categoryRequestHeader : Bytes :=
  [0x0c, 0x0f, 0x10, 0x9b, 0x00, 0x01, 0x0e, 0x00, 0x0e, 0x00, 0xcf, 0x02]

/-- The request for the categories. -/
def categoryRequest (gbk : Char → Bytes) (market : UInt8) (code : Text) : Bytes :=
  categoryRequestHeader ++ LittleEndian.toLE 2 market.toNat ++ encodeGbk gbk code ++
    LittleEndian.toLE 4 0

/-- The market of a code, by its first character. -/
def autoMarket (code : Text) : Except TdxError UInt8 :=
  if Utf8.len code ≠ 6 then
    .error (ErrorCode.invalidStockCode.err s!"{String.ofList code} (必须为 6 位数字)")
  else
    match code.head? with
    | some '6' => .ok marketSh
    | some '0' | some '3' => .ok marketSz
    | _ => .error (ErrorCode.unknownCodeFormat.err s!"无法自动识别市场代码: {String.ofList code}")

/-- The contents of a company. -/
structure F10Data where
  code : Text
  market : UInt8
  contents : List F10Content

namespace F10Data

def addContent (data : F10Data) (content : F10Content) : F10Data :=
  { data with contents := data.contents ++ [content] }

/-- The content of a category. -/
def get (data : F10Data) (categoryName : Text) : Option F10Content :=
  data.contents.find? fun content => content.category = categoryName

end F10Data

namespace F10Client

/-- The error of a client for a name that is not among the categories. -/
def missingError (client : F10Client) (name : Text) (names : List Text) : TdxError :=
  let available := ", ".intercalate (names.map String.ofList)
  let message := s!"未找到分类 '{String.ofList name}'，可用分类: {available}"
  match client with
  | f10 => ErrorCode.missingField.err message
  | profile => .invalidData message

variable (client : F10Client) (gbk : Char → Bytes) (decode : Bytes → Text) (market : UInt8)
  (code : Text)

/-- `get_category`. -/
def getCategory : F10Program (Except TdxError (List F10Category)) :=
  if market ≠ marketSz ∧ market ≠ marketSh then .done (.error (client.marketError market))
  else if Utf8.len code ≠ 6 then .done (.error (client.codeError code))
  else do
    match ← .perform (categoryRequest gbk market code) with
    | .error e => .done (.error e)
    | .ok response => .done (parseCompanyInfoCategory decode response)

/-- `get_category_auto`. -/
def getCategoryAuto : F10Program (Except TdxError (List F10Category)) :=
  match autoMarket code with
  | .error e => .done (.error e)
  | .ok market => client.getCategory gbk decode market code

/-- `get_content_by_name`. -/
def getContentByName (name : Text) : F10Program (Except TdxError F10Content) := do
  match ← client.getCategory gbk decode market code with
  | .error e => .done (.error e)
  | .ok categories =>
    match categories.find? fun category => category.name = name with
    | none => .done (.error (client.missingError name (categories.map F10Category.name)))
    | some category => client.getContent gbk decode market code category

/-- The contents of categories. A content that is not received is left out. -/
def contentsOf : List F10Category → F10Program (List F10Content)
  | [] => .done []
  | category :: categories => do
    match ← client.getContent gbk decode market code category with
    | .error _ => contentsOf categories
    | .ok content => do
      let contents ← contentsOf categories
      .done (content :: contents)

/-- `get_all_contents`. -/
def getAllContents : F10Program (Except TdxError (List F10Content)) := do
  match ← client.getCategory gbk decode market code with
  | .error e => .done (.error e)
  | .ok categories => do
    let contents ← client.contentsOf gbk decode market code categories
    .done (.ok contents)

/-- `get_all_data`. -/
def getAllData : F10Program (Except TdxError F10Data) := do
  match ← client.getAllContents gbk decode market code with
  | .error e => .done (.error e)
  | .ok contents => .done (.ok (contents.foldl F10Data.addContent ⟨code, market, []⟩))

end F10Client

/-! ## Directories -/

/-- An entry of a directory as it travels. The names are in fields of their sizes. -/
structure DirectoryEntry where
  name : Bytes
  filename : Bytes
  start : UInt32
  length : UInt32
  name_length : name.length = categoryNameSize
  filename_length : filename.length = categoryFilenameSize

namespace DirectoryEntry

/-- The bytes of an entry. -/
def encode (e : DirectoryEntry) : Bytes :=
  e.name ++ (e.filename ++ (LittleEndian.toLE 4 e.start.toNat ++
    LittleEndian.toLE 4 e.length.toNat))

/-- The category that an entry is read as. -/
def category (decode : Bytes → Text) (e : DirectoryEntry) : F10Category where
  name := decodeGbkString decode e.name
  filename := decodeGbkString decode e.filename
  filenameRaw := trimNullBytes e.filename
  start := e.start
  length := e.length

lemma length_encode (e : DirectoryEntry) : e.encode.length = categoryEntrySize := by
  simp [encode, e.name_length, e.filename_length, categoryNameSize, categoryFilenameSize,
    categoryEntrySize]

end DirectoryEntry

/-- A directory as it travels: how many entries there are, and the entries. -/
def encodeDirectory (directory : List DirectoryEntry) : Bytes :=
  LittleEndian.toLE 2 directory.length ++ directory.flatMap DirectoryEntry.encode

section Parsing

variable {decode : Bytes → Text} {data rest : Bytes} {pos : ℕ}

/-- A field where it has been written. -/
lemma ofNat_field_toLE {n : UInt32} (h : data.drop pos = LittleEndian.toLE 4 n.toNat ++ rest) :
    UInt32.ofNat (LittleEndian.field data pos 4) = n := by
  rw [LittleEndian.field_of_at ⟨rest, h.symm⟩ n.toNat_lt, UInt32.ofNat_toNat]

/-- An entry is read back.

**Proof sketch.** The four fields stand one after the other, and each is taken from its place: the
two texts by their widths, the two numbers as four bytes each. -/
lemma parseCategory_of_drop {e : DirectoryEntry} (h : data.drop pos = e.encode ++ rest) :
    parseCategory decode data pos = e.category decode := by
  rw [DirectoryEntry.encode, List.append_assoc, List.append_assoc, List.append_assoc] at h
  have hfilename := drop_add h
  have hstart := drop_add hfilename
  have hlength := drop_add hstart
  simp only [e.name_length, e.filename_length, LittleEndian.length_toLE, categoryNameSize,
    categoryFilenameSize, Nat.add_assoc, Nat.reduceAdd] at hfilename hstart hlength
  have hname : (data.drop pos).take categoryNameSize = e.name := by
    rw [h, List.take_left' e.name_length]
  have hfile : (data.drop (pos + categoryNameSize)).take categoryFilenameSize = e.filename := by
    rw [categoryNameSize, hfilename, List.take_left' e.filename_length]
  simp only [parseCategory, DirectoryEntry.category, hname, hfile, ofNat_field_toLE hstart,
    ofNat_field_toLE hlength]

/-- The entries are read back, one after the other. -/
lemma categoriesFrom_of_drop {directory : List DirectoryEntry}
    (h : data.drop pos = directory.flatMap DirectoryEntry.encode ++ rest) :
    categoriesFrom decode data directory.length pos =
      directory.map (DirectoryEntry.category decode) := by
  induction directory generalizing pos with
  | nil => rfl
  | cons e es ih =>
    rw [List.flatMap_cons, List.append_assoc] at h
    have hrest := drop_add h
    rw [e.length_encode] at hrest
    rw [List.length_cons, categoriesFrom, parseCategory_of_drop h, ih hrest, List.map_cons]

/-- **A directory is read back**, whatever stands behind it.

**Proof sketch.** Behind the count stand as many entries of one length, so the response is as long
as the parser asks for, and each entry is parsed from where it stands (`categoriesFrom_of_drop`). -/
theorem parse_encodeDirectory {directory : List DirectoryEntry} (h : directory.length < 2 ^ 16)
    (trailer : Bytes) :
    parseCompanyInfoCategory decode (encodeDirectory directory ++ trailer) =
      .ok (directory.map (DirectoryEntry.category decode)) := by
  set data := encodeDirectory directory ++ trailer with hdata
  rw [encodeDirectory, List.append_assoc] at hdata
  have hzero : data.drop 0 = LittleEndian.toLE 2 directory.length ++ _ := hdata
  have hentries := drop_add hzero
  rw [LittleEndian.length_toLE, Nat.zero_add] at hentries
  have hcount : LittleEndian.field data 0 2 = directory.length :=
    LittleEndian.field_of_at ⟨_, hzero.symm⟩ h
  have hbytes : (directory.flatMap DirectoryEntry.encode).length =
      directory.length * categoryEntrySize := by
    rw [List.length_flatMap, List.map_congr_left fun e _ => e.length_encode, List.map_const',
      List.sum_replicate, smul_eq_mul]
  have hlen : data.length = 2 + (directory.length * categoryEntrySize + trailer.length) := by
    rw [hdata, List.length_append, List.length_append, LittleEndian.length_toLE, hbytes]
  rw [parseCompanyInfoCategory, if_neg (by omega)]
  simp only [hcount]
  rw [if_neg (by omega), categoriesFrom_of_drop hentries]

end Parsing

/-! ## A server with files -/

/-- What a server knows of a company: the directory of its categories, and files by their names as
the directory has them. -/
structure CompanyFiles where
  directory : List DirectoryEntry
  file : Bytes → Bytes

/-- The length of a part is sent in 16 bits, so that no more is sent of it. -/
def maxContentLength : ℕ := 65535

/-- A part of a file. -/
def CompanyFiles.part (files : CompanyFiles) (filename : Bytes) (start length : ℕ) : Bytes :=
  ((files.file filename).drop start).take length

/-- What a request for company information asks for. -/
inductive CompanyQuery where
  | category (market : ℕ) (code : Bytes)
  | content (market : ℕ) (code filename : Bytes) (start length : ℕ)
deriving DecidableEq

namespace CompanyQuery

/-- What a packet asks for, by its length and its header. -/
def ofPacket (packet : Bytes) : Option CompanyQuery :=
  if packet.length = 24 ∧ packet.take 12 = categoryRequestHeader then
    some (.category (LittleEndian.field packet 12 2) ((packet.drop 14).take 6))
  else if packet.length = 114 ∧ packet.take 12 = contentRequestHeader then
    some (.content (LittleEndian.field packet 12 2) ((packet.drop 14).take 6)
      ((packet.drop 22).take 80) (LittleEndian.field packet 102 4)
      (LittleEndian.field packet 106 4))
  else none

/-- The body answers what is asked for. Some bytes in front of a content are not read, and neither
are those behind an answer. -/
def Answers (files : ℕ → Bytes → CompanyFiles) : CompanyQuery → Bytes → Prop
  | .category market code, body =>
    ∃ trailer, body = encodeDirectory (files market code).directory ++ trailer
  | .content market code filename start length, body =>
    ∃ header trailer, header.length = 10 ∧
      let sent := ((files market code).part filename start length).take maxContentLength
      body = header ++ (LittleEndian.toLE 2 sent.length ++ (sent ++ trailer))

end CompanyQuery

/-- A server that answers requests with what it knows of the companies. It may fail any of them. -/
def ServesCompany {σ : Type} (handle : Bytes → σ → Except TdxError Bytes × σ)
    (files : ℕ → Bytes → CompanyFiles) : Prop :=
  ∀ packet query w body, CompanyQuery.ofPacket packet = some query →
    (handle packet w).1 = .ok body → query.Answers files body

section Requests

variable {gbk : Char → Bytes} {decode : Bytes → Text} {market : UInt8} {code : Text}

/-- A field of two bytes for a market. -/
lemma field_market {packet rest : Bytes} {pos : ℕ}
    (h : packet.drop pos = LittleEndian.toLE 2 market.toNat ++ rest) :
    LittleEndian.field packet pos 2 = market.toNat :=
  LittleEndian.field_of_at ⟨rest, h.symm⟩ (market.toNat_lt.trans (by decide))

/-- The request for the categories, read.

**Proof sketch.** A code of six bytes makes a packet of 24 bytes, with the header of this request;
market and code stand behind it. -/
lemma ofPacket_categoryRequest (hcode : (encodeGbk gbk code).length = 6) :
    CompanyQuery.ofPacket (categoryRequest gbk market code) =
      some (.category market.toNat (encodeGbk gbk code)) := by
  set packet := categoryRequest gbk market code with hpacket
  simp only [categoryRequest, List.append_assoc] at hpacket
  have hheader : packet.drop 0 = categoryRequestHeader ++ _ := hpacket
  have hmarket := drop_add hheader
  have hcodeAt := drop_add hmarket
  simp only [categoryRequestHeader, List.length_cons, List.length_nil, LittleEndian.length_toLE,
    Nat.reduceAdd] at hmarket hcodeAt
  have hlength : packet.length = 24 := by
    simp [hpacket, categoryRequestHeader, hcode]
  have htake : packet.take 12 = categoryRequestHeader := by
    rw [hpacket]
    exact List.take_left' rfl
  rw [CompanyQuery.ofPacket, if_pos ⟨hlength, htake⟩, field_market hmarket, hcodeAt,
    List.take_left' hcode]

/-- The request for a content, read.

**Proof sketch.** A code of six bytes makes a packet of 114 bytes, which no request for the
categories has; its parts have fixed lengths and are read where they stand. -/
lemma ofPacket_contentRequest (hcode : (encodeGbk gbk code).length = 6) (category : F10Category) :
    CompanyQuery.ofPacket (contentRequest gbk market code category) =
      some (.content market.toNat (encodeGbk gbk code) (filenameBytes gbk category)
        category.start.toNat category.length.toNat) := by
  have hlength : (contentRequest gbk market code category).length = 114 := by
    rw [length_contentRequest, hcode]
  set packet := contentRequest gbk market code category with hpacket
  simp only [contentRequest, List.append_assoc] at hpacket
  have hheader : packet.drop 0 = contentRequestHeader ++ _ := hpacket
  have hmarket := drop_add hheader
  have hcodeAt := drop_add hmarket
  have hzeros := drop_add hcodeAt
  have hfilename := drop_add hzeros
  have hstart := drop_add hfilename
  have hlen := drop_add hstart
  simp only [contentRequestHeader, List.length_cons, List.length_nil, LittleEndian.length_toLE,
    hcode, length_filenameBytes, Nat.reduceAdd] at hmarket hcodeAt hfilename hstart hlen
  have htake : packet.take 12 = contentRequestHeader := by
    rw [hpacket]
    exact List.take_left' rfl
  rw [CompanyQuery.ofPacket, if_neg (by omega), if_pos ⟨hlength, htake⟩, field_market hmarket,
    hcodeAt, List.take_left' hcode, hfilename, List.take_left' length_filenameBytes,
    LittleEndian.field_of_at ⟨_, hstart.symm⟩ category.start.toNat_lt,
    LittleEndian.field_of_at ⟨_, hlen.symm⟩ category.length.toNat_lt]

/-- A category is asked for by the name of its file in the directory. -/
lemma filenameBytes_category (e : DirectoryEntry) :
    filenameBytes gbk (e.category decode) = e.filename := by
  have hback := resizeTo_trimNullBytes e.filename_length
  unfold filenameBytes DirectoryEntry.category
  dsimp only
  split
  · rename_i hempty
    rw [hempty] at hback
    rw [decodeGbkString, if_pos hempty]
    exact hback
  · exact hback

/-- A content is read back from its answer, if its length fits 16 bits.

**Proof sketch.** The length that stands behind the ten bytes is that of what was sent, since it
fits 16 bits, and that many bytes are there. -/
lemma parse_content {header sent : Bytes} (hheader : header.length = 10)
    (hsent : sent.length ≤ maxContentLength) (trailer : Bytes) :
    parseCompanyInfoContent decode
        (header ++ (LittleEndian.toLE 2 sent.length ++ (sent ++ trailer))) =
      .ok (decodeGbkString decode sent) := by
  set data := header ++ (LittleEndian.toLE 2 sent.length ++ (sent ++ trailer)) with hdata
  have hzero : data.drop 0 = header ++ _ := hdata
  have hlength := drop_add hzero
  have hcontent := drop_add hlength
  rw [hheader, Nat.zero_add] at hlength hcontent
  rw [LittleEndian.length_toLE] at hcontent
  unfold maxContentLength at hsent
  have hcount : LittleEndian.field data 10 2 = sent.length :=
    LittleEndian.field_of_at ⟨_, hlength.symm⟩ (by omega)
  have hlen : data.length = 12 + (sent.length + trailer.length) := by
    simp only [hdata, List.length_append, LittleEndian.length_toLE, hheader]
    omega
  rw [parseCompanyInfoContent, if_neg (by rw [contentHeaderSize]; omega)]
  simp only [hcount, contentHeaderSize]
  rw [if_neg (by omega), hcontent, List.take_left]

end Requests

/-! ## What the calls return -/

/-- The content that an entry of the directory stands for. -/
def CompanyFiles.shown (decode : Bytes → Text) (files : CompanyFiles) (e : DirectoryEntry) :
    F10Content :=
  let content := decodeGbkString decode
    ((files.part e.filename e.start.toNat e.length.toNat).take maxContentLength)
  ⟨decodeGbkString decode e.name, content, Utf8.len content⟩

/-- The contents whose requests are answered, in the order of the directory. -/
def answeredContents {σ : Type} (handle : Bytes → σ → Except TdxError Bytes × σ)
    (request : DirectoryEntry → Bytes) (shown : DirectoryEntry → F10Content) :
    List DirectoryEntry → σ → List F10Content × σ
  | [], w => ([], w)
  | e :: es, w =>
    match handle (request e) w with
    | (.error _, w) => answeredContents handle request shown es w
    | (.ok _, w) =>
      let (contents, w) := answeredContents handle request shown es w
      (shown e :: contents, w)

/-- The clients let a market and a code through, and the code has its six bytes in GBK too. -/
structure Accepted (gbk : Char → Bytes) (market : UInt8) (code : Text) : Prop where
  market : market = marketSz ∨ market = marketSh
  utf8 : Utf8.len code = 6
  gbk : (encodeGbk gbk code).length = 6

section Calls

variable {σ : Type} {handle : Bytes → σ → Except TdxError Bytes × σ}
  {files : ℕ → Bytes → CompanyFiles} {gbk : Char → Bytes} {decode : Bytes → Text} {market : UInt8}
  {code : Text} {company : CompanyFiles}

/-- If every request is answered, all contents are received. -/
lemma answeredContents_of_answered (h : ∀ packet w, ∃ body, (handle packet w).1 = .ok body)
    (request : DirectoryEntry → Bytes) (shown : DirectoryEntry → F10Content)
    (directory : List DirectoryEntry) (w : σ) :
    (answeredContents handle request shown directory w).1 = directory.map shown := by
  induction directory generalizing w with
  | nil => rfl
  | cons e es ih =>
    obtain ⟨body, hbody⟩ := h (request e) w
    obtain ⟨w', hw'⟩ : ∃ w', handle (request e) w = (.ok body, w') := ⟨_, Prod.ext hbody rfl⟩
    rw [answeredContents, hw', List.map_cons, ← ih w']

/-- Contents are received in the order of the directory, each at most once. -/
lemma answeredContents_sublist (request : DirectoryEntry → Bytes)
    (shown : DirectoryEntry → F10Content) (directory : List DirectoryEntry) (w : σ) :
    (answeredContents handle request shown directory w).1.Sublist (directory.map shown) := by
  induction directory generalizing w with
  | nil => exact .refl _
  | cons e es ih =>
    rw [answeredContents, List.map_cons]
    split
    · exact (ih _).cons _
    · exact (ih _).cons_cons _

/-- The categories of a company, or the error of the request.

**Proof sketch.** The arguments are accepted, so the request is sent. A body is the directory with
some bytes behind it, and these are parsed as the directory. -/
lemma exec_getCategory (hserves : ServesCompany handle files) (hcode : Accepted gbk market code)
    (hcompany : files market.toNat (encodeGbk gbk code) = company)
    (hsize : company.directory.length < 2 ^ 16) (client : F10Client) (w : σ) :
    (client.getCategory gbk decode market code).exec handle w =
      ((handle (categoryRequest gbk market code) w).1.map fun _ =>
          company.directory.map (DirectoryEntry.category decode),
        (handle (categoryRequest gbk market code) w).2) := by
  have hmarket : ¬ (market ≠ marketSz ∧ market ≠ marketSh) := by
    rintro ⟨h, h'⟩
    exact hcode.market.elim h h'
  rw [F10Client.getCategory, if_neg hmarket, if_neg (not_not_intro hcode.utf8), Program.exec_bind,
    Program.exec_perform]
  cases hbody : (handle (categoryRequest gbk market code) w).1 with
  | error e => rfl
  | ok body =>
    obtain ⟨trailer, rfl⟩ := hserves _ _ w body (ofPacket_categoryRequest hcode.gbk) hbody
    rw [hcompany]
    exact congrArg (·, _) (parse_encodeDirectory hsize trailer)

/-- The categories of a company at the market that its code begins with. -/
lemma getCategoryAuto_eq (hmarket : autoMarket code = .ok market) (client : F10Client) :
    client.getCategoryAuto gbk decode code = client.getCategory gbk decode market code := by
  rw [F10Client.getCategoryAuto, hmarket]

/-- The content of an entry, or the error of the request.

**Proof sketch.** Market and code are accepted, so the request is sent. If it is answered, the
server reads in it what the entry says (`ofPacket_contentRequest`), the file name with its zeros,
and sends the part of the file that it asks for, which `parse_content` reads back. -/
lemma exec_getContent (hserves : ServesCompany handle files) (hcode : Accepted gbk market code)
    (hcompany : files market.toNat (encodeGbk gbk code) = company) (client : F10Client)
    (e : DirectoryEntry) (w : σ) :
    (client.getContent gbk decode market code (e.category decode)).exec handle w =
      ((handle (contentRequest gbk market code (e.category decode)) w).1.map fun _ =>
          company.shown decode e,
        (handle (contentRequest gbk market code (e.category decode)) w).2) := by
  have hmarket : ¬ (market ≠ marketSz ∧ market ≠ marketSh) := by
    rintro ⟨h, h'⟩
    exact hcode.market.elim h h'
  rw [F10Client.getContent, if_neg hmarket, if_neg (not_not_intro hcode.utf8), Program.exec_bind,
    Program.exec_perform]
  cases hbody : (handle (contentRequest gbk market code (e.category decode)) w).1 with
  | error e => rfl
  | ok body =>
    have hquery := hserves _ _ w body (ofPacket_contentRequest hcode.gbk _) hbody
    rw [filenameBytes_category] at hquery
    obtain ⟨header, trailer, hheader, rfl⟩ := hquery
    rw [hcompany]
    exact congrArg (·, _) (congrArg _ (parse_content hheader (List.length_take_le _ _) trailer))

/-- The contents of entries.

**Proof sketch.** By induction on the entries: an entry whose request fails is left out, and any
other is shown as the company has it. -/
lemma exec_contentsOf (hserves : ServesCompany handle files) (hcode : Accepted gbk market code)
    (hcompany : files market.toNat (encodeGbk gbk code) = company) (client : F10Client)
    (directory : List DirectoryEntry) (w : σ) :
    (client.contentsOf gbk decode market code
        (directory.map (DirectoryEntry.category decode))).exec handle w =
      answeredContents handle (fun e => contentRequest gbk market code (e.category decode))
        (company.shown decode) directory w := by
  induction directory generalizing w with
  | nil => rfl
  | cons e es ih =>
    rw [List.map_cons, F10Client.contentsOf, Program.exec_bind,
      exec_getContent hserves hcode hcompany, answeredContents]
    rcases handle (contentRequest gbk market code (e.category decode)) w with ⟨result, w'⟩
    cases result with
    | error _ => exact ih w'
    | ok body =>
      show Program.exec handle (_ >>= _) w' = _
      rw [Program.exec_bind, ih w']
      rfl

/-- Without the categories neither call gets any further. -/
lemma exec_of_not_listed (hserves : ServesCompany handle files) (hcode : Accepted gbk market code)
    (hcompany : files market.toNat (encodeGbk gbk code) = company)
    (hsize : company.directory.length < 2 ^ 16) (client : F10Client) {w w' : σ} {e : TdxError}
    (hlisted : handle (categoryRequest gbk market code) w = (.error e, w')) :
    (client.getAllContents gbk decode market code).exec handle w = (.error e, w') ∧
      ∀ name, (client.getContentByName gbk decode market code name).exec handle w =
        (.error e, w') := by
  have hcategory : (client.getCategory gbk decode market code).exec handle w = _ :=
    exec_getCategory hserves hcode hcompany hsize client w
  rw [hlisted] at hcategory
  refine ⟨?_, fun name => ?_⟩
  · rw [F10Client.getAllContents, Program.exec_bind, hcategory]
    rfl
  · rw [F10Client.getContentByName, Program.exec_bind, hcategory]
    rfl

/-- All contents that are answered. -/
lemma exec_getAllContents (hserves : ServesCompany handle files) (hcode : Accepted gbk market code)
    (hcompany : files market.toNat (encodeGbk gbk code) = company)
    (hsize : company.directory.length < 2 ^ 16) (client : F10Client) {w w' : σ} {body : Bytes}
    (hlisted : handle (categoryRequest gbk market code) w = (.ok body, w')) :
    (client.getAllContents gbk decode market code).exec handle w =
      (answeredContents handle (fun e => contentRequest gbk market code (e.category decode))
        (company.shown decode) company.directory w').map .ok id := by
  rw [F10Client.getAllContents, Program.exec_bind,
    exec_getCategory hserves hcode hcompany hsize, hlisted]
  show Program.exec handle (client.contentsOf gbk decode market code
    (company.directory.map (DirectoryEntry.category decode)) >>= _) w' = _
  rw [Program.exec_bind, exec_contentsOf hserves hcode hcompany]
  rfl

/-- One content by the name of its category: that of the first entry of the name.

**Proof sketch.** The categories are those of the directory (`exec_getCategory`), and the first one
with the name is that of the first entry with it. Without one the error lists the names; with one
`exec_getContent` goes on. -/
lemma exec_getContentByName (hserves : ServesCompany handle files)
    (hcode : Accepted gbk market code)
    (hcompany : files market.toNat (encodeGbk gbk code) = company)
    (hsize : company.directory.length < 2 ^ 16) (client : F10Client) (name : Text) {w w' : σ}
    {body : Bytes} (hlisted : handle (categoryRequest gbk market code) w = (.ok body, w')) :
    (client.getContentByName gbk decode market code name).exec handle w =
      (company.directory.find? fun e => decodeGbkString decode e.name = name).elim
        (.error (client.missingError name
          (company.directory.map fun e => decodeGbkString decode e.name)), w')
        fun e =>
          ((handle (contentRequest gbk market code (e.category decode)) w').1.map fun _ =>
            company.shown decode e,
            (handle (contentRequest gbk market code (e.category decode)) w').2) := by
  have hfind : (company.directory.map (DirectoryEntry.category decode)).find?
      (fun category => category.name = name) =
        (company.directory.find? fun e => decodeGbkString decode e.name = name).map
          (DirectoryEntry.category decode) := List.find?_map
  rw [F10Client.getContentByName, Program.exec_bind,
    exec_getCategory hserves hcode hcompany hsize, hlisted]
  show Program.exec handle (match (company.directory.map (DirectoryEntry.category decode)).find?
    (fun category => category.name = name) with | none => _ | some category => _) w' = _
  rw [hfind]
  cases company.directory.find? fun e => decodeGbkString decode e.name = name with
  | none =>
    refine congrArg (fun names => (Except.error (client.missingError name names), w')) ?_
    exact List.map_map
  | some e => exact exec_getContent hserves hcode hcompany client e w'

/-- Contents that are added one after the other. -/
lemma foldl_addContent (contents : List F10Content) (data : F10Data) :
    contents.foldl F10Data.addContent data =
      { data with contents := data.contents ++ contents } := by
  induction contents generalizing data with
  | nil => rw [List.foldl_nil, List.append_nil]
  | cons content contents ih =>
    rw [List.foldl_cons, ih, F10Data.addContent, List.append_assoc, List.singleton_append]

/-- All data, from all contents. -/
lemma exec_getAllData (client : F10Client) {w w' : σ} {contents : List F10Content}
    (h : (client.getAllContents gbk decode market code).exec handle w = (.ok contents, w')) :
    (client.getAllData gbk decode market code).exec handle w =
      (.ok ⟨code, market, contents⟩, w') := by
  rw [F10Client.getAllData, Program.exec_bind, h]
  show (Except.ok (contents.foldl F10Data.addContent ⟨code, market, []⟩), w') = _
  rw [foldl_addContent, List.nil_append]

/-- **What the calls return of the files of a company.** The calls for the categories return the
directory or the error of the request, and the market is found by the code where the code begins as
those of the market do. Where the directory is not received, neither is a content. Where it is, the
call for all contents returns those whose requests are answered, in the order of the directory, and
nothing else; the call for one content returns that of the first category of the name. If nothing
fails, both find the same under every name. A content is all of its part of a file, unless that is
longer than what can be sent.

**Proof sketch.** The directory that is parsed is the one that was encoded
(`parse_encodeDirectory`), and the requests for contents that a client builds from it are read by
the server as the parts that the directory names. So a call is a search in, or a walk through, the
directory itself: a request that fails is an error of the first kind of call and is left out by the
second. -/
theorem company_files_read (hserves : ServesCompany handle files) (hcode : Accepted gbk market code)
    (hcompany : files market.toNat (encodeGbk gbk code) = company)
    (hsize : company.directory.length < 2 ^ 16) (client : F10Client) (decode : Bytes → Text)
    (w : σ) :
    let listed := handle (categoryRequest gbk market code) w
    let request := fun e : DirectoryEntry => contentRequest gbk market code (e.category decode)
    let named := fun name : Text =>
      company.directory.find? fun e => decodeGbkString decode e.name = name
    let answered :=
      answeredContents handle request (company.shown decode) company.directory listed.2
    ((client.getCategory gbk decode market code).exec handle w =
        (listed.1.map fun _ => company.directory.map (DirectoryEntry.category decode), listed.2) ∧
      (autoMarket code = .ok market → client.getCategoryAuto gbk decode code =
        client.getCategory gbk decode market code)) ∧
    (∀ e, listed.1 = .error e →
      (client.getAllContents gbk decode market code).exec handle w = (.error e, listed.2) ∧
      ∀ name, (client.getContentByName gbk decode market code name).exec handle w =
        (.error e, listed.2)) ∧
    (∀ body, listed.1 = .ok body →
      (client.getAllContents gbk decode market code).exec handle w = (.ok answered.1, answered.2) ∧
      answered.1.Sublist (company.directory.map (company.shown decode)) ∧
      ∀ name, (client.getContentByName gbk decode market code name).exec handle w =
        (named name).elim
          (.error (client.missingError name
            (company.directory.map fun e => decodeGbkString decode e.name)), listed.2)
          fun e => ((handle (request e) listed.2).1.map fun _ => company.shown decode e,
            (handle (request e) listed.2).2)) ∧
    ((∀ packet w, ∃ body, (handle packet w).1 = .ok body) →
      ∃ data w', (client.getAllData gbk decode market code).exec handle w = (.ok data, w') ∧
        data.contents = company.directory.map (company.shown decode) ∧
        ∀ name, data.get name = (named name).map (company.shown decode)) ∧
    ∀ e : DirectoryEntry,
      (company.part e.filename e.start.toNat e.length.toNat).length ≤ maxContentLength →
        (company.shown decode e).content =
          decodeGbkString decode (company.part e.filename e.start.toNat e.length.toNat) := by
  intro listed request named answered
  refine ⟨⟨exec_getCategory hserves hcode hcompany hsize client w,
    fun hmarket => getCategoryAuto_eq hmarket client⟩, fun e he => ?_, fun body hbody => ?_,
    fun hanswers => ?_, fun e he => ?_⟩
  · exact exec_of_not_listed hserves hcode hcompany hsize client (Prod.ext he rfl)
  · have hlisted : handle (categoryRequest gbk market code) w = (.ok body, listed.2) :=
      Prod.ext hbody rfl
    exact ⟨exec_getAllContents hserves hcode hcompany hsize client hlisted,
      answeredContents_sublist _ _ _ _,
      fun name => exec_getContentByName hserves hcode hcompany hsize client name hlisted⟩
  · obtain ⟨body, hbody⟩ := hanswers (categoryRequest gbk market code) w
    have hlisted : handle (categoryRequest gbk market code) w = (.ok body, listed.2) :=
      Prod.ext hbody rfl
    have hcontents : (client.getAllContents gbk decode market code).exec handle w = _ :=
      exec_getAllContents hserves hcode hcompany hsize client hlisted
    have hall : answered.1 = company.directory.map (company.shown decode) :=
      answeredContents_of_answered hanswers _ _ _ _
    refine ⟨_, _, exec_getAllData client hcontents, hall, fun name => ?_⟩
    show answered.1.find? _ = _
    rw [hall]
    exact List.find?_map
  · exact congrArg (decodeGbkString decode) (List.take_of_length_le he)

end Calls

/-! ## A server for given files -/

/-- The answer to what is asked for, with no byte that is not read but for the header. -/
def CompanyQuery.answer (files : ℕ → Bytes → CompanyFiles) : CompanyQuery → Bytes
  | .category market code => encodeDirectory (files market code).directory
  | .content market code filename start length =>
    let sent := ((files market code).part filename start length).take maxContentLength
    List.replicate 10 0 ++ (LittleEndian.toLE 2 sent.length ++ sent)

/-- A server that fails the requests that it is told to fail. -/
def companyServer (files : ℕ → Bytes → CompanyFiles) (packet : Bytes) (failing : List Bool) :
    Except TdxError Bytes × List Bool :=
  (if failing.head? = some true then .error (ErrorCode.disconnected.err "empty response body")
    else .ok (((CompanyQuery.ofPacket packet).map (CompanyQuery.answer files)).getD []),
    failing.tail)

lemma companyServer_serves (files : ℕ → Bytes → CompanyFiles) :
    ServesCompany (companyServer files) files := by
  intro packet query failing body hquery hbody
  simp only [companyServer, hquery, Option.map_some, Option.getD_some] at hbody
  split at hbody
  · cases hbody
  obtain rfl := Except.ok.inj hbody
  cases query with
  | category market code => exact ⟨[], (List.append_nil _).symm⟩
  | content market code filename start length =>
    refine ⟨List.replicate 10 0, [], List.length_replicate, ?_⟩
    simp only [CompanyQuery.answer, List.append_nil]

/-- Two categories in one file. -/
def twoCategories : CompanyFiles where
  directory :=
    [⟨resizeTo 64 [0x41], resizeTo 80 [0x36], 0, 3, length_resizeTo _ _, length_resizeTo _ _⟩,
      ⟨resizeTo 64 [0x42], resizeTo 80 [0x36], 3, 2, length_resizeTo _ _, length_resizeTo _ _⟩]
  file _ := [0x61, 0x62, 0x63, 0x64, 0x65]

deriving instance DecidableEq for F10Content

/-- The request for the first content fails, and the second content is received. -/
theorem company_files_read_two :
    (F10Client.f10.getAllContents sampleGbk asciiText 1 "600519".toList).exec
        (companyServer fun _ _ => twoCategories) [false, true] =
      (.ok [⟨"B".toList, "de".toList, 2⟩], []) := by
  have hcode : Accepted sampleGbk 1 "600519".toList := ⟨.inr rfl, by decide, by decide⟩
  have hread := company_files_read (companyServer_serves fun _ _ => twoCategories) hcode rfl
    (by decide) .f10 asciiText [false, true]
  exact (hread.2.2.1 _ rfl).1.trans (by decide +kernel)

end Tdxrs
