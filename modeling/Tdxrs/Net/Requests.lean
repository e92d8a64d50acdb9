import Mathlib.Data.List.DropRight
import Tdxrs.Net.BarsCalls
import Tdxrs.Net.BlockFile
import Tdxrs.Net.HqProgram
import Tdxrs.Net.SecurityCaches

set_option relaxedAutoImplicit false
set_option autoImplicit false

/-!
# The requests of the client

The requests for data that `TdxHqClient` (`src/net/client.rs`) can make, each with its packet, and
how a server reads them: the command stands behind the first ten bytes, and every field has its
place. A request has only fields that fit: a code is six ASCII alphanumerics, a position and a
number of records have 16 bits, a batch of quotes is not too long, and the name of a file fits its
field. The client does not check all of this. Of other codes it sends six bytes, and of a position
in the K-line that does not fit the lower 16 bits, so that two such calls can send the same packet.
K-lines of indices are asked for by the packet of other K-lines.

## Main definitions

* `Tdxrs.StockCode`, `Tdxrs.FileName`, `Tdxrs.DataRequest` — requests.
* `Tdxrs.DataRequest.packet` — the packet of a request.
* `Tdxrs.DataRequest.ofPacket` — the request that a packet carries.

## Main results

* `Tdxrs.build_eq_iff` — which calls for K-lines send the same packet.
* `Tdxrs.request_read_back` — a packet carries a request exactly if it is the packet of it.
-/

namespace Tdxrs

open LittleEndian

/-! ## Requests -/

/-- A code that the strict check lets through. -/
structure StockCode where
  text : String
  six : SixAlphanumerics text
deriving DecidableEq

/-- The name of a file that fits a field, which is filled up with zeros. -/
structure FileName (width : ℕ) where
  text : String
  fits : (asBytes text).length ≤ width ∧ (asBytes text).getLast? ≠ some 0
deriving DecidableEq

/-- A request for data whose fields fit its packet. -/
inductive DataRequest where
  | bars (category market : UInt8) (code : StockCode) (start count : UInt16)
  | securityQuotes (stocks : List (UInt8 × StockCode)) (fits : stocks.length ≤ maxQuotesCount)
  | securityCount (market : UInt8)
  | securityList (market : UInt8) (start : UInt16)
  | historyMinuteTimeData (market : UInt8) (code : StockCode) (date : UInt32)
  | transactionData (market : UInt8) (code : StockCode) (start count : UInt16)
  | historyTransactionData (market : UInt8) (code : StockCode) (start count : UInt16)
      (date : UInt32)
  | financeInfo (market : UInt8) (code : StockCode)
  | xdxrInfo (market : UInt8) (code : StockCode)
  | blockInfoMeta (blockFile : FileName 40)
  | blockInfo (blockFile : FileName 100) (start size : UInt32)
deriving DecidableEq

/-! ## Packets -/

/-- The packet of a request for the minutes of an earlier day. -/
def buildHistoryMinutePacket (market : UInt8) (codeBuf : Bytes) (date : ℕ) : Bytes :=
  [0x0c, 0x01, 0x30, 0x00, 0x01, 0x01, 0x0d, 0x00, 0x0d, 0x00, 0xb4, 0x0f] ++ toLE 4 date ++
    market :: codeBuf

/-- The packet of a request for transactions. -/
def buildTransactionPacket (market : UInt8) (codeBuf : Bytes) (start count : ℕ) : Bytes :=
  [0x0c, 0x17, 0x08, 0x01, 0x01, 0x01, 0x0e, 0x00, 0x0e, 0x00, 0xc5, 0x0f] ++
    toLE 2 market.toNat ++ codeBuf ++ toLE 2 start ++ toLE 2 count

/-- The packet of a request for the transactions of an earlier day. -/
def buildHistoryTransactionPacket (market : UInt8) (codeBuf : Bytes) (start count date : ℕ) :
    Bytes :=
  [0x0c, 0x01, 0x30, 0x01, 0x00, 0x01, 0x12, 0x00, 0x12, 0x00, 0xb5, 0x0f] ++ toLE 4 date ++
    toLE 2 market.toNat ++ codeBuf ++ toLE 2 start ++ toLE 2 count

/-- The packet of a request for a finance report. -/
def buildFinanceInfoPacket (market : UInt8) (codeBuf : Bytes) : Bytes :=
  [0x0c, 0x1f, 0x18, 0x76, 0x00, 0x01, 0x0b, 0x00, 0x0b, 0x00, 0x10, 0x00, 0x01, 0x00] ++
    market :: codeBuf

/-- A batch of securities as the client passes it on. -/
def stockTexts (stocks : List (UInt8 × StockCode)) : List (UInt8 × String) :=
  stocks.map fun stock => (stock.1, stock.2.text)

/-- The packet of a request. -/
def DataRequest.packet : DataRequest → Bytes
  | .bars category market code start count =>
    buildSecurityBarsPacket category market code.text start.toNat count.toNat
  | .securityQuotes stocks _ => HqProgram.buildSecurityQuotesPacket (stockTexts stocks)
  | .securityCount market => CacheProgram.buildSecurityCountPacket market
  | .securityList market start => CacheProgram.buildSecurityListPacket market start
  | .historyMinuteTimeData market code date =>
    buildHistoryMinutePacket market (asBytes code.text) date.toNat
  | .transactionData market code start count =>
    buildTransactionPacket market (asBytes code.text) start.toNat count.toNat
  | .historyTransactionData market code start count date =>
    buildHistoryTransactionPacket market (asBytes code.text) start.toNat count.toNat date.toNat
  | .financeInfo market code => buildFinanceInfoPacket market (asBytes code.text)
  | .xdxrInfo market code => HqProgram.buildXdXrInfoPacket market (asBytes code.text)
  | .blockInfoMeta blockFile => blockInfoMetaPacket blockFile.text
  | .blockInfo blockFile start size => blockInfoPacket blockFile.text start.toNat size.toNat

/-! ## Reading a packet -/

/-- The text that bytes in UTF-8 make. -/
def textOfBytes (bytes : Bytes) : Option String := String.fromUTF8? ⟨bytes.toArray⟩

/-- A code in six bytes. -/
def StockCode.ofBytes (bytes : Bytes) : Option StockCode :=
  (textOfBytes bytes).bind fun text =>
    if six : SixAlphanumerics text then some ⟨text, six⟩ else none

/-- The name in a field, without the zeros behind it. -/
def FileName.ofBytes (width : ℕ) (bytes : Bytes) : Option (FileName width) :=
  (textOfBytes (bytes.rdropWhile (· == 0))).bind fun text =>
    if fits : (asBytes text).length ≤ width ∧ (asBytes text).getLast? ≠ some 0 then
      some ⟨text, fits⟩
    else none

/-- Securities in seven bytes each. -/
def readStocks : ℕ → Bytes → Option (List (UInt8 × StockCode))
  | 0, _ => some []
  | _ + 1, [] => none
  | n + 1, market :: rest =>
    (StockCode.ofBytes (rest.take 6)).bind fun code =>
      (readStocks n (rest.drop 6)).map ((market, code) :: ·)

/-- A byte of a packet. -/
def byteAt (packet : Bytes) (pos : ℕ) : UInt8 := .ofNat (field packet pos 1)

/-- A number of 16 bits in a packet. -/
def wordAt (packet : Bytes) (pos : ℕ) : UInt16 := .ofNat (field packet pos 2)

/-- A number of 32 bits in a packet. -/
def dwordAt (packet : Bytes) (pos : ℕ) : UInt32 := .ofNat (field packet pos 4)

/-- A code in a packet. -/
def codeAt (packet : Bytes) (pos : ℕ) : Option StockCode :=
  StockCode.ofBytes ((packet.drop pos).take 6)

namespace DataRequest

/-- The only request with the command `cmd` that a packet can carry. -/
def ofCommand (cmd : ℕ) (p : Bytes) : Option DataRequest :=
  if cmd = cmdSecurityBars then
    (codeAt p 14).map (bars (byteAt p 20) (byteAt p 12) · (wordAt p 24) (wordAt p 26))
  else if cmd = cmdSecurityQuotes % 65536 then
    (readStocks (field p 20 2) (p.drop 22)).bind fun stocks =>
      if fits : stocks.length ≤ maxQuotesCount then some (securityQuotes stocks fits) else none
  else if cmd = 0x044e then some (securityCount (byteAt p 12))
  else if cmd = 0x0450 then some (securityList (byteAt p 12) (wordAt p 14))
  else if cmd = 0x0fb4 then (codeAt p 17).map (historyMinuteTimeData (byteAt p 16) · (dwordAt p 12))
  else if cmd = 0x0fc5 then
    (codeAt p 14).map (transactionData (byteAt p 12) · (wordAt p 20) (wordAt p 22))
  else if cmd = 0x0fb5 then
    (codeAt p 18).map
      (historyTransactionData (byteAt p 16) · (wordAt p 24) (wordAt p 26) (dwordAt p 12))
  else if cmd = 0x0010 then (codeAt p 15).map (financeInfo (byteAt p 14))
  else if cmd = 0x000f then (codeAt p 15).map (xdxrInfo (byteAt p 14))
  else if cmd = 0x02c5 then (FileName.ofBytes 40 (p.drop 12)).map blockInfoMeta
  else if cmd = 0x06b9 then
    (FileName.ofBytes 100 (p.drop 20)).map (blockInfo · (dwordAt p 12) (dwordAt p 16))
  else none

/-- The request that a packet carries: all other bytes have to be those of its packet, too. -/
def ofPacket (packet : Bytes) : Option DataRequest :=
  (ofCommand (field packet 10 2) packet).filter fun q => decide (q.packet = packet)

end DataRequest

/-! ## Fields -/

/-- A text is read back from its bytes. -/
lemma textOfBytes_asBytes (text : String) : textOfBytes (asBytes text) = some text := by
  have hbytes : (⟨(asBytes text).toArray⟩ : ByteArray) = text.toByteArray := by
    rw [asBytes, Array.toArray_toList, String.toUTF8_eq_toByteArray]
  rw [textOfBytes, hbytes, String.fromUTF8?, dif_pos text.isValidUTF8]
  rfl

lemma StockCode.length_asBytes (code : StockCode) : (asBytes code.text).length = 6 := code.six.1

/-- A code is read back from its bytes. -/
lemma StockCode.ofBytes_asBytes (code : StockCode) : ofBytes (asBytes code.text) = some code := by
  rw [ofBytes, textOfBytes_asBytes, Option.bind_some, dif_pos code.six]

/-- The zeros behind bytes that do not end with one are dropped. -/
lemma rdropWhile_zeros {bytes : Bytes} (h : bytes.getLast? ≠ some 0) (k : ℕ) :
    (bytes ++ List.replicate k 0).rdropWhile (· == 0) = bytes := by
  induction k with
  | zero =>
    rw [List.replicate_zero, List.append_nil, List.rdropWhile_eq_self_iff]
    intro hne hlast
    exact h (by rw [List.getLast?_eq_some_getLast hne, beq_iff_eq.mp hlast])
  | succ k ih =>
    rw [List.replicate_succ', ← List.append_assoc, List.rdropWhile_concat_pos _ _ _ rfl, ih]

/-- A name is read back from its field. -/
lemma FileName.ofBytes_nameBuf {width : ℕ} (file : FileName width) :
    ofBytes width (nameBuf width file.text) = some file := by
  rw [ofBytes, nameBuf, List.take_of_length_le file.fits.1, List.rightpad,
    rdropWhile_zeros file.fits.2, textOfBytes_asBytes, Option.bind_some, dif_pos file.fits]

/-- Securities are read back. -/
lemma readStocks_flatMap (stocks : List (UInt8 × StockCode)) :
    readStocks stocks.length
        ((stockTexts stocks).flatMap fun stock => stock.1 :: codeBytes stock.2) =
      some stocks := by
  induction stocks with
  | nil => rfl
  | cons stock stocks ih =>
    simp only [stockTexts, List.map_cons, List.flatMap_cons, List.length_cons, List.cons_append]
    rw [readStocks, stock.2.six.codeBytes_eq, List.take_left' stock.2.length_asBytes,
      List.drop_left' stock.2.length_asBytes, stock.2.ofBytes_asBytes, Option.bind_some]
    exact congrArg _ ih

/-- The number in a field. -/
lemma field_of_drop {packet rest : Bytes} {pos w n : ℕ} (h : packet.drop pos = toLE w n ++ rest)
    (hn : n < 256 ^ w) : field packet pos w = n := by
  rw [field, h, List.take_left' (length_toLE w n), ofLE_toLE, Nat.mod_eq_of_lt hn]

lemma byteAt_eq {packet rest : Bytes} {pos : ℕ} {b : UInt8} (h : packet.drop pos = b :: rest) :
    byteAt packet pos = b := by
  rw [byteAt, field, h]
  exact UInt8.ofNat_toNat

/-- The first byte of a byte that is written in two. -/
lemma byteAt_eq_of_word {packet rest : Bytes} {pos : ℕ} {b : UInt8}
    (h : packet.drop pos = toLE 2 b.toNat ++ rest) : byteAt packet pos = b := by
  have hfirst : toLE 2 b.toNat = b :: [0] := by
    have hlow : b.toNat % 256 = b.toNat := Nat.mod_eq_of_lt b.toNat_lt
    have hhigh : b.toNat / 256 = 0 := Nat.div_eq_of_lt b.toNat_lt
    simp [toLE, hhigh]
  rw [hfirst] at h
  exact byteAt_eq h

lemma wordAt_eq {packet rest : Bytes} {pos : ℕ} {n : UInt16}
    (h : packet.drop pos = toLE 2 n.toNat ++ rest) : wordAt packet pos = n := by
  rw [wordAt, field_of_drop h n.toNat_lt]
  exact UInt16.ofNat_toNat

lemma dwordAt_eq {packet rest : Bytes} {pos : ℕ} {n : UInt32}
    (h : packet.drop pos = toLE 4 n.toNat ++ rest) : dwordAt packet pos = n := by
  rw [dwordAt, field_of_drop h n.toNat_lt]
  exact UInt32.ofNat_toNat

lemma codeAt_eq {packet rest : Bytes} {pos : ℕ} {code : StockCode}
    (h : packet.drop pos = asBytes code.text ++ rest) : codeAt packet pos = some code := by
  rw [codeAt, h, List.take_left' code.length_asBytes, code.ofBytes_asBytes]

/-! ## Reading requests back -/

namespace DataRequest

/-- K-lines. The code stands between the market and the category.

**Proof sketch.** The parts of the packet have fixed lengths, so each stands at the position where
it is read (`drop_add`); a byte or word that is written is read back. -/
lemma ofCommand_bars (category market : UInt8) (code : StockCode) (start count : UInt16) {p : Bytes}
    (hp : p = (bars category market code start count).packet) :
    ofCommand (field p 10 2) p = some (bars category market code start count) := by
  have h10 : p.drop 10 = toLE 2 cmdSecurityBars ++ (toLE 2 market.toNat ++ (asBytes code.text ++
      (toLE 2 category.toNat ++ (toLE 2 1 ++ (toLE 2 start.toNat ++ (toLE 2 count.toNat ++
        (toLE 4 0 ++ (toLE 4 0 ++ toLE 2 0)))))))) := by
    rw [hp, packet, buildSecurityBarsPacket, code.six.codeBytes_eq]
    simp only [List.append_assoc]
    rfl
  have h12 := drop_add h10
  have h14 := drop_add h12
  have h20 := drop_add h14
  have h22 := drop_add h20
  have h24 := drop_add h22
  have h26 := drop_add h24
  simp only [length_toLE, code.length_asBytes, Nat.reduceAdd] at h12 h14 h20 h22 h24 h26
  rw [field_of_drop h10 (by decide)]
  change (codeAt p 14).map _ = _
  rw [codeAt_eq h14, byteAt_eq_of_word h12, byteAt_eq_of_word h20, wordAt_eq h24, wordAt_eq h26]
  rfl

/-- Quotes.

**Proof sketch.** As for K-lines up to the number of stocks, which fits its word; behind it stand
the stocks, seven bytes each, and `readStocks_flatMap` reads them. -/
lemma ofCommand_securityQuotes (stocks : List (UInt8 × StockCode))
    (fits : stocks.length ≤ maxQuotesCount) {p : Bytes}
    (hp : p = (securityQuotes stocks fits).packet) :
    ofCommand (field p 10 2) p = some (securityQuotes stocks fits) := by
  have hlength : (stockTexts stocks).length = stocks.length := List.length_map _
  have h10 : p.drop 10 =
      toLE 2 (cmdSecurityQuotes % 65536) ++ (toLE 2 5 ++ (toLE 4 0 ++ (toLE 2 0 ++
        (toLE 2 stocks.length ++
          (stockTexts stocks).flatMap fun stock => stock.1 :: codeBytes stock.2)))) := by
    rw [hp, packet, HqProgram.buildSecurityQuotesPacket, hlength]
    simp only [List.append_assoc]
    rfl
  have h12 := drop_add h10
  have h14 := drop_add h12
  have h18 := drop_add h14
  have h20 := drop_add h18
  have h22 := drop_add h20
  simp only [length_toLE, Nat.reduceAdd] at h12 h14 h18 h20 h22
  have hcount : stocks.length < 256 ^ 2 := fits.trans_lt (by decide)
  rw [field_of_drop h10 (by decide)]
  change (readStocks (field p 20 2) (p.drop 22)).bind _ = _
  rw [field_of_drop h20 hcount, h22, readStocks_flatMap, Option.bind_some, dif_pos fits]

/-- The number of the securities of a market. -/
lemma ofCommand_securityCount (market : UInt8) {p : Bytes}
    (hp : p = (securityCount market).packet) :
    ofCommand (field p 10 2) p = some (securityCount market) := by
  have h10 : p.drop 10 = toLE 2 0x044e ++ (toLE 2 market.toNat ++ [0x75, 0xc7, 0x33, 0x01]) := by
    rw [hp]
    rfl
  have h12 := drop_add h10
  rw [length_toLE] at h12
  rw [field_of_drop h10 (by decide)]
  exact congrArg (fun m => some (securityCount m)) (byteAt_eq_of_word h12)

/-- The list of the securities of a market. -/
lemma ofCommand_securityList (market : UInt8) (start : UInt16) {p : Bytes}
    (hp : p = (securityList market start).packet) :
    ofCommand (field p 10 2) p = some (securityList market start) := by
  have h10 : p.drop 10 = toLE 2 0x0450 ++ (toLE 2 market.toNat ++ (toLE 2 start.toNat ++ [])) := by
    rw [hp]
    rfl
  have h12 := drop_add h10
  have h14 := drop_add h12
  simp only [length_toLE, Nat.reduceAdd] at h12 h14
  rw [field_of_drop h10 (by decide)]
  change some (securityList (byteAt p 12) (wordAt p 14)) = _
  rw [byteAt_eq_of_word h12, wordAt_eq h14]

/-- Minutes. The market is a single byte here. -/
lemma ofCommand_historyMinuteTimeData (market : UInt8) (code : StockCode) (date : UInt32)
    {p : Bytes} (hp : p = (historyMinuteTimeData market code date).packet) :
    ofCommand (field p 10 2) p = some (historyMinuteTimeData market code date) := by
  have h10 : p.drop 10 =
      toLE 2 0x0fb4 ++ (toLE 4 date.toNat ++ ([market] ++ (asBytes code.text ++ []))) := by
    rw [hp, List.append_nil]
    rfl
  have h12 := drop_add h10
  have h16 := drop_add h12
  have h17 := drop_add h16
  simp only [length_toLE, List.length_singleton, Nat.reduceAdd] at h12 h16 h17
  rw [field_of_drop h10 (by decide)]
  change (codeAt p 17).map _ = _
  rw [codeAt_eq h17, byteAt_eq h16, dwordAt_eq h12]
  rfl

/-- Transactions. -/
lemma ofCommand_transactionData (market : UInt8) (code : StockCode) (start count : UInt16)
    {p : Bytes} (hp : p = (transactionData market code start count).packet) :
    ofCommand (field p 10 2) p = some (transactionData market code start count) := by
  have h10 : p.drop 10 = toLE 2 0x0fc5 ++ (toLE 2 market.toNat ++ (asBytes code.text ++
      (toLE 2 start.toNat ++ (toLE 2 count.toNat ++ [])))) := by
    rw [hp, packet, buildTransactionPacket]
    simp only [List.append_assoc, List.append_nil]
    rfl
  have h12 := drop_add h10
  have h14 := drop_add h12
  have h20 := drop_add h14
  have h22 := drop_add h20
  simp only [length_toLE, code.length_asBytes, Nat.reduceAdd] at h12 h14 h20 h22
  rw [field_of_drop h10 (by decide)]
  change (codeAt p 14).map _ = _
  rw [codeAt_eq h14, byteAt_eq_of_word h12, wordAt_eq h20, wordAt_eq h22]
  rfl

/-- Transactions of an earlier day. The date stands before the market.

**Proof sketch.** The packet is written out as its fields, and each `drop` takes one of them away,
so that the reader finds the next one at its place. -/
lemma ofCommand_historyTransactionData (market : UInt8) (code : StockCode) (start count : UInt16)
    (date : UInt32) {p : Bytes}
    (hp : p = (historyTransactionData market code start count date).packet) :
    ofCommand (field p 10 2) p = some (historyTransactionData market code start count date) := by
  have h10 : p.drop 10 = toLE 2 0x0fb5 ++ (toLE 4 date.toNat ++ (toLE 2 market.toNat ++
      (asBytes code.text ++ (toLE 2 start.toNat ++ (toLE 2 count.toNat ++ []))))) := by
    rw [hp, packet, buildHistoryTransactionPacket]
    simp only [List.append_assoc, List.append_nil]
    rfl
  have h12 := drop_add h10
  have h16 := drop_add h12
  have h18 := drop_add h16
  have h24 := drop_add h18
  have h26 := drop_add h24
  simp only [length_toLE, code.length_asBytes, Nat.reduceAdd] at h12 h16 h18 h24 h26
  rw [field_of_drop h10 (by decide)]
  change (codeAt p 18).map _ = _
  rw [codeAt_eq h18, byteAt_eq_of_word h16, wordAt_eq h24, wordAt_eq h26, dwordAt_eq h12]
  rfl

/-- Finance reports, which differ from corporate actions by the command alone. -/
lemma ofCommand_financeInfo (market : UInt8) (code : StockCode) {p : Bytes}
    (hp : p = (financeInfo market code).packet) :
    ofCommand (field p 10 2) p = some (financeInfo market code) := by
  have h10 : p.drop 10 =
      toLE 2 0x0010 ++ (toLE 2 1 ++ ([market] ++ (asBytes code.text ++ []))) := by
    rw [hp, List.append_nil]
    rfl
  have h12 := drop_add h10
  have h14 := drop_add h12
  have h15 := drop_add h14
  simp only [length_toLE, List.length_singleton, Nat.reduceAdd] at h12 h14 h15
  rw [field_of_drop h10 (by decide)]
  change (codeAt p 15).map _ = _
  rw [codeAt_eq h15, byteAt_eq h14]
  rfl

/-- Corporate actions. -/
lemma ofCommand_xdxrInfo (market : UInt8) (code : StockCode) {p : Bytes}
    (hp : p = (xdxrInfo market code).packet) :
    ofCommand (field p 10 2) p = some (xdxrInfo market code) := by
  have h10 : p.drop 10 =
      toLE 2 0x000f ++ (toLE 2 1 ++ ([market] ++ (asBytes code.text ++ []))) := by
    rw [hp, List.append_nil]
    rfl
  have h12 := drop_add h10
  have h14 := drop_add h12
  have h15 := drop_add h14
  simp only [length_toLE, List.length_singleton, Nat.reduceAdd] at h12 h14 h15
  rw [field_of_drop h10 (by decide)]
  change (codeAt p 15).map _ = _
  rw [codeAt_eq h15, byteAt_eq h14]
  rfl

/-- The size of a file and its hash. -/
lemma ofCommand_blockInfoMeta (blockFile : FileName 40) {p : Bytes}
    (hp : p = (blockInfoMeta blockFile).packet) :
    ofCommand (field p 10 2) p = some (blockInfoMeta blockFile) := by
  have h10 : p.drop 10 = toLE 2 0x02c5 ++ nameBuf 40 blockFile.text := by
    rw [hp]
    rfl
  have h12 := drop_add h10
  rw [length_toLE] at h12
  rw [field_of_drop h10 (by decide)]
  change (FileName.ofBytes 40 (p.drop 12)).map _ = _
  rw [h12, blockFile.ofBytes_nameBuf]
  rfl

/-- A part of a file. -/
lemma ofCommand_blockInfo (blockFile : FileName 100) (start size : UInt32) {p : Bytes}
    (hp : p = (blockInfo blockFile start size).packet) :
    ofCommand (field p 10 2) p = some (blockInfo blockFile start size) := by
  have h10 : p.drop 10 = toLE 2 0x06b9 ++ (toLE 4 start.toNat ++ (toLE 4 size.toNat ++
      nameBuf 100 blockFile.text)) := by
    rw [hp, packet, blockInfoPacket]
    simp only [List.append_assoc]
    rfl
  have h12 := drop_add h10
  have h16 := drop_add h12
  have h20 := drop_add h16
  simp only [length_toLE, Nat.reduceAdd] at h12 h16 h20
  rw [field_of_drop h10 (by decide)]
  change (FileName.ofBytes 100 (p.drop 20)).map _ = _
  rw [h20, blockFile.ofBytes_nameBuf, dwordAt_eq h12, dwordAt_eq h16]
  rfl

/-- The command of its packet leads to a request. One case for each kind of request.

**Proof sketch.** The commands are different, so that the packet is read as the kind of request that
it was made of. -/
lemma ofCommand_packet (q : DataRequest) : ofCommand (field q.packet 10 2) q.packet = some q := by
  cases q with
  | bars category market code start count =>
    exact ofCommand_bars category market code start count rfl
  | securityQuotes stocks fits => exact ofCommand_securityQuotes stocks fits rfl
  | securityCount market => exact ofCommand_securityCount market rfl
  | securityList market start => exact ofCommand_securityList market start rfl
  | historyMinuteTimeData market code date =>
    exact ofCommand_historyMinuteTimeData market code date rfl
  | transactionData market code start count =>
    exact ofCommand_transactionData market code start count rfl
  | historyTransactionData market code start count date =>
    exact ofCommand_historyTransactionData market code start count date rfl
  | financeInfo market code => exact ofCommand_financeInfo market code rfl
  | xdxrInfo market code => exact ofCommand_xdxrInfo market code rfl
  | blockInfoMeta blockFile => exact ofCommand_blockInfoMeta blockFile rfl
  | blockInfo blockFile start size => exact ofCommand_blockInfo blockFile start size rfl

/-- The packet of a request carries it. -/
lemma ofPacket_packet (q : DataRequest) : ofPacket q.packet = some q := by
  rw [ofPacket, ofCommand_packet, Option.filter_some, decide_eq_true rfl, if_pos rfl]

end DataRequest

/-- Calls for the K-line of a stock send the same packet exactly if the lower 16 bits of their
starts agree.

**Proof sketch.** A server reads the start back modulo `2 ^ 16`, so equal packets have equal
remainders; and the two bytes of the start depend on the remainder alone. -/
lemma build_eq_iff (category market : UInt8) (code : String) (start start' count : ℕ) :
    buildSecurityBarsPacket category market code start count =
        buildSecurityBarsPacket category market code start' count ↔
      start % 65536 = start' % 65536 := by
  constructor
  · intro hsame
    have hread := ofPacket_build category market code start count
    rw [hsame, ofPacket_build] at hread
    have hstart : start' % 65536 = start % 65536 :=
      congrArg BarsRequest.start (Option.some.inj hread)
    exact hstart.symm
  · intro hmod
    have hstart : toLE 2 start = toLE 2 start' := by
      rw [← toLE_mod 2 start, ← toLE_mod 2 start', show 256 ^ 2 = 65536 from rfl, hmod]
    rw [buildSecurityBarsPacket, buildSecurityBarsPacket, hstart]

/-- **The packets of all requests whose fields fit are read back, and no others.** A packet carries
such a request exactly if it is the one that the client builds for it; so two different ones never
have the same packet, and the request of a heartbeat is for the number of securities of the first
market. Two calls for the K-line of one stock that ask for as many bars from any position have the
same packet exactly if the lower 16 bits of the positions agree.

**Proof sketch.** Each field is read back at its place (`ofCommand_packet`, one case for each
command). That all other bytes are those of the packet is checked by building it again. -/
theorem request_read_back :
    (∀ (p : Bytes) (q : DataRequest), DataRequest.ofPacket p = some q ↔ p = q.packet) ∧
      Function.Injective DataRequest.packet ∧
      DataRequest.ofPacket heartbeatPacket = some (.securityCount marketSz) ∧
      ∀ (category market : UInt8) (code : String) (start start' : UInt32) (count : UInt16),
        buildSecurityBarsPacket category market code start.toNat count.toNat =
            buildSecurityBarsPacket category market code start'.toNat count.toNat ↔
          start.toNat % 65536 = start'.toNat % 65536 := by
  have hread (p : Bytes) (q : DataRequest) : DataRequest.ofPacket p = some q ↔ p = q.packet := by
    rw [DataRequest.ofPacket, Option.filter_eq_some_iff, decide_eq_true_eq]
    constructor
    · exact fun h => h.2.symm
    · rintro rfl
      exact ⟨q.ofCommand_packet, rfl⟩
  refine ⟨hread, fun q q' hsame => ?_, (hread _ _).mpr rfl,
    fun category market code start start' count => build_eq_iff category market code _ _ _⟩
  have hq := q.ofPacket_packet
  rw [hsame, q'.ofPacket_packet] at hq
  exact (Option.some.inj hq).symm

end Tdxrs
