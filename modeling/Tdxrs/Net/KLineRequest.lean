import Tdxrs.Error
import Tdxrs.Library.Window
import Tdxrs.Protocol.Constants

set_option relaxedAutoImplicit false
set_option autoImplicit false

/-!
# K-line requests

The checks of a stock code and the request packet of `src/net/utils.rs`, and the classification
of block codes of `src/error_codes.rs`. A server reads the request back out of the packet by the
positions of its fields, `BarsRequest.ofPacket`.

## Main definitions

* `Tdxrs.codeBytes`, `Tdxrs.codeBytesStrict`, `Tdxrs.isBlockCode` — stock codes.
* `Tdxrs.buildSecurityBarsPacket` — the request packet.
* `Tdxrs.BarsRequest.ofPacket` — the request that a packet carries.
* `Tdxrs.ServesSlices`, `Tdxrs.ServesRecords` — a server that answers by the slices of a history;
  `Tdxrs.AnswersRecords` — one that may fail.

## Main results

* `Tdxrs.ofPacket_build` — a server reads back the code and, modulo `2^16`, start and count.
-/

namespace Tdxrs

/-- The UTF-8 bytes of a text. -/
def asBytes (s : String) : Bytes := s.toUTF8.data.toList

/-- A stock code in six bytes, cut off or filled up with zeros. -/
def codeBytes (code : String) : Bytes := ((asBytes code).take 6).rightpad 6 0

/-- An ASCII letter or digit. -/
def isAsciiAlphanumeric (b : UInt8) : Bool :=
  (0x30 ≤ b && b ≤ 0x39) || (0x41 ≤ b && b ≤ 0x5A) || (0x61 ≤ b && b ≤ 0x7A)

/-- A stock code in six bytes, refused unless it is six ASCII alphanumerics. -/
def codeBytesStrict (code : String) : Except TdxError Bytes :=
  if (asBytes code).length ≠ 6 ∨ ¬ (asBytes code).all isAsciiAlphanumeric then
    .error (ErrorCode.invalidStockCode.err
      s!"invalid stock code {code.quote}: expect 6 ASCII alphanumerics")
  else .ok (asBytes code)

/-- A block code: six ASCII characters, the first two `88`. -/
def isBlockCode (code : String) : Bool :=
  (asBytes code).length = 6 && (asBytes code).all (· < 0x80) &&
    (asBytes code).take 2 = [0x38, 0x38]

/-- The packet of a K-line request. The start is cut to 16 bits. -/
def buildSecurityBarsPacket (category market : UInt8) (code : String) (start count : ℕ) : Bytes :=
  LittleEndian.toLE 2 0x010C ++ LittleEndian.toLE 4 0x01016408 ++ LittleEndian.toLE 2 0x001C ++
    LittleEndian.toLE 2 0x001C ++ LittleEndian.toLE 2 cmdSecurityBars ++
    LittleEndian.toLE 2 market.toNat ++ codeBytes code ++ LittleEndian.toLE 2 category.toNat ++
    LittleEndian.toLE 2 1 ++ LittleEndian.toLE 2 start ++ LittleEndian.toLE 2 count ++
    LittleEndian.toLE 4 0 ++ LittleEndian.toLE 4 0 ++ LittleEndian.toLE 2 0

/-- The packet of an index K-line request has the same layout. -/
def buildIndexBarsPacket (category market : UInt8) (code : String) (start count : ℕ) : Bytes :=
  buildSecurityBarsPacket category market code start count

/-- A K-line request as a server reads it. -/
structure BarsRequest where
  category : ℕ
  market : ℕ
  code : Bytes
  start : ℕ
  count : ℕ
deriving DecidableEq, Repr

/-- The K-line request that a packet carries. -/
def BarsRequest.ofPacket (packet : Bytes) : Option BarsRequest :=
  if packet.length = 38 ∧ LittleEndian.field packet 10 2 = cmdSecurityBars then
    some
      { category := LittleEndian.field packet 20 2
        market := LittleEndian.field packet 12 2
        code := (packet.drop 14).take 6
        start := LittleEndian.field packet 24 2
        count := LittleEndian.field packet 26 2 }
  else none

/-- A code fills six bytes. -/
@[simp] lemma length_codeBytes (code : String) : (codeBytes code).length = 6 := by
  simp [codeBytes]

/-- The fields of the packet, by their positions. -/
lemma field_build (category market : UInt8) (code : String) (start count : ℕ) (packet : Bytes)
    (hp : packet = buildSecurityBarsPacket category market code start count) :
    LittleEndian.field packet 10 2 = cmdSecurityBars ∧
      LittleEndian.field packet 12 2 = market.toNat % 65536 ∧
      LittleEndian.field packet 20 2 = category.toNat % 65536 ∧
      LittleEndian.field packet 24 2 = start % 65536 ∧
      LittleEndian.field packet 26 2 = count % 65536 := by
  have hcode := length_codeBytes code
  subst hp
  unfold buildSecurityBarsPacket
  refine ⟨?_, ?_, ?_, ?_, ?_⟩
  all_goals
    simp (disch := simp [hcode]) only [LittleEndian.field_append_left]
    simp (disch := simp [hcode]) only [LittleEndian.field_append_right]
    simp [hcode, LittleEndian.field_toLE, cmdSecurityBars]

/-- A byte fits a 16-bit field. -/
lemma toNat_mod_word (b : UInt8) : b.toNat % 65536 = b.toNat :=
  Nat.mod_eq_of_lt (by have := b.toNat_lt; omega)

/-- **A server reads the request back**, with start and count modulo `2^16`.

**Proof sketch.** The fields are at fixed places of the 38 bytes; the two counts were written as
words of 16 bits. -/
theorem ofPacket_build (category market : UInt8) (code : String) (start count : ℕ) :
    BarsRequest.ofPacket (buildSecurityBarsPacket category market code start count) =
      some ⟨category.toNat, market.toNat, codeBytes code, start % 65536, count % 65536⟩ := by
  have hcode := length_codeBytes code
  obtain ⟨hcmd, hmarket, hcategory, hstart, hcount⟩ :=
    field_build category market code start count _ rfl
  have hlen : (buildSecurityBarsPacket category market code start count).length = 38 := by
    simp [buildSecurityBarsPacket, hcode]
  have hdrop : ((buildSecurityBarsPacket category market code start count).drop 14).take 6 =
      codeBytes code := by
    simp (disch := simp) [buildSecurityBarsPacket, List.drop_append,
      List.drop_eq_nil_of_le]
  rw [BarsRequest.ofPacket, if_pos ⟨hlen, hcmd⟩, hcategory, hmarket, hdrop, hstart, hcount,
    toNat_mod_word, toNat_mod_word]

/-- Requests for the K-line of a stock, sent in any world, are answered by a body that parses to
the slice of the history that they ask for. -/
def ServesSlices {σ β : Type} (send : Bytes → σ → Except TdxError Bytes × σ)
    (parse : Bytes → Except TdxError (List β)) (category market : UInt8) (code : String)
    (history : List β) : Prop :=
  ∀ packet start count w,
    BarsRequest.ofPacket packet =
      some ⟨category.toNat, market.toNat, codeBytes code, start, count⟩ →
    ∃ body w', send packet w = (.ok body, w') ∧ parse body = .ok (Window.slice history start count)

/-- The request that the clients build is answered by the slice they mean, when start and count
fit 16 bits. -/
lemma ServesSlices.build {σ β : Type} {send : Bytes → σ → Except TdxError Bytes × σ}
    {parse : Bytes → Except TdxError (List β)} {category market : UInt8} {code : String}
    {history : List β} (h : ServesSlices send parse category market code history) {start count : ℕ}
    (hstart : start ≤ 65535) (hcount : count ≤ 65535) (w : σ) :
    ∃ body w', send (buildSecurityBarsPacket category market code start count) w = (.ok body, w') ∧
      parse body = .ok (Window.slice history start count) := by
  have hpacket := ofPacket_build category market code start count
  rw [Nat.mod_eq_of_lt (by omega), Nat.mod_eq_of_lt (by omega)] at hpacket
  exact h _ start count w hpacket

/-- Requests for the K-line of a stock, sent in any world, are answered by the encoded slice of the
records that they ask for. -/
def ServesRecords {σ ρ : Type} (send : Bytes → σ → Except TdxError Bytes × σ)
    (encode : List ρ → Bytes) (category market : UInt8) (code : String) (records : List ρ) : Prop :=
  ∀ packet start count w,
    BarsRequest.ofPacket packet =
      some ⟨category.toNat, market.toNat, codeBytes code, start, count⟩ →
    ∃ w', send packet w = (.ok (encode (Window.slice records start count)), w')

/-- The request that the clients build is answered by the encoded slice that they mean. -/
lemma ServesRecords.build {σ ρ : Type} {send : Bytes → σ → Except TdxError Bytes × σ}
    {encode : List ρ → Bytes} {category market : UInt8} {code : String} {records : List ρ}
    (h : ServesRecords send encode category market code records) {start count : ℕ}
    (hstart : start ≤ 65535) (hcount : count ≤ 65535) (w : σ) :
    ∃ w', send (buildSecurityBarsPacket category market code start count) w =
      (.ok (encode (Window.slice records start count)), w') := by
  have hpacket := ofPacket_build category market code start count
  rw [Nat.mod_eq_of_lt (by omega), Nat.mod_eq_of_lt (by omega)] at hpacket
  exact h _ start count w hpacket

/-- Requests for the K-line of a stock may fail. If one is answered, then by the encoded slice of
the records that it asks for. -/
def AnswersRecords {σ ρ : Type} (send : Bytes → σ → Except TdxError Bytes × σ)
    (encode : List ρ → Bytes) (category market : UInt8) (code : String) (records : List ρ) : Prop :=
  ∀ packet start count w body w',
    BarsRequest.ofPacket packet =
      some ⟨category.toNat, market.toNat, codeBytes code, start, count⟩ →
    send packet w = (.ok body, w') → body = encode (Window.slice records start count)

/-- The answer to the request that the clients build is a slice from the lower 16 bits of the start
on. -/
lemma AnswersRecords.build {σ ρ : Type} {send : Bytes → σ → Except TdxError Bytes × σ}
    {encode : List ρ → Bytes} {category market : UInt8} {code : String} {records : List ρ}
    (h : AnswersRecords send encode category market code records) {start count : ℕ}
    (hcount : count ≤ 65535) {w w' : σ} {body : Bytes}
    (hsend : send (buildSecurityBarsPacket category market code start count) w = (.ok body, w')) :
    body = encode (Window.slice records (start % 65536) count) := by
  have hpacket := ofPacket_build category market code start count
  rw [Nat.mod_eq_of_lt (by omega : count < 65536)] at hpacket
  exact h _ _ _ w body w' hpacket hsend

end Tdxrs
