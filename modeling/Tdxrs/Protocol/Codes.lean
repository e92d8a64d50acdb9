import Mathlib.Algebra.Order.Field.Rat
import Tdxrs.Net.Packet
import Tdxrs.Protocol.Types

set_option relaxedAutoImplicit false
set_option autoImplicit false

/-!
# Codes of securities

A response holds the code of a security in six bytes of UTF-8, filled up with zero bytes. The
coefficient that turns a price of a response into one of the market depends on the market and on
how the code begins (`get_security_type` and `get_security_coefficient` of
`src/protocol/types.rs`).

## Main definitions

* `Tdxrs.fromUtf8Lossy` — decoding with replacement characters, as the standard library does.
* `Tdxrs.trimEndNul`, `Tdxrs.decodeCode` — the code in a response.
* `Tdxrs.getSecurityType`, `Tdxrs.getSecurityCoefficient` — types and coefficients.

## Main results

* `Tdxrs.decodeCode_ascii` — the code of a security of ASCII characters.
-/

namespace Tdxrs

/-! ## Texts in responses -/

/-- A character that has begun: what its bytes so far stand for, how many more there are, and the
range of the next one. -/
structure Pending where
  value : ℕ
  missing : ℕ
  least : UInt8
  greatest : UInt8

/-- The character that a first byte begins; `none` if it begins none of several bytes. -/
def Pending.start (b : UInt8) : Option Pending :=
  if 0xC2 ≤ b ∧ b ≤ 0xDF then some ⟨b.toNat - 0xC0, 1, 0x80, 0xBF⟩
  else if b = 0xE0 then some ⟨0, 2, 0xA0, 0xBF⟩
  else if b = 0xED then some ⟨0xD, 2, 0x80, 0x9F⟩
  else if 0xE1 ≤ b ∧ b ≤ 0xEF then some ⟨b.toNat - 0xE0, 2, 0x80, 0xBF⟩
  else if b = 0xF0 then some ⟨0, 3, 0x90, 0xBF⟩
  else if 0xF1 ≤ b ∧ b ≤ 0xF3 then some ⟨b.toNat - 0xF0, 3, 0x80, 0xBF⟩
  else if b = 0xF4 then some ⟨4, 3, 0x80, 0x8F⟩
  else none

/-- The replacement character. -/
def replacement : Char := Char.ofNat 0xFFFD

/-- A byte outside a character: what it stands for, and the character that it begins. -/
def decodeFirst (b : UInt8) : Text × Option Pending :=
  if b < 0x80 then ([Char.ofNat b.toNat], none)
  else match Pending.start b with
    | none => ([replacement], none)
    | some p => ([], some p)

/-- Decodes UTF-8 from within a character on. What is no character is replaced: the longest part of
one that has begun, or a single byte. -/
def decodeLossy : Option Pending → Bytes → Text
  | none, [] => []
  | some _, [] => [replacement]
  | none, b :: rest =>
    let (text, next) := decodeFirst b
    text ++ decodeLossy next rest
  | some p, b :: rest =>
    if p.least ≤ b ∧ b ≤ p.greatest then
      let value := p.value * 64 + (b.toNat - 0x80)
      if p.missing = 1 then Char.ofNat value :: decodeLossy none rest
      else decodeLossy (some ⟨value, p.missing - 1, 0x80, 0xBF⟩) rest
    else
      let (text, next) := decodeFirst b
      replacement :: (text ++ decodeLossy next rest)

/-- Decodes UTF-8 with replacement characters. -/
def fromUtf8Lossy (bytes : Bytes) : Text := decodeLossy none bytes

/-- A text without the zero characters at its end. -/
def trimEndNul (s : Text) : Text := (s.reverse.dropWhile (· == '\x00')).reverse

/-- The code in a response. -/
def decodeCode (codeBytes : Bytes) : Text := trimEndNul (fromUtf8Lossy codeBytes)

/-- Two characters, a part of one, and the bytes `FF 41`. -/
example : fromUtf8Lossy [0x41, 0xE4, 0xB8, 0xAD, 0xE4, 0xB8, 0xFF, 0x41] =
    ['A', '中', replacement, replacement, 'A'] := by
  decide

/-- The text of a byte string of ASCII characters. -/
def asciiText (bytes : Bytes) : Text := bytes.map fun b => Char.ofNat b.toNat

/-- ASCII characters are decoded one by one. -/
lemma fromUtf8Lossy_ascii {bytes : Bytes} (h : ∀ b ∈ bytes, b < 0x80) :
    fromUtf8Lossy bytes = asciiText bytes := by
  unfold fromUtf8Lossy
  induction bytes with
  | nil => rfl
  | cons b bytes ih =>
    obtain ⟨hb, hbytes⟩ := List.forall_mem_cons.mp h
    rw [decodeLossy, decodeFirst, if_pos hb]
    exact congrArg (Char.ofNat b.toNat :: ·) (ih hbytes)

/-- The zero characters at the end of a text are what is trimmed, if there are none before them. -/
lemma trimEndNul_append {s : Text} (h : s.getLast? ≠ some '\x00') (k : ℕ) :
    trimEndNul (s ++ List.replicate k '\x00') = s := by
  have hnul : ∀ c ∈ List.replicate k '\x00', c == '\x00' := fun c hc =>
    beq_iff_eq.mpr (List.eq_of_mem_replicate hc)
  rw [trimEndNul, List.reverse_append, List.reverse_replicate, List.dropWhile_append_of_pos hnul]
  rcases s.eq_nil_or_concat' with rfl | ⟨init, c, rfl⟩
  · rfl
  · rw [List.getLast?_concat] at h
    have hc : (c == '\x00') = false := beq_eq_false_iff_ne.mpr fun hc => h (congrArg some hc)
    rw [List.reverse_append, List.reverse_singleton, List.singleton_append, List.dropWhile_cons, hc,
      if_neg Bool.false_ne_true, List.reverse_cons, List.reverse_reverse]

/-- **The code of a security** of ASCII characters, filled up with zero bytes.

**Proof sketch.** ASCII bytes and zeros are decoded one by one (`fromUtf8Lossy_ascii`), and the
characters of the code do not end in the zero character, so `trimEndNul_append` removes exactly the
filling. -/
lemma decodeCode_ascii {bytes : Bytes} (hascii : ∀ b ∈ bytes, b < 0x80)
    (hlast : bytes.getLast? ≠ some 0) (k : ℕ) :
    decodeCode (bytes ++ List.replicate k 0) = asciiText bytes := by
  have hpadded : ∀ b ∈ bytes ++ List.replicate k 0, b < 0x80 := by
    intro b hb
    rcases List.mem_append.mp hb with hb | hb
    · exact hascii b hb
    · exact List.eq_of_mem_replicate hb ▸ (by decide)
  have htext : asciiText (bytes ++ List.replicate k 0) =
      asciiText bytes ++ List.replicate k '\x00' := by
    rw [asciiText, List.map_append, List.map_replicate]
    rfl
  have hend : (asciiText bytes).getLast? ≠ some '\x00' := by
    rw [asciiText, List.getLast?_map]
    intro hnul
    obtain ⟨b, hb, hzero⟩ := Option.map_eq_some_iff.mp hnul
    have hsmall := UInt8.lt_iff_toNat_lt.mp (hascii b (List.mem_of_getLast? hb))
    have hnonzero : ∀ n < 128, Char.ofNat n = '\x00' → n = 0 := by decide
    exact hlast (hb.trans (congrArg some (UInt8.toNat_inj.mp (hnonzero _ hsmall hzero))))
  rw [decodeCode, fromUtf8Lossy_ascii hpadded, htext, trimEndNul_append hend]

/-! ## Types and coefficients -/

/-- The code begins with one of the texts. -/
def startsWithAny (code : Text) (starts : List String) : Bool :=
  starts.any fun s => s.toList.isPrefixOf code

/-- The type of a security: an index (0), an A-share (1), a B-share (2), a fund that is traded (3),
a bond (4) or a fund that is not (5). -/
def getSecurityType (market : UInt8) (code : Text) : ℕ :=
  if market = 1 then
    if startsWithAny code ["60", "68"] then 1
    else if startsWithAny code ["90"] then 2
    -- before the traded funds, whose codes begin with 50, 51 or 58
    else if startsWithAny code ["519"] then 5
    else if startsWithAny code ["50", "51", "58"] then 3
    else if startsWithAny code ["11", "13"] then 4
    else if startsWithAny code ["000"] then 0
    else 1
  else if market = 0 then
    if startsWithAny code ["39"] then 0
    else if startsWithAny code ["00", "30"] then 1
    else if startsWithAny code ["20"] then 2
    else if startsWithAny code ["15", "16"] then 3
    else if startsWithAny code ["10", "12", "13"] then 4
    else 1
  else 1

/-- The coefficient of the prices of a security. -/
def getSecurityCoefficient (market : UInt8) (code : Text) : ℚ :=
  match getSecurityType market code with
  | 0 => 1 / 100
  | 1 => 1 / 100
  | 2 => 1 / 1000
  | 3 => 1 / 1000
  | 4 => 1 / 10000
  | 5 => 1 / 100000
  | _ => 1 / 100

end Tdxrs
