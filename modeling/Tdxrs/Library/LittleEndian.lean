import Mathlib.Data.List.Basic
import Mathlib.Data.Nat.Notation
import Mathlib.Tactic.Ring
import Tdxrs.Library.Pieces

set_option relaxedAutoImplicit false
set_option autoImplicit false

/-!
# Little-endian numbers in byte strings

`toLE w n` writes the last `w` base-256 digits of `n`, least significant first, and `ofLE`
reads a byte string back; writing and reading gives `n mod 256ʷ`. Fields of a packet are read
from the packet by position, so the last part says how a field is read out of a concatenation.

## Main definitions

* `LittleEndian.toLE`, `LittleEndian.ofLE` — writing and reading a number.
* `LittleEndian.field` — the number in the `w` bytes at a position.

## Main results

* `LittleEndian.ofLE_toLE`, `toLE_ofLE` — reading what was written, and writing what was read.
* `LittleEndian.field_append_left`, `field_append_right`, `field_toLE` — reading a field out
  of a concatenation.
* `LittleEndian.field_of_at` — reading a field where a number has been written.
-/

namespace LittleEndian

/-- The last `w` base-256 digits of `n`, least significant first. -/
def toLE : ℕ → ℕ → List UInt8
  | 0, _ => []
  | w + 1, n => UInt8.ofNat n :: toLE w (n / 256)

/-- A byte string read as a number, least significant byte first. -/
def ofLE : List UInt8 → ℕ
  | [] => 0
  | b :: l => b.toNat + 256 * ofLE l

/-- A number is written in `w` bytes. -/
@[simp] lemma length_toLE (w n : ℕ) : (toLE w n).length = w := by
  induction w generalizing n with
  | zero => rfl
  | succ w ih => simp [toLE, ih]

/-- Reading what was written gives the number modulo `256ʷ`. -/
lemma ofLE_toLE (w n : ℕ) : ofLE (toLE w n) = n % 256 ^ w := by
  induction w generalizing n with
  | zero => simp [toLE, ofLE, Nat.mod_one]
  | succ w ih =>
    have hb : (UInt8.ofNat n).toNat = n % 256 := by simp
    rw [toLE, ofLE, ih, hb, pow_succ, Nat.mul_comm (256 ^ w), Nat.mod_mul]

/-- Writing what was read gives the bytes. -/
lemma toLE_ofLE (l : List UInt8) : toLE l.length (ofLE l) = l := by
  induction l with
  | nil => rfl
  | cons b l ih =>
    have hlt := b.toNat_lt
    have hhead : UInt8.ofNat (b.toNat + 256 * ofLE l) = b := by
      rw [← UInt8.toNat_inj, UInt8.toNat_ofNat']
      omega
    have htail : (b.toNat + 256 * ofLE l) / 256 = ofLE l := by omega
    rw [List.length_cons, ofLE, toLE, hhead, htail, ih]

/-- Only the digits that are written count. -/
lemma toLE_mod (w n : ℕ) : toLE w (n % 256 ^ w) = toLE w n := by
  have hread := toLE_ofLE (toLE w n)
  rwa [length_toLE, ofLE_toLE] at hread

/-- A byte string is below `256` to its length. -/
lemma ofLE_lt : ∀ l : List UInt8, ofLE l < 256 ^ l.length
  | [] => by simp [ofLE]
  | b :: l => by
    have h1 := ofLE_lt l
    have h2 := b.toNat_lt
    rw [ofLE, List.length_cons, pow_succ]
    omega

/-- The number in the `w` bytes at position `pos`. -/
def field (l : List UInt8) (pos w : ℕ) : ℕ := ofLE ((l.drop pos).take w)

/-- A field is below `256ʷ`. -/
lemma field_lt (l : List UInt8) (pos w : ℕ) : field l pos w < 256 ^ w :=
  (ofLE_lt _).trans_le (Nat.pow_le_pow_right (by omega) (List.length_take_le _ _))

/-- A field inside the first part of a concatenation. -/
lemma field_append_left {a : List UInt8} (b : List UInt8) {pos w : ℕ}
    (h : pos + w ≤ a.length) : field (a ++ b) pos w = field a pos w := by
  unfold field
  rw [List.drop_append_of_le_length (by omega), List.take_append_of_le_length]
  rw [List.length_drop]
  omega

/-- A field inside the second part of a concatenation. -/
lemma field_append_right (a b : List UInt8) {pos : ℕ} (h : a.length ≤ pos) (w : ℕ) :
    field (a ++ b) pos w = field b (pos - a.length) w := by
  unfold field
  rw [List.drop_append, List.drop_eq_nil_of_le h, List.nil_append]

/-- A field that is a whole written number. -/
lemma field_toLE (w n : ℕ) : field (toLE w n) 0 w = n % 256 ^ w := by
  unfold field
  rw [List.drop_zero, List.take_of_length_le (length_toLE w n).le, ofLE_toLE]

/-- A number that has been written at a position. -/
lemma field_of_at {l : List UInt8} {pos w n : ℕ} (h : Pieces.At l pos (toLE w n))
    (hn : n < 256 ^ w) : field l pos w = n := by
  have htake := h.take_drop
  rw [length_toLE] at htake
  rw [field, htake, ofLE_toLE, Nat.mod_eq_of_lt hn]

/-- A field of four bytes, byte by byte. -/
lemma field_four {l : List UInt8} {pos : ℕ} (h : pos + 4 ≤ l.length) :
    ofLE [l.getD pos 0, l.getD (pos + 1) 0, l.getD (pos + 2) 0, l.getD (pos + 3) 0] =
      field l pos 4 := by
  have hget (i : ℕ) : l.getD (pos + i) 0 = (l.drop pos).getD i 0 := by
    rw [List.getD_eq_getElem?_getD, List.getD_eq_getElem?_getD, List.getElem?_drop]
  have hlength : 4 ≤ (l.drop pos).length := by
    rw [List.length_drop]
    omega
  rw [field, hget 1, hget 2, hget 3, ← Nat.add_zero pos, hget 0, Nat.add_zero]
  match l.drop pos, hlength with
  | _ :: _ :: _ :: _ :: _, _ => rfl

end LittleEndian
