import Mathlib.Algebra.GroupWithZero.Nat
import Mathlib.Data.List.Basic
import Mathlib.Data.Nat.Notation

set_option relaxedAutoImplicit false
set_option autoImplicit false

/-!
# Texts and their bytes

Texts are lists of characters. Programs that keep texts in UTF-8 count their length in bytes and cut
them at byte positions, which is possible only between two characters.

## Main definitions

* `Utf8.len` — the number of bytes of a text.
* `Utf8.takeBytes` — the part of a text up to a byte position.
* `Utf8.isWhiteSpace`, `Utf8.trim` — a text without the white space around it.
-/

namespace Utf8

/-- The number of bytes of a text. -/
def len (s : List Char) : ℕ := (s.map Char.utf8Size).sum

/-- The part of a text up to a byte position; there is none if the position is behind the end or
within a character. -/
def takeBytes : ℕ → List Char → Option (List Char)
  | 0, _ => some []
  | _ + 1, [] => none
  | n + 1, c :: s =>
    if c.utf8Size ≤ n + 1 then (takeBytes (n + 1 - c.utf8Size) s).map (c :: ·) else none
termination_by structural _ s => s

/-- White space, as Unicode has it. -/
def isWhiteSpace (c : Char) : Bool :=
  (0x09 ≤ c.toNat && c.toNat ≤ 0x0D) || c.toNat = 0x20 || c.toNat = 0x85 || c.toNat = 0xA0 ||
    c.toNat = 0x1680 || (0x2000 ≤ c.toNat && c.toNat ≤ 0x200A) || c.toNat = 0x2028 ||
    c.toNat = 0x2029 || c.toNat = 0x202F || c.toNat = 0x205F || c.toNat = 0x3000

/-- A text without the white space at its beginning and at its end. -/
def trim (s : List Char) : List Char :=
  ((s.dropWhile isWhiteSpace).reverse.dropWhile isWhiteSpace).reverse

end Utf8
