import Mathlib.Data.List.Basic
import Mathlib.Data.Nat.Notation

set_option relaxedAutoImplicit false
set_option autoImplicit false

/-!
# Text files by lines

Reading a text file line by line: every kind of line end counts as one, lines are cut behind
their ends, and a line is stripped of the whitespace around it. A text that was written as lines
with `\r\n` behind each is read back as these lines.

## Main definitions

* `TextLines.universalNewlines` — a text with all line ends as `\n`.
* `TextLines.readLines` — the lines of a text.
* `TextLines.strip` — a text without whitespace at its ends.

## Main results

* `TextLines.readLines_crlf` — the lines of a text that was written line by line.
* `TextLines.strip_append_cons` — a text is kept up to a character that is no whitespace.
-/

namespace TextLines

/-- A text read with every kind of line end as `\n`. -/
def universalNewlines : List Char → List Char
  | [] => []
  | '\r' :: '\n' :: t => '\n' :: universalNewlines t
  | '\r' :: t => '\n' :: universalNewlines t
  | c :: t => c :: universalNewlines t

/-- The lines of a text, with their ends. -/
def readLines : List Char → List (List Char)
  | [] => []
  | c :: t =>
    if c = '\n' then [c] :: readLines t
    else
      match readLines t with
      | [] => [[c]]
      | line :: lines => (c :: line) :: lines

/-- The characters that count as whitespace. -/
def isSpace (c : Char) : Bool :=
  (9 ≤ c.toNat && c.toNat ≤ 13) || (28 ≤ c.toNat && c.toNat ≤ 32) ||
    (0x2000 ≤ c.toNat && c.toNat ≤ 0x200A) ||
    [0x85, 0xA0, 0x1680, 0x2028, 0x2029, 0x202F, 0x205F, 0x3000].contains c.toNat

/-- A text without the whitespace at its two ends. -/
def strip (t : List Char) : List Char :=
  ((t.dropWhile isSpace).reverse.dropWhile isSpace).reverse

/-- The end of a line. -/
def crlf : List Char := ['\r', '\n']

/-- A text without line ends. -/
def IsLine (t : List Char) : Prop := ∀ c ∈ t, c ≠ '\r' ∧ c ≠ '\n'

/-- Lines put together are a line. -/
lemma IsLine.append {a b : List Char} (ha : IsLine a) (hb : IsLine b) : IsLine (a ++ b) := by
  intro c hc
  rcases List.mem_append.mp hc with hc | hc
  · exact ha c hc
  · exact hb c hc

/-- A character that ends no line, before a line. -/
lemma IsLine.cons {c : Char} {t : List Char} (hc : c ≠ '\r' ∧ c ≠ '\n') (ht : IsLine t) :
    IsLine (c :: t) := by
  intro c' hc'
  rcases List.mem_cons.mp hc' with rfl | hc'
  · exact hc
  · exact ht c' hc'

/-- The rest of a line. -/
lemma IsLine.tail {c : Char} {t : List Char} (h : IsLine (c :: t)) : IsLine t :=
  fun c' hc' => h c' (List.mem_cons_of_mem _ hc')

/-- The end of a line that was written with `\r\n`. -/
lemma universalNewlines_line {line : List Char} (h : IsLine line) (rest : List Char) :
    universalNewlines (line ++ crlf ++ rest) = line ++ '\n' :: universalNewlines rest := by
  induction line with
  | nil => rw [crlf]; simp [universalNewlines]
  | cons c line ih =>
    have hc := (h c List.mem_cons_self).1
    rw [List.cons_append, List.cons_append, universalNewlines, ih h.tail, List.cons_append]
    · rintro t' rfl
      exact absurd rfl hc
    · rintro rfl
      exact absurd rfl hc

/-- The first line of a text. -/
lemma readLines_line {line : List Char} (h : IsLine line) (rest : List Char) :
    readLines (line ++ '\n' :: rest) = (line ++ ['\n']) :: readLines rest := by
  induction line with
  | nil => simp [readLines]
  | cons c line ih =>
    rw [List.cons_append, readLines, if_neg (h c List.mem_cons_self).2, ih h.tail]
    rfl

/-- **The lines of a text that was written line by line** with `\r\n` behind each. -/
theorem readLines_crlf {lines : List (List Char)} (h : ∀ line ∈ lines, IsLine line) :
    readLines (universalNewlines (lines.flatMap (· ++ crlf))) = lines.map (· ++ ['\n']) := by
  induction lines with
  | nil => rfl
  | cons line lines ih =>
    have hline := h line List.mem_cons_self
    rw [List.flatMap_cons, universalNewlines_line hline, readLines_line hline, List.map_cons,
      ih fun line' hline' => h line' (List.mem_cons_of_mem _ hline')]

/-- A text without whitespace is kept. -/
lemma strip_of_forall {t : List Char} (h : ∀ c ∈ t, isSpace c = false) : strip t = t := by
  have hkept {t : List Char} (h : ∀ c ∈ t, isSpace c = false) : t.dropWhile isSpace = t := by
    cases t with
    | nil => rfl
    | cons c t => rw [List.dropWhile_cons_of_neg (by simp [h c List.mem_cons_self])]
  rw [strip, hkept h, hkept fun c hc => h c (List.mem_reverse.mp hc), List.reverse_reverse]

/-- Whitespace is left out up to a character that is none. -/
lemma dropWhile_append_cons {d : Char} (hd : isSpace d = false) (s t : List Char) :
    ∃ s', (s ++ d :: t).dropWhile isSpace = s' ++ d :: t := by
  induction s with
  | nil => exact ⟨[], by rw [List.nil_append, List.dropWhile_cons_of_neg (by simp [hd])]⟩
  | cons x s ih =>
    by_cases hx : isSpace x
    · rwa [List.cons_append, List.dropWhile_cons_of_pos hx]
    · exact ⟨x :: s, by rw [List.cons_append, List.dropWhile_cons_of_neg hx]⟩

/-- **A text is kept up to a character that is no whitespace**, if it does not begin with
whitespace. -/
theorem strip_append_cons {c d : Char} {t : List Char} (hc : isSpace c = false)
    (hd : isSpace d = false) (rest : List Char) :
    ∃ rest', strip (c :: t ++ d :: rest) = c :: t ++ d :: rest' := by
  have hfront : (c :: t ++ d :: rest).dropWhile isSpace = c :: t ++ d :: rest := by
    rw [List.cons_append, List.dropWhile_cons_of_neg (by simp [hc])]
  have hreverse : (c :: t ++ d :: rest).reverse = rest.reverse ++ d :: (c :: t).reverse := by
    simp
  obtain ⟨back, hback⟩ := dropWhile_append_cons hd rest.reverse (c :: t).reverse
  refine ⟨back.reverse, ?_⟩
  rw [strip, hfront, hreverse, hback]
  simp

end TextLines
