import Mathlib.Data.List.Infix
import Mathlib.Data.Nat.Notation

set_option relaxedAutoImplicit false
set_option autoImplicit false

/-!
# Putting a list together from pieces

A list that is fetched in pieces is put together again by writing the pieces one after the other.
A piece is right where it stands if it is what the whole has at that position. The pieces together
are right exactly if each of them is, at the position where it has come to stand; and if none of
them is longer than it was asked to be, this means that none is shorter.

## Main definitions

* `Pieces.At` — a piece is what the whole has at a position.
* `Pieces.Landed` — pieces one after the other are.
* `Pieces.Piece`, `Pieces.Planned` — pieces with where they were asked from and how long.

## Main results

* `Pieces.at_flatten_iff` — pieces are put together rightly if each has landed rightly.
* `Pieces.landed_iff_full` — pieces of at most the planned length land rightly if they are full.
-/

namespace Pieces

variable {α : Type*} {whole piece a b : List α} {pos : ℕ}

/-- The piece is what the whole has at the position. -/
def At (whole : List α) (pos : ℕ) (piece : List α) : Prop := piece <+: whole.drop pos

instance [DecidableEq α] (whole : List α) (pos : ℕ) (piece : List α) :
    Decidable (At whole pos piece) := inferInstanceAs (Decidable (_ <+: _))

/-- The pieces, written one after the other from the position on, are each what the whole has
there. -/
def Landed (whole : List α) : ℕ → List (List α) → Prop
  | _, [] => True
  | pos, p :: ps => At whole pos p ∧ Landed whole (pos + p.length) ps

lemma at_nil (whole : List α) (pos : ℕ) : At whole pos [] := List.nil_prefix

/-- A piece behind another one. -/
lemma at_append_iff : At whole pos (a ++ b) ↔ At whole pos a ∧ At whole (pos + a.length) b := by
  unfold At
  rw [← List.drop_drop]
  constructor
  · rintro ⟨rest, hrest⟩
    rw [← hrest, List.append_assoc, List.drop_left]
    exact ⟨List.prefix_append _ _, List.prefix_append _ _⟩
  · rintro ⟨⟨rest, hrest⟩, hb⟩
    rw [← hrest, List.drop_left] at hb
    rw [← hrest]
    exact (List.prefix_append_right_inj a).mpr hb

/-- **Pieces are put together rightly** exactly if each of them has landed rightly. -/
theorem at_flatten_iff (pieces : List (List α)) :
    At whole pos pieces.flatten ↔ Landed whole pos pieces := by
  induction pieces generalizing pos with
  | nil => exact iff_of_true (at_nil whole pos) trivial
  | cons p ps ih => rw [List.flatten_cons, at_append_iff, ih, Landed]

/-- A piece is inside the whole. -/
lemma At.length_le (h : At whole pos piece) (hpos : pos ≤ whole.length) :
    pos + piece.length ≤ whole.length := by
  have hlen := List.IsPrefix.length_le h
  rw [List.length_drop] at hlen
  omega

/-- What the whole has where a piece stands. -/
lemma At.take_drop (h : At whole pos piece) : (whole.drop pos).take piece.length = piece :=
  (List.prefix_iff_eq_take.mp h).symm

/-- Each of the pieces of one length that stand one after the other.

**Proof sketch.** By induction on the list: behind the first piece the others stand one width
further. -/
lemma At.getElem_flatMap {β : Type*} {f : β → List α} {w : ℕ} (hw : ∀ b, (f b).length = w)
    {l : List β} (h : At whole pos (l.flatMap f)) {i : ℕ} (hi : i < l.length) :
    At whole (pos + i * w) (f l[i]) := by
  induction l generalizing pos i with
  | nil => exact absurd hi (Nat.not_lt_zero i)
  | cons b l ih =>
    obtain ⟨hfirst, hrest⟩ := at_append_iff.mp h
    cases i with
    | zero => rwa [Nat.zero_mul]
    | succ i =>
      rw [hw] at hrest
      have hi : i < l.length := Nat.lt_of_succ_lt_succ hi
      rw [Nat.succ_mul, Nat.add_comm (i * w), ← Nat.add_assoc]
      exact ih hrest hi

/-- A piece of the length of the whole. -/
lemma At.eq_whole (h : At whole 0 piece) (hlen : piece.length = whole.length) : piece = whole :=
  List.IsPrefix.eq_of_length h hlen

/-- The whole has the piece at its beginning. -/
lemma at_zero_iff : At whole 0 piece ↔ ∀ i < piece.length, piece[i]? = whole[i]? := by
  unfold At
  rw [List.drop_zero, List.prefix_iff_getElem?]
  refine forall_congr' fun i => forall_congr' fun hi => ?_
  rw [List.getElem?_eq_getElem hi]
  exact eq_comm

/-! ## Pieces as they were asked for -/

/-- A piece, with the position that it was asked from and the length that was asked for. -/
structure Piece (α : Type*) where
  start : ℕ
  size : ℕ
  data : List α
deriving DecidableEq

/-- Each piece was asked from where the one before was to end; the last one ends at `last`. -/
def Planned : ℕ → List (Piece α) → ℕ → Prop
  | pos, [], last => pos = last
  | pos, p :: ps, last => p.start = pos ∧ Planned (pos + p.size) ps last

/-- What has been put together. -/
def together (ps : List (Piece α)) : List α := (ps.map Piece.data).flatten

@[simp] lemma together_cons (p : Piece α) (ps : List (Piece α)) :
    together (p :: ps) = p.data ++ together ps := rfl

/-- Pieces that are not longer than planned do not reach farther. -/
lemma length_together_le {ps : List (Piece α)} {last : ℕ} (hplan : Planned pos ps last)
    (hshort : ∀ p ∈ ps, p.data.length ≤ p.size) : pos + (together ps).length ≤ last := by
  induction ps generalizing pos with
  | nil => exact hplan.le
  | cons p ps ih =>
    have hp := hshort p List.mem_cons_self
    have hrest := ih hplan.2 fun q hq => hshort q (List.mem_cons_of_mem _ hq)
    rw [together_cons, List.length_append]
    omega

/-- **Pieces that are not longer than planned land rightly** and make up the planned length exactly
if each of them has its planned length.

**Proof sketch.** If one were shorter, the others could not make up for it. If all are full, each
lands where it was asked from. -/
theorem landed_iff_full {ps : List (Piece α)} {last : ℕ} (hplan : Planned pos ps last)
    (hat : ∀ p ∈ ps, At whole p.start p.data) (hshort : ∀ p ∈ ps, p.data.length ≤ p.size) :
    (pos + (together ps).length = last ∧ Landed whole pos (ps.map Piece.data)) ↔
      ∀ p ∈ ps, p.data.length = p.size := by
  induction ps generalizing pos with
  | nil => exact iff_of_true ⟨hplan, trivial⟩ fun p hp => absurd hp List.not_mem_nil
  | cons p ps ih =>
    have hp := hshort p List.mem_cons_self
    have hrest := length_together_le hplan.2 fun q hq => hshort q (List.mem_cons_of_mem _ hq)
    have hih := ih hplan.2 (fun q hq => hat q (List.mem_cons_of_mem _ hq))
      fun q hq => hshort q (List.mem_cons_of_mem _ hq)
    have hfirst : At whole pos p.data := hplan.1 ▸ hat p List.mem_cons_self
    rw [together_cons, List.length_append, List.map_cons, Landed, List.forall_mem_cons]
    constructor
    · rintro ⟨hlen, -, hlanded⟩
      have hfull : p.data.length = p.size := by omega
      rw [hfull] at hlanded
      exact ⟨hfull, hih.mp ⟨by omega, hlanded⟩⟩
    · rintro ⟨hfull, hall⟩
      obtain ⟨hlen, hlanded⟩ := hih.mpr hall
      rw [hfull]
      exact ⟨by omega, hfirst, hlanded⟩

end Pieces
