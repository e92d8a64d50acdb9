import Mathlib.Data.List.DropRight

set_option relaxedAutoImplicit false
set_option autoImplicit false

/-!
# Slices counted from the end of a list

A source of time series answers requests that count from the newest element: `slice l start n`
is the part of `l` that ends `start` elements before its end and holds `n` elements, or what
there is. Adjacent slices concatenate, which is what makes paging from the newest element
backwards exact.

## Main definitions

* `Window.slice` — the slice of `n` elements that ends `start` elements before the end.
* `Window.pages` — the adjacent slices that a reader asks for, newest first.
* `Window.assemble` — the pages joined in the order of the list.
* `Window.newestPages` — the pages behind each other, newest first.

## Main results

* `Window.slice_append` — the older page of two adjacent ones, followed by the newer one, is one
  slice.
* `Window.rdrop_append_slice` — all that is older than a slice, followed by the slice.
* `Window.assemble_slice` — the joined pages are the slice that they cover.
* `Window.assemble_eq_iff` — joined pages are the same exactly when the pages are.
* `Window.newestPages_perm`, `Window.newestPages_eq_iff` — the pages newest first.
-/

namespace Window

variable {α : Type*}

/-- The part of `l` that ends `start` elements before its end and holds `n` elements, or as many
as there are. -/
def slice (l : List α) (start n : ℕ) : List α := (l.rdrop start).rtake n

@[simp] lemma length_rdrop (l : List α) (n : ℕ) : (l.rdrop n).length = l.length - n := by
  simp [List.rdrop]

@[simp] lemma length_rtake (l : List α) (n : ℕ) : (l.rtake n).length = min n l.length := by
  simp only [List.rtake, List.length_drop]
  omega

@[simp] lemma length_slice (l : List α) (start n : ℕ) :
    (slice l start n).length = min n (l.length - start) := by
  simp [slice]

/-- Elements dropped from the end in two steps. -/
lemma rdrop_rdrop (l : List α) (m n : ℕ) : (l.rdrop m).rdrop n = l.rdrop (m + n) := by
  simp only [List.rdrop, List.length_take, List.take_take]
  congr 1
  omega

/-- A list is what is dropped from its end after the rest. -/
lemma rdrop_append_rtake (l : List α) (n : ℕ) : l.rdrop n ++ l.rtake n = l :=
  List.take_append_drop _ l

/-- All that is older than a slice, followed by the slice. -/
theorem rdrop_append_slice (l : List α) (start n : ℕ) :
    l.rdrop (start + n) ++ slice l start n = l.rdrop start := by
  rw [← rdrop_rdrop]
  exact rdrop_append_rtake _ n

/-- **Adjacent slices concatenate**: the older one first, then the newer one. -/
theorem slice_append (l : List α) (start n m : ℕ) :
    slice l (start + n) m ++ slice l start n = slice l start (n + m) := by
  have hold := rdrop_append_slice l (start + n) m
  have hnew := rdrop_append_slice l start n
  have hboth := rdrop_append_slice l start (n + m)
  rw [← hold, List.append_assoc, ← hboth, Nat.add_assoc] at hnew
  exact List.append_cancel_left hnew

/-- A slice that asks for at least what there is holds all of it. -/
lemma slice_of_le {l : List α} {start n : ℕ} (h : l.length - start ≤ n) :
    slice l start n = l.rdrop start := by
  simp only [slice, List.rtake, length_rdrop, Nat.sub_eq_zero_of_le h, List.drop_zero]

/-- The newest slice. -/
@[simp] lemma slice_zero (l : List α) (n : ℕ) : slice l 0 n = l.rtake n := by
  simp [slice]

/-- Nothing is older than the whole list. -/
lemma rdrop_of_le {l : List α} {n : ℕ} (h : l.length ≤ n) : l.rdrop n = [] :=
  List.length_eq_zero_iff.mp (by simp [h])

/-- The newest elements are all there are, when at least as many are asked for. -/
lemma rtake_of_le {l : List α} {n : ℕ} (h : l.length ≤ n) : l.rtake n = l := by
  simp only [List.rtake, Nat.sub_eq_zero_of_le h, List.drop_zero]

/-- A slice keeps the order of the list. -/
lemma slice_sublist (l : List α) (start n : ℕ) : (slice l start n).Sublist l :=
  (List.drop_sublist _ _).trans (List.take_sublist _ _)

/-- A slice of the images of the elements. -/
lemma slice_map {β : Type*} (f : α → β) (l : List α) (start n : ℕ) :
    slice (l.map f) start n = (slice l start n).map f := by
  simp [slice, List.rdrop, List.rtake, List.map_drop, List.map_take]

/-- A slice is empty exactly when nothing is asked for or nothing is there. -/
lemma slice_eq_nil_iff {l : List α} {start n : ℕ} :
    slice l start n = [] ↔ n = 0 ∨ l.length ≤ start := by
  rw [← List.length_eq_zero_iff, length_slice]
  omega

/-- The first element of a slice that is all there. -/
lemma getElem?_slice_zero {l : List α} {start n : ℕ} (hn : 0 < n) (h : start + n ≤ l.length) :
    (slice l start n)[0]? = l[l.length - (start + n)]? := by
  simp only [slice, List.rtake, List.rdrop, List.getElem?_drop, List.length_take]
  rw [List.getElem?_take_of_lt (by omega)]
  congr 1
  omega

/-! ## Paging -/

/-- The requests of a reader that asks for `remaining` elements from `start` on in pages of at
most `size`, newest page first: where each page ends and how many elements it asks for. -/
def pages (size start remaining : ℕ) : List (ℕ × ℕ) :=
  if 0 < remaining ∧ 0 < size then
    (start, min remaining size) ::
      pages size (start + min remaining size) (remaining - min remaining size)
  else []
termination_by remaining
decreasing_by omega

/-- The pages `P start n` of the given requests, joined so that older pages come first. -/
def assemble {β : Type*} (P : ℕ → ℕ → List β) (requests : List (ℕ × ℕ)) : List β :=
  (requests.reverse.map fun r => P r.1 r.2).flatten

/-- Nothing is asked for. -/
@[simp] lemma pages_zero (size start : ℕ) : pages size start 0 = [] := by
  rw [pages, if_neg (by omega)]

/-- The first request, and those for what is left. -/
lemma pages_of_pos {size remaining : ℕ} (hsize : 0 < size) (hr : 0 < remaining) (start : ℕ) :
    pages size start remaining = (start, min remaining size) ::
      pages size (start + min remaining size) (remaining - min remaining size) := by
  rw [pages, if_pos ⟨hr, hsize⟩]

@[simp] lemma assemble_nil {β : Type*} (P : ℕ → ℕ → List β) : assemble P [] = [] := rfl

/-- The newest page comes last. -/
@[simp] lemma assemble_cons {β : Type*} (P : ℕ → ℕ → List β) (r : ℕ × ℕ)
    (requests : List (ℕ × ℕ)) :
    assemble P (r :: requests) = assemble P requests ++ P r.1 r.2 := by
  simp [assemble]

/-- **The joined pages are the slice that they cover.** -/
theorem assemble_slice (l : List α) {size : ℕ} (hsize : 0 < size) (start remaining : ℕ) :
    assemble (slice l) (pages size start remaining) = slice l start remaining := by
  induction remaining using Nat.strong_induction_on generalizing start with
  | h remaining ih =>
    rcases Nat.eq_zero_or_pos remaining with rfl | hr
    · simp [slice]
    · rw [pages_of_pos hsize hr, assemble_cons, ih _ (by omega), slice_append]
      congr 1
      omega

/-- A page lies inside what is asked for.

**Proof sketch.** By induction on what is asked for: the first page begins at the start, and the
others lie in what remains behind it. -/
lemma mem_pages {size start remaining : ℕ} {r : ℕ × ℕ} (h : r ∈ pages size start remaining) :
    start ≤ r.1 ∧ 0 < r.2 ∧ r.2 ≤ size ∧ r.1 + r.2 ≤ start + remaining := by
  induction remaining using Nat.strong_induction_on generalizing start with
  | h remaining ih =>
    rw [pages] at h
    split at h
    · rename_i hpos
      rcases List.mem_cons.mp h with rfl | h
      · simp only
        omega
      · have := ih _ (by omega) h
        omega
    · exact absurd h List.not_mem_nil

/-- A reader that finds a page past the end of the data finds all later ones empty too. -/
lemma assemble_eq_nil {β : Type*} {P : ℕ → ℕ → List β} {size start remaining : ℕ}
    (h : ∀ o n, start ≤ o → n ≤ size → P o n = []) :
    assemble P (pages size start remaining) = [] := by
  simp only [assemble, List.flatten_eq_nil_iff, List.mem_map, List.mem_reverse]
  rintro l ⟨r, hr, rfl⟩
  exact h _ _ (mem_pages hr).1 (mem_pages hr).2.2.1

/-- Pages that are changed element by element join to the changed list. -/
lemma assemble_map {β γ : Type*} (f : β → γ) (P : ℕ → ℕ → List β) (requests : List (ℕ × ℕ)) :
    assemble (fun o n => (P o n).map f) requests = (assemble P requests).map f := by
  induction requests with
  | nil => rfl
  | cons r requests ih => rw [assemble_cons, assemble_cons, ih, List.map_append]

/-- The pages behind each other, newest first, are the joined pages in a mirror. -/
lemma reverse_assemble {β : Type*} (P : ℕ → ℕ → List β) (requests : List (ℕ × ℕ)) :
    (assemble (fun o n => (P o n).reverse) requests).reverse =
      requests.flatMap fun r => P r.1 r.2 := by
  induction requests with
  | nil => rfl
  | cons r requests ih =>
    rw [assemble_cons, List.reverse_append, List.reverse_reverse, ih, List.flatMap_cons]

/-- **Joined pages are the same exactly when the pages are**, if they have the same lengths. -/
theorem assemble_eq_iff {β : Type*} {P Q : ℕ → ℕ → List β}
    (hlen : ∀ o n, (P o n).length = (Q o n).length) (requests : List (ℕ × ℕ)) :
    assemble P requests = assemble Q requests ↔ ∀ r ∈ requests, P r.1 r.2 = Q r.1 r.2 := by
  induction requests with
  | nil => simp
  | cons r requests ih =>
    rw [assemble_cons, assemble_cons, List.forall_mem_cons, ← ih]
    constructor
    · intro h
      obtain ⟨hold, hnew⟩ := List.append_inj' h (hlen r.1 r.2)
      exact ⟨hnew, hold⟩
    · rintro ⟨hnew, hold⟩
      rw [hnew, hold]

/-! ## Pages newest first -/

/-- The newest elements as a reader has them that puts every page behind the newer ones. -/
def newestPages (size : ℕ) (l : List α) (count : ℕ) : List α :=
  (pages size 0 count).flatMap fun r => slice l r.1 r.2

/-- Pages past the end of the data are empty. -/
lemma flatMap_pages_eq_nil {l : List α} {size start remaining : ℕ} (h : l.length ≤ start) :
    ((pages size start remaining).flatMap fun r => slice l r.1 r.2) = [] := by
  refine List.flatMap_eq_nil_iff.mpr fun r hr => slice_eq_nil_iff.mpr (.inr ?_)
  exact h.trans (mem_pages hr).1

/-- The pages of a rest that is shorter than a page. -/
lemma flatMap_pages_short {size start : ℕ} {l : List α} (h : l.length - start < size) :
    ((pages size start (l.length - start)).flatMap fun r => slice l r.1 r.2) =
      slice l start size := by
  rcases Nat.eq_zero_or_pos (l.length - start) with hzero | hpos
  · rw [hzero, pages_zero, List.flatMap_nil, slice_of_le (by omega), rdrop_of_le (by omega)]
  · rw [pages_of_pos (by omega) hpos, Nat.min_eq_left h.le, Nat.sub_self, pages_zero,
      List.flatMap_cons, List.flatMap_nil, List.append_nil, slice_of_le le_rfl, slice_of_le h.le]

/-- The elements of one page are in order. -/
lemma newestPages_of_le {size : ℕ} (hsize : 0 < size) {l : List α} {count : ℕ}
    (h : count ≤ size ∨ l.length ≤ size) : newestPages size l count = l.rtake count := by
  unfold newestPages
  rcases Nat.eq_zero_or_pos count with rfl | hpos
  · simp [List.rtake]
  · rw [pages_of_pos hsize hpos, List.flatMap_cons, slice_zero]
    rcases le_or_gt count size with hcount | hcount
    · rw [Nat.min_eq_left hcount, Nat.sub_self, pages_zero, List.flatMap_nil, List.append_nil]
    · have hl : l.length ≤ size := by omega
      rw [Nat.min_eq_right hcount.le, flatMap_pages_eq_nil (by omega), List.append_nil,
        rtake_of_le hl, rtake_of_le (hl.trans hcount.le)]

/-- The first element is then the first one of the newest page. -/
lemma getElem?_newestPages_zero {size : ℕ} (hsize : 0 < size) {l : List α} {count : ℕ}
    (hcount : size ≤ count) (hl : size ≤ l.length) :
    (newestPages size l count)[0]? = l[l.length - size]? := by
  have hslice := getElem?_slice_zero hsize (by omega : 0 + size ≤ l.length)
  have hlen : (slice l 0 size).length = size := by
    rw [length_slice]
    omega
  rw [newestPages, pages_of_pos hsize (by omega), Nat.min_eq_right hcount, List.flatMap_cons,
    List.getElem?_append_left (hlen.symm ▸ hsize), hslice, Nat.zero_add]

/-- Page by page, every element asked for is there once. -/
theorem newestPages_perm {size : ℕ} (hsize : 0 < size) (l : List α) (count : ℕ) :
    (newestPages size l count).Perm (l.rtake count) := by
  rw [← slice_zero, ← assemble_slice l hsize, assemble, newestPages, List.flatMap]
  exact ((List.reverse_perm _).symm.map _).flatten

/-- **Pages newest first are in order only when there is one of them**, in a list that is ascending
for an irreflexive relation.

**Proof sketch.** With two pages the first element is that of the newest page, which stands in the
list behind the oldest element asked for. -/
theorem newestPages_eq_iff {R : α → α → Prop} (hirrefl : ∀ a, ¬ R a a) {size : ℕ}
    (hsize : 0 < size) {l : List α} (hl : l.Pairwise R) (count : ℕ) :
    newestPages size l count = l.rtake count ↔ count ≤ size ∨ l.length ≤ size := by
  refine ⟨fun heq => ?_, newestPages_of_le hsize⟩
  by_contra hmore
  have hcount : size < count := by omega
  have hlen : size < l.length := by omega
  have hfirst := getElem?_newestPages_zero hsize hcount.le hlen.le
  have holdest : (l.rtake count)[0]? = l[l.length - count]? := by
    rw [List.rtake, List.getElem?_drop, Nat.add_zero]
  rw [heq, holdest, List.getElem?_eq_getElem (by omega), List.getElem?_eq_getElem (by omega)]
    at hfirst
  have hbefore := List.pairwise_iff_getElem.mp hl (l.length - count) (l.length - size) (by omega)
    (by omega) (by omega)
  rw [Option.some.inj hfirst] at hbefore
  exact hirrefl _ hbefore

end Window
