import Mathlib.Algebra.GroupWithZero.Nat
import Mathlib.Data.List.Dedup
import Mathlib.Algebra.BigOperators.Group.List.Lemmas

set_option relaxedAutoImplicit false
set_option autoImplicit false

/-!
# The elements of a list by their first appearance

A loop over a list that keeps a set of what it has seen, and looks only at elements that are not in
it, sees each element once, in the order of first appearance.

## Main definitions

* `FirstSeen.firstSeen` — the elements that such a loop looks at.

## Main results

* `FirstSeen.mem_firstSeen`, `FirstSeen.nodup_firstSeen` — each element, once.
* `FirstSeen.pairwise_idxOf` — they come in the order of first appearance.
* `FirstSeen.filter_firstSeen` — looking only at elements with a property.
* `FirstSeen.sum_length_filter` — the elements with how often they appear make up the list.
-/

namespace FirstSeen

variable {α : Type*} [DecidableEq α] {seen l : List α} {a : α}

/-- The elements of a list that have not been seen, each once, in the order of first appearance. -/
def firstSeen (seen : List α) : List α → List α
  | [] => []
  | a :: l => if a ∈ seen then firstSeen seen l else a :: firstSeen (a :: seen) l

lemma firstSeen_cons_of_mem (h : a ∈ seen) (l : List α) :
    firstSeen seen (a :: l) = firstSeen seen l := if_pos h

lemma firstSeen_cons_of_notMem (h : a ∉ seen) (l : List α) :
    firstSeen seen (a :: l) = a :: firstSeen (a :: seen) l := if_neg h

/-- It matters only which elements of the list have been seen. -/
lemma firstSeen_congr {seen' : List α} (h : ∀ a ∈ l, a ∈ seen ↔ a ∈ seen') :
    firstSeen seen l = firstSeen seen' l := by
  induction l generalizing seen seen' with
  | nil => rfl
  | cons b l ih =>
    obtain ⟨hb, hl⟩ := List.forall_mem_cons.mp h
    have hrest : firstSeen (b :: seen) l = firstSeen (b :: seen') l :=
      ih fun a ha => by rw [List.mem_cons, List.mem_cons, hl a ha]
    simp only [firstSeen, ih hl, hrest, hb]

/-- **Which elements are looked at**: those that have not been seen before.

**Proof sketch.** Induction on the list. An element that was seen before is passed over, and cannot
be an `a` that was not; one that was not is taken, and counts as seen for the rest. -/
theorem mem_firstSeen : a ∈ firstSeen seen l ↔ a ∈ l ∧ a ∉ seen := by
  induction l generalizing seen with
  | nil => simp [firstSeen]
  | cons b l ih =>
    by_cases hb : b ∈ seen
    · rw [firstSeen_cons_of_mem hb, ih, List.mem_cons]
      refine and_congr_left fun ha => ?_
      rw [or_iff_right]
      rintro rfl
      exact ha hb
    · rw [firstSeen_cons_of_notMem hb, List.mem_cons, ih, List.mem_cons, List.mem_cons]
      by_cases hab : a = b
      · simp [hab, hb]
      · simp [hab]

/-- **Each of them once.** -/
theorem nodup_firstSeen (seen l : List α) : (firstSeen seen l).Nodup := by
  induction l generalizing seen with
  | nil => exact List.nodup_nil
  | cons b l ih =>
    by_cases hb : b ∈ seen
    · rw [firstSeen_cons_of_mem hb]
      exact ih seen
    · rw [firstSeen_cons_of_notMem hb, List.nodup_cons]
      exact ⟨fun h => (mem_firstSeen.mp h).2 List.mem_cons_self, ih (b :: seen)⟩

/-- **They come in the order of first appearance.**

**Proof sketch.** Induction on the list, for any elements seen before. What is taken behind `c` is
different from `c`, so its first place in `c :: l` is the one after its first place in `l`; and `c`
itself, if it is taken, has the place `0`. -/
theorem pairwise_idxOf [BEq α] [LawfulBEq α] (seen l : List α) :
    (firstSeen seen l).Pairwise fun a b => l.idxOf a < l.idxOf b := by
  induction l generalizing seen with
  | nil => exact List.Pairwise.nil
  | cons c l ih =>
    -- behind `c`, places are counted from the next one on
    have hnext : ∀ seen, c ∈ seen →
        (firstSeen seen l).Pairwise fun a b => (c :: l).idxOf a < (c :: l).idxOf b := by
      intro seen hc
      refine (ih seen).imp_of_mem fun {a b} ha hb hlt => ?_
      have hne : ∀ d ∈ firstSeen seen l, c ≠ d := fun d hd hcd => (mem_firstSeen.mp hd).2 (hcd ▸ hc)
      rw [List.idxOf_cons_ne _ (hne a ha), List.idxOf_cons_ne _ (hne b hb)]
      exact Nat.succ_lt_succ hlt
    by_cases hc : c ∈ seen
    · rw [firstSeen_cons_of_mem hc]
      exact hnext seen hc
    · rw [firstSeen_cons_of_notMem hc, List.pairwise_cons]
      refine ⟨fun d hd => ?_, hnext _ List.mem_cons_self⟩
      have hne : c ≠ d := fun hcd => (mem_firstSeen.mp hd).2 (hcd ▸ List.mem_cons_self)
      rw [List.idxOf_cons_self, List.idxOf_cons_ne _ hne]
      exact Nat.succ_pos _

/-- **Looking only at elements with a property** gives the elements with the property.

**Proof sketch.** Induction on the list, by whether the first element was seen and whether it has
the property. An element without the property is taken on the left only, where it is marked as seen;
by `firstSeen_congr` the mark changes nothing for elements that have the property. -/
theorem filter_firstSeen (p : α → Bool) (seen l : List α) :
    (firstSeen seen l).filter p = firstSeen seen (l.filter p) := by
  induction l generalizing seen with
  | nil => rfl
  | cons b l ih =>
    by_cases hb : b ∈ seen
    · rw [firstSeen_cons_of_mem hb, ih]
      cases hp : p b with
      | true => rw [List.filter_cons_of_pos hp, firstSeen_cons_of_mem hb]
      | false => rw [List.filter_cons_of_neg (by simp [hp])]
    · rw [firstSeen_cons_of_notMem hb]
      cases hp : p b with
      | true =>
        rw [List.filter_cons_of_pos hp, List.filter_cons_of_pos hp, firstSeen_cons_of_notMem hb, ih]
      | false =>
        rw [List.filter_cons_of_neg (by simp [hp]), List.filter_cons_of_neg (by simp [hp]), ih]
        refine firstSeen_congr fun a ha => ?_
        have hne : a ≠ b := fun hab => by simp [hab, hp] at ha
        rw [List.mem_cons, or_iff_right hne]

/-- **The elements with how often they appear** make up the list. -/
theorem sum_length_filter (l : List α) :
    ((firstSeen [] l).map fun a => (l.filter fun b => b = a).length).sum = l.length := by
  have hperm : (firstSeen [] l).Perm l.dedup :=
    (List.perm_ext_iff_of_nodup (nodup_firstSeen [] l) l.nodup_dedup).mpr fun a => by
      rw [mem_firstSeen, List.mem_dedup, and_iff_left List.not_mem_nil]
  have hcount : (fun a => (l.filter fun b => b = a).length) = l.count := funext fun a => by
    rw [List.count_eq_length_filter]
    rfl
  rw [hcount, (hperm.map _).sum_eq, List.sum_map_count_dedup_eq_length]

end FirstSeen
