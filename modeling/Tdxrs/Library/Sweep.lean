import Mathlib.Algebra.BigOperators.Group.List.Basic

set_option relaxedAutoImplicit false
set_option autoImplicit false

/-!
# Two-pointer sweeps over sorted lists

A sweep walks along a list of points with a pointer into a list of events: at each point it
takes the events that have come due, one after the other, and multiplies their weights onto a
running product. Each event is looked at once. When the events come due in their order, and an
event that is due at a point is due at all later points, the running product at a point is the
product over all events due there.

## Main definitions

* `Sweep.advance` — the events due at a point are taken.
* `Sweep.sweep` — the points with their running products.
* `Sweep.after` — the events and the product that a sweep leaves.

## Main results

* `Sweep.sweep_eq` — the running product at a point is the product over the events due there.
* `Sweep.sweep_append` — a sweep over points in two parts.
* `Sweep.sweep_append_of_due` — points in front whose events are due at all later points do not
  matter for these.
-/

namespace Sweep

variable {α ε M : Type*}

/-- On a list in which the elements with `p` come first, taking while `p` holds filters by
`p`. -/
lemma takeWhile_eq_filter {p : α → Bool} {l : List α}
    (h : l.Pairwise fun x y => p y → p x) : l.takeWhile p = l.filter p := by
  induction l with
  | nil => rfl
  | cons a l ih =>
    obtain ⟨ha, hl⟩ := List.pairwise_cons.mp h
    by_cases hp : p a
    · rw [List.takeWhile_cons_of_pos hp, List.filter_cons_of_pos hp, ih hl]
    · have hnone : l.filter p = [] :=
        List.filter_eq_nil_iff.mpr fun x hx hpx => hp (ha x hx hpx)
      rw [List.takeWhile_cons_of_neg hp, List.filter_cons_of_neg hp, hnone]

variable [Monoid M]

/-- The events that are due are taken and their weights multiplied onto the product. -/
def advance (due : ε → Bool) (weight : ε → M) : List ε → M → List ε × M
  | [], c => ([], c)
  | e :: es, c => if due e then advance due weight es (c * weight e) else (e :: es, c)

/-- The points, each with the running product once the events due there are taken. -/
def sweep (due : α → ε → Bool) (weight : ε → M) : List α → List ε → M → List (α × M)
  | [], _, _ => []
  | a :: as, es, c =>
    let taken := advance (due a) weight es c
    (a, taken.2) :: sweep due weight as taken.1 taken.2

/-- What `advance` leaves and what it has multiplied. -/
lemma advance_eq (due : ε → Bool) (weight : ε → M) (es : List ε) (c : M) :
    advance due weight es c =
      (es.dropWhile due, c * ((es.takeWhile due).map weight).prod) := by
  induction es generalizing c with
  | nil => simp [advance]
  | cons e es ih =>
    by_cases he : due e
    · simp only [advance, if_pos he, ih, List.dropWhile_cons_of_pos he,
        List.takeWhile_cons_of_pos he, List.map_cons, List.prod_cons, mul_assoc]
    · simp [advance, he]

/-- **The running product of a sweep** is, at each point, the product over the events due there.
The events come due in their order, and what is due stays due.

**Proof sketch.** Induction on the points. At the first one the events due form a prefix, which
is taken; they are due at every later point too, so there the product over the events due splits
into this prefix and the rest of the list. -/
theorem sweep_eq {due : α → ε → Bool} (weight : ε → M) {as : List α} {es : List ε}
    (hes : ∀ a, es.Pairwise fun e e' => due a e' → due a e)
    (has : as.Pairwise fun a a' => ∀ e, due a e → due a' e) (c : M) :
    sweep due weight as es c =
      as.map fun a => (a, c * ((es.filter (due a)).map weight).prod) := by
  induction as generalizing es c with
  | nil => rfl
  | cons a as ih =>
    obtain ⟨ha, has⟩ := List.pairwise_cons.mp has
    have hrest : ∀ b, (es.dropWhile (due a)).Pairwise fun e e' => due b e' → due b e :=
      fun b => (hes b).sublist (List.dropWhile_sublist _)
    have hsplit : ∀ b ∈ as, es.filter (due b) =
        es.takeWhile (due a) ++ (es.dropWhile (due a)).filter (due b) := by
      intro b hb
      conv_lhs => rw [← List.takeWhile_append_dropWhile (p := due a) (l := es)]
      rw [List.filter_append]
      congr 1
      refine List.filter_eq_self.mpr fun e he => ha b hb e ?_
      rw [takeWhile_eq_filter (hes a)] at he
      exact (List.mem_filter.mp he).2
    simp only [sweep, advance_eq, ih hrest has, List.map_cons]
    congr 1
    · rw [takeWhile_eq_filter (hes a)]
    · refine List.map_congr_left fun b hb => ?_
      rw [hsplit b hb, List.map_append, List.prod_append, mul_assoc]

/-- Events that weigh nothing leave the product as it is. -/
lemma sweep_of_weight_one {due : α → ε → Bool} {weight : ε → M} (h : ∀ e, weight e = 1)
    (as : List α) (es : List ε) (c : M) :
    sweep due weight as es c = as.map fun a => (a, c) := by
  induction as generalizing es with
  | nil => rfl
  | cons a as ih =>
    have hprod : ((es.takeWhile (due a)).map weight).prod = 1 := by
      refine List.prod_eq_one fun w hw => ?_
      obtain ⟨e, -, rfl⟩ := List.mem_map.mp hw
      exact h e
    simp only [sweep, advance_eq, hprod, mul_one, ih, List.map_cons]

/-! ## Points in two parts -/

/-- The events that are left after the points, and the product of those taken. -/
def after (due : α → ε → Bool) (weight : ε → M) : List α → List ε → M → List ε × M
  | [], es, c => (es, c)
  | a :: as, es, c =>
    let taken := advance (due a) weight es c
    after due weight as taken.1 taken.2

/-- A sweep has a product for every point. -/
@[simp] lemma length_sweep (due : α → ε → Bool) (weight : ε → M) (as : List α) (es : List ε)
    (c : M) : (sweep due weight as es c).length = as.length := by
  induction as generalizing es c with
  | nil => rfl
  | cons a as ih => simp [sweep, ih]

/-- **A sweep over points in two parts** goes on where the first part has left it. -/
theorem sweep_append (due : α → ε → Bool) (weight : ε → M) (as bs : List α) (es : List ε) (c : M) :
    sweep due weight (as ++ bs) es c =
      sweep due weight as es c ++
        sweep due weight bs (after due weight as es c).1 (after due weight as es c).2 := by
  induction as generalizing es c with
  | nil => rfl
  | cons a as ih => simp only [List.cons_append, sweep, after, ih]

/-- Events that are due are taken first, whatever stands behind them. -/
lemma advance_append {due : ε → Bool} (weight : ε → M) {taken : List ε} (h : ∀ e ∈ taken, due e)
    (es : List ε) (c : M) :
    advance due weight (taken ++ es) c =
      advance due weight es (c * (taken.map weight).prod) := by
  induction taken generalizing c with
  | nil => simp
  | cons e taken ih =>
    rw [List.cons_append, advance, if_pos (h e List.mem_cons_self),
      ih fun e' he' => h e' (List.mem_cons_of_mem _ he'), List.map_cons, List.prod_cons, mul_assoc]

/-- Events that are due at all points may be taken before the sweep. -/
lemma sweep_taken {due : α → ε → Bool} (weight : ε → M) {bs : List α} {taken : List ε}
    (h : ∀ e ∈ taken, ∀ b ∈ bs, due b e) (es : List ε) (c : M) :
    sweep due weight bs (taken ++ es) c =
      sweep due weight bs es (c * (taken.map weight).prod) := by
  cases bs with
  | nil => rfl
  | cons b bs =>
    simp only [sweep, advance_append weight fun e he => h e he b List.mem_cons_self]

/-- What the points take is a prefix of the events, and each of these is due at one of them.

**Proof sketch.** Induction on the points. The first point takes the events that are due at it,
which `takeWhile` splits off; the other points take from the rest, and the two products multiply. -/
lemma after_eq (due : α → ε → Bool) (weight : ε → M) (as : List α) (es : List ε) (c : M) :
    ∃ taken rest, es = taken ++ rest ∧ (∀ e ∈ taken, ∃ a ∈ as, due a e) ∧
      after due weight as es c = (rest, c * (taken.map weight).prod) := by
  induction as generalizing es c with
  | nil => exact ⟨[], es, rfl, fun e he => absurd he List.not_mem_nil, by simp [after]⟩
  | cons a as ih =>
    obtain ⟨taken, rest, hes, hdue, hafter⟩ := ih (es.dropWhile (due a))
      (c * ((es.takeWhile (due a)).map weight).prod)
    refine ⟨es.takeWhile (due a) ++ taken, rest, ?_, ?_, ?_⟩
    · rw [List.append_assoc, ← hes, List.takeWhile_append_dropWhile]
    · intro e he
      rcases List.mem_append.mp he with he | he
      · exact ⟨a, List.mem_cons_self, List.all_eq_true.mp List.all_takeWhile e he⟩
      · obtain ⟨b, hb, hbe⟩ := hdue e he
        exact ⟨b, List.mem_cons_of_mem _ hb, hbe⟩
    · rw [after, advance_eq, hafter, List.map_append, List.prod_append, mul_assoc]

/-- **Points in front do not matter** for points at which all their events are due: the sweep over
the latter is as if it began with them. -/
theorem sweep_append_of_due {due : α → ε → Bool} (weight : ε → M) {as bs : List α}
    (h : ∀ a ∈ as, ∀ e, due a e → ∀ b ∈ bs, due b e) (es : List ε) (c : M) :
    sweep due weight (as ++ bs) es c =
      sweep due weight as es c ++ sweep due weight bs es c := by
  obtain ⟨taken, rest, rfl, hdue, hafter⟩ := after_eq due weight as es c
  have htaken : ∀ e ∈ taken, ∀ b ∈ bs, due b e := by
    intro e he
    obtain ⟨a, ha, hae⟩ := hdue e he
    exact h a ha e hae
  rw [sweep_append, hafter, sweep_taken weight htaken]

end Sweep
