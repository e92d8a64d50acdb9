import Mathlib.Data.List.Basic
import Mathlib.Tactic.ByContra

set_option relaxedAutoImplicit false
set_option autoImplicit false

/-!
# Computations that can fault

A program that is run with checks is a computation in `Except`: it faults, or gives its result. Run
without checks it always gives a result. The relation `Checked.Runs` compares the two: the program
with checks does not fault exactly under a condition, and then it gives the result of the program
without checks. The rules follow the monadic operations, so that the condition of a program is put
together from those of its steps.

## Main definitions

* `Checked.Runs` — the relation.
* `Checked.retainM`, `Checked.SearchOk` — the loops over lists.

## Main results

* `Checked.Runs.bind` — the condition of a sequence is that of both parts.
* `Checked.Runs.anyM`, `Checked.Runs.retainM` — the conditions of the loops.
* `Checked.Runs.safe_iff` — the program with checks does not fault exactly under the condition.
-/

namespace Checked

universe u v

variable {ε : Type v} {α β : Type u}

/-- The computation does not fault exactly if `P` holds, and then it gives `w`. -/
structure Runs (c : Except ε α) (w : α) (P : Prop) : Prop where
  ok : P → c = .ok w
  fault : ¬ P → ∃ e, c = .error e

namespace Runs

/-- A result needs no condition. -/
lemma pure (w : α) : Runs (.ok w : Except ε α) w True := ⟨fun _ => rfl, fun h => absurd trivial h⟩

/-- The condition may be stated in another way. -/
lemma of_iff {c : Except ε α} {w : α} {P Q : Prop} (hc : Runs c w P) (h : P ↔ Q) : Runs c w Q :=
  ⟨fun hQ => hc.ok (h.mpr hQ), fun hQ => hc.fault fun hP => hQ (h.mp hP)⟩

/-- **Sequences.** The second part is run on the result of the first, and the condition is that of
both.

**Proof sketch.** If the first part runs, then the outcome is that of the second; if it faults, then
so does the sequence. -/
lemma bind {c : Except ε α} {f : α → Except ε β} {w : α} {w' : β} {P Q : Prop}
    (hc : Runs c w P) (hf : Runs (f w) w' Q) : Runs (c >>= f) w' (P ∧ Q) := by
  constructor
  · rintro ⟨hP, hQ⟩
    rw [hc.ok hP]
    exact hf.ok hQ
  · intro hnot
    by_cases hP : P
    · rw [hc.ok hP]
      exact hf.fault fun hQ => hnot ⟨hP, hQ⟩
    · obtain ⟨e, he⟩ := hc.fault hP
      rw [he]
      exact ⟨e, rfl⟩

/-- A result that is changed afterwards. -/
lemma map {c : Except ε α} {w : α} {P : Prop} (hc : Runs c w P) (g : α → β) :
    Runs (c >>= fun v => .ok (g v)) (g w) P :=
  (hc.bind (pure (g w))).of_iff (and_iff_left trivial)

/-- A check that faults unless its condition holds. -/
lemma check {P : Prop} [Decidable P] (w : α) (e : ε) :
    Runs (if P then .ok w else .error e) w P :=
  ⟨fun hP => if_pos hP, fun hP => ⟨e, if_neg hP⟩⟩

/-- A computation that is only run where a test fails. -/
lemma of_not {c : Except ε α} {v w : α} {P Q : Prop} [Decidable Q] (hc : Runs c w P) :
    Runs (if Q then .ok v else c) (if Q then v else w) (¬ Q → P) := by
  by_cases hQ : Q
  · rw [if_pos hQ, if_pos hQ]
    exact (pure v).of_iff (iff_of_true trivial fun h => absurd hQ h)
  · rw [if_neg hQ, if_neg hQ]
    exact hc.of_iff ⟨fun hP _ => hP, fun h => h hQ⟩

/-- What the program with checks gives is what the program without checks gives. -/
lemma eq_of_ok {c : Except ε α} {v w : α} {P : Prop} (hc : Runs c w P)
    (hv : c = .ok v) : w = v := by
  by_cases hP : P
  · exact Except.ok.inj ((hc.ok hP).symm.trans hv)
  · obtain ⟨e, he⟩ := hc.fault hP
    exact nomatch he.symm.trans hv

/-- **The condition is exact.** -/
lemma safe_iff {c : Except ε α} {w : α} {P : Prop} (hc : Runs c w P) : (∃ v, c = .ok v) ↔ P := by
  constructor
  · rintro ⟨v, hv⟩
    by_contra hP
    obtain ⟨e, he⟩ := hc.fault hP
    exact nomatch hv.symm.trans he
  · exact fun hP => ⟨w, hc.ok hP⟩

end Runs

/-! ## Loops over lists -/

/-- The loop that keeps the elements which pass a test. -/
def retainM {γ : Type} {m : Type → Type} [Monad m] (test : γ → m Bool) : List γ → m (List γ)
  | [] => pure []
  | a :: l => do
    let keep ← test a
    let l ← retainM test l
    pure (if keep then a :: l else l)

/-- Without checks the loop is a filter. -/
lemma retainM_id {γ : Type} (test : γ → Bool) (l : List γ) :
    retainM (m := Id) test l = l.filter test := by
  induction l with
  | nil => rfl
  | cons a l ih =>
    show (if test a = true then a :: retainM (m := Id) test l else retainM (m := Id) test l) = _
    rw [ih, List.filter_cons]

/-- A search meets the condition on each element that it looks at: those up to the first that
passes the test. -/
def SearchOk {γ : Type} (test : γ → Bool) (P : γ → Prop) : List γ → Prop
  | [] => True
  | a :: l => P a ∧ (test a = false → SearchOk test P l)

instance SearchOk.decidable {γ : Type} (test : γ → Bool) (P : γ → Prop) [DecidablePred P] :
    ∀ l, Decidable (SearchOk test P l)
  | [] => .isTrue trivial
  | a :: l =>
    haveI := decidable test P l
    inferInstanceAs (Decidable (P a ∧ (test a = false → SearchOk test P l)))

/-- Where the condition makes two tests agree, a search that meets it finds the same with both. -/
lemma SearchOk.any_eq {γ : Type} {test test' : γ → Bool} {P : γ → Prop}
    (h : ∀ a, P a → test' a = test a) {l : List γ} (hl : SearchOk test P l) :
    l.any test' = l.any test := by
  induction l with
  | nil => rfl
  | cons a l ih =>
    rw [List.any_cons, List.any_cons, h a hl.1]
    cases htest : test a with
    | true => rfl
    | false => exact congrArg (false || ·) (ih (hl.2 htest))

namespace Runs

variable {γ : Type} {ε : Type} {f : γ → Except ε Bool} {test : γ → Bool} {P : γ → Prop}

/-- A search for an element that passes a test. -/
lemma anyM {l : List γ} (h : ∀ a ∈ l, Runs (f a) (test a) (P a)) :
    Runs (l.anyM f) (l.any test) (SearchOk test P l) := by
  induction l with
  | nil => exact pure false
  | cons a l ih =>
    rw [List.anyM_cons, List.any_cons]
    refine (h a List.mem_cons_self).bind ?_
    cases htest : test a with
    | true => exact (pure true).of_iff (iff_of_true trivial fun h => nomatch h)
    | false =>
      rw [Bool.false_or]
      exact (ih fun b hb => h b (List.mem_cons_of_mem a hb)).of_iff ⟨fun h _ => h, fun h => h rfl⟩

/-- The loop that keeps the elements which pass a test looks at all of them. -/
lemma retainM {l : List γ} (h : ∀ a ∈ l, Runs (f a) (test a) (P a)) :
    Runs (Checked.retainM f l) (l.filter test) (∀ a ∈ l, P a) := by
  induction l with
  | nil => exact (pure []).of_iff (iff_of_true trivial fun a ha => nomatch ha)
  | cons a l ih =>
    have hrest := ih fun b hb => h b (List.mem_cons_of_mem a hb)
    rw [List.filter_cons]
    exact ((h a List.mem_cons_self).bind (hrest.map _)).of_iff List.forall_mem_cons.symm

end Runs

end Checked
