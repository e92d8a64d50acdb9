import Mathlib.Logic.Relation
import Mathlib.Data.Nat.Notation

set_option relaxedAutoImplicit false
set_option autoImplicit false

/-!
# Loops with several exits

The body of a loop takes a state to the next state or leaves the loop with a result. How often the
loop goes round may depend on what happens outside, so that it need not end by itself; it is run
with fuel, and ends if some fuel is enough.

## Main definitions

* `Loop.run` — the result of a loop, `none` if the fuel runs out.
* `Loop.Continues` — the body goes on from one state to another.

## Main results

* `Loop.run_iff` — a loop ends with a result exactly if a state that it comes to leaves with it.
* `Loop.invariant` — what the body keeps as long as it goes on.
* `Loop.exists_run` — a loop ends if a measure gets smaller each time round.
-/

namespace Loop

variable {S R : Type*}

/-- The result of a loop, `none` if the fuel runs out. -/
def run (body : S → S ⊕ R) : ℕ → S → Option R
  | 0, _ => none
  | fuel + 1, s =>
    match body s with
    | .inl s => run body fuel s
    | .inr r => some r

/-- The body goes on from one state to another. -/
def Continues (body : S → S ⊕ R) (s s' : S) : Prop := body s = .inl s'

variable {body : S → S ⊕ R} {s s' : S} {r r' : R} {fuel fuel' : ℕ}

lemma run_succ_inl (h : body s = .inl s') : run body (fuel + 1) s = run body fuel s' := by
  rw [run, h]

lemma run_succ_inr (h : body s = .inr r) : run body (fuel + 1) s = some r := by
  rw [run, h]

/-- **A loop ends with a result** exactly if a state that it comes to leaves with it.

**Proof sketch.** In one direction by induction on the fuel, in the other along the states that the
loop goes through. -/
theorem run_iff : (∃ fuel, run body fuel s = some r) ↔
    ∃ s', Relation.ReflTransGen (Continues body) s s' ∧ body s' = .inr r := by
  constructor
  · rintro ⟨fuel, hrun⟩
    induction fuel generalizing s with
    | zero => exact nomatch hrun
    | succ fuel ih =>
      rcases hbody : body s with next | result
      · rw [run_succ_inl hbody] at hrun
        obtain ⟨last, hreach, hlast⟩ := ih hrun
        exact ⟨last, .head hbody hreach, hlast⟩
      · rw [run_succ_inr hbody] at hrun
        exact ⟨s, .refl, hbody.trans (congrArg Sum.inr (Option.some.inj hrun))⟩
  · rintro ⟨last, hreach, hlast⟩
    induction hreach using Relation.ReflTransGen.head_induction_on with
    | refl => exact ⟨1, run_succ_inr hlast⟩
    | head hfirst _ ih =>
      obtain ⟨fuel, hrun⟩ := ih
      exact ⟨fuel + 1, (run_succ_inl hfirst).trans hrun⟩

/-- What the body keeps as long as it goes on holds of every state that the loop comes to. -/
theorem invariant {I : S → Prop} (hbody : ∀ s s', I s → body s = .inl s' → I s') (hs : I s)
    (hreach : Relation.ReflTransGen (Continues body) s s') : I s' := by
  induction hreach with
  | refl => exact hs
  | tail _ hlast ih => exact hbody _ _ ih hlast

/-- **A loop ends** if a measure gets smaller each time round. -/
theorem exists_run (size : S → ℕ) (hbody : ∀ s s', body s = .inl s' → size s' < size s) (s : S) :
    ∃ fuel r, run body fuel s = some r := by
  induction hsize : size s using Nat.strongRecOn generalizing s with
  | ind n ih =>
    rcases hs : body s with next | result
    · obtain ⟨fuel, r, hrun⟩ := ih (size next) (hsize ▸ hbody s next hs) next rfl
      exact ⟨fuel + 1, r, (run_succ_inl hs).trans hrun⟩
    · exact ⟨1, result, run_succ_inr hs⟩

end Loop
