import Mathlib.Data.Option.Basic
import Mathlib.Data.List.Basic

set_option relaxedAutoImplicit false
set_option autoImplicit false

/-!
# Runs of event-driven state machines

A system is a partial step function `step : σ → ε → Option σ`: the event `e` is enabled in
`s` when `step s e` is `some`. A run is a list of events, and every interleaving of several
parties is such a list. The two rules below are what a development about one system needs:
an invariant kept by every step holds after every run, and an invariant kept by the steps
that meet a guard holds after every run all of whose steps meet it.

## Main definitions

* `Transition.run` — the state after a list of events, `none` once an event is not enabled.
* `Transition.Guarded` — every step of a run is taken in a state that allows its event.
* `Transition.Always` — a property holds of every state of a run.

## Main results

* `Transition.run_invariant` — the invariant rule.
* `Transition.run_invariant_of_guarded` — the invariant rule under a guard on the steps.
* `Transition.run_iff_guarded` — what one step keeps exactly if it meets the guard, a run keeps
  exactly if it is guarded.
* `Transition.always_iff_guarded` — the same for a property of every state, which a later state may
  have again.
-/

namespace Transition

variable {σ ε : Type*}

/-- The state reached from `s` by the events `es` in order; `none` if one is not enabled. -/
def run (step : σ → ε → Option σ) : σ → List ε → Option σ
  | s, [] => some s
  | s, e :: es => (step s e).bind fun s' => run step s' es

/-- Every event of the run from `s` meets the guard `G` in the state in which it is taken. -/
def Guarded (step : σ → ε → Option σ) (G : σ → ε → Prop) : σ → List ε → Prop
  | _, [] => True
  | s, e :: es => G s e ∧ ∀ s' ∈ step s e, Guarded step G s' es

/-- Whether a run keeps to a decidable guard can be computed. -/
instance decidableGuarded (step : σ → ε → Option σ) (G : σ → ε → Prop)
    [∀ s e, Decidable (G s e)] : ∀ (es : List ε) (s : σ), Decidable (Guarded step G s es)
  | [], _ => .isTrue trivial
  | e :: es, s =>
    match hs : step s e with
    | none => decidable_of_iff (G s e) (by simp [Guarded, hs])
    | some s' =>
      haveI := decidableGuarded step G es s'
      decidable_of_iff (G s e ∧ Guarded step G s' es) (by simp [Guarded, hs])

variable {step : σ → ε → Option σ}

@[simp] lemma run_nil (s : σ) : run step s [] = some s := rfl

@[simp] lemma run_cons (s : σ) (e : ε) (es : List ε) :
    run step s (e :: es) = (step s e).bind fun s' => run step s' es := rfl

/-- If every event is enabled in every state, then every list of events is a run. -/
lemma exists_run (hstep : ∀ s e, ∃ s', step s e = some s') (s : σ) (es : List ε) :
    ∃ s', run step s es = some s' := by
  induction es generalizing s with
  | nil => exact ⟨s, rfl⟩
  | cons e es ih =>
    obtain ⟨t, ht⟩ := hstep s e
    obtain ⟨s', hs'⟩ := ih t
    exact ⟨s', by rw [run_cons, ht, Option.bind_some, hs']⟩

/-- **The invariant rule under a guard.** An invariant kept by every step that meets the
guard holds after every run whose steps all meet it.

**Proof sketch.** Induction on the events: the first step meets the guard, so the invariant
holds after it, and the rest of the run is guarded from there. -/
theorem run_invariant_of_guarded {G : σ → ε → Prop} {I : σ → Prop}
    (hstep : ∀ s e s', I s → G s e → step s e = some s' → I s') {es : List ε} :
    ∀ {s s' : σ}, I s → Guarded step G s es → run step s es = some s' → I s' := by
  induction es with
  | nil =>
    intro s s' hs _ hrun
    obtain rfl : s = s' := by simpa using hrun
    exact hs
  | cons e es ih =>
    intro s s' hs hg hrun
    obtain ⟨t, ht, hrun⟩ := Option.bind_eq_some_iff.mp hrun
    exact ih (hstep s e t hs hg.1 ht) (hg.2 t ht) hrun

/-- Every run is guarded by the guard that allows everything. -/
lemma guarded_true (s : σ) (es : List ε) : Guarded step (fun _ _ => True) s es := by
  induction es generalizing s with
  | nil => trivial
  | cons e es ih => exact ⟨trivial, fun s' _ => ih s'⟩

/-- A guard on the event alone holds along a run as soon as it holds of every event. -/
lemma guarded_of_forall {P : ε → Prop} {es : List ε} (h : ∀ e ∈ es, P e) (s : σ) :
    Guarded step (fun _ e => P e) s es := by
  induction es generalizing s with
  | nil => trivial
  | cons e es ih =>
    exact ⟨h e List.mem_cons_self, fun s' _ => ih (fun e he => h e (List.mem_cons_of_mem _ he)) s'⟩

/-- **The invariant rule.** An invariant kept by every step holds after every run. -/
theorem run_invariant {I : σ → Prop} (hstep : ∀ s e s', I s → step s e = some s' → I s')
    {s s' : σ} {es : List ε} (hs : I s) (hrun : run step s es = some s') : I s' :=
  run_invariant_of_guarded (fun s e s' hI _ => hstep s e s' hI) hs (guarded_true s es) hrun

/-- **The rule for guards that are exact.** If a step ends in a good state exactly when it starts in
one and meets the guard, then so does a run.

**Proof sketch.** By induction on the events, from the first one: the rest of the run ends in a good
state exactly if it starts in one and is guarded, and it starts where the step ends. -/
theorem run_iff_guarded {G : σ → ε → Prop} {Q : σ → Prop}
    (hstep : ∀ s e s', step s e = some s' → (Q s' ↔ Q s ∧ G s e)) {es : List ε} :
    ∀ {s s' : σ}, run step s es = some s' → (Q s' ↔ Q s ∧ Guarded step G s es) := by
  induction es with
  | nil =>
    intro s s' hrun
    obtain rfl : s = s' := by simpa using hrun
    exact ⟨fun h => ⟨h, trivial⟩, And.left⟩
  | cons e es ih =>
    intro s s' hrun
    obtain ⟨t, ht, hrun⟩ := Option.bind_eq_some_iff.mp hrun
    have hrest : (∀ t' ∈ step s e, Guarded step G t' es) ↔ Guarded step G t es :=
      ⟨fun h => h t ht, fun h t' ht' => Option.some.inj (ht.symm.trans ht') ▸ h⟩
    rw [ih hrun, hstep s e t ht, and_assoc, Guarded, hrest]

/-- The property holds of every state that the run from `s` goes through. -/
def Always (step : σ → ε → Option σ) (Q : σ → Prop) : σ → List ε → Prop
  | s, [] => Q s
  | s, e :: es => Q s ∧ ∀ s' ∈ step s e, Always step Q s' es

/-- **The rule for properties that can come back.** If a step from a good state ends in a good state
exactly when it meets the guard, then all states of a run are good exactly when it is guarded.

**Proof sketch.** Induction on the run. The step is a function, so the state after the first event
is the one of the run; that state is good exactly when the event meets the guard, and only then does
the induction hypothesis apply to the rest of the run. -/
theorem always_iff_guarded {G : σ → ε → Prop} {Q : σ → Prop}
    (hstep : ∀ s e s', Q s → step s e = some s' → (Q s' ↔ G s e)) {es : List ε} :
    ∀ {s s' : σ}, Q s → run step s es = some s' → (Always step Q s es ↔ Guarded step G s es) := by
  induction es with
  | nil => exact fun hs _ => iff_of_true hs trivial
  | cons e es ih =>
    intro s s' hs hrun
    obtain ⟨t, ht, hrun⟩ := Option.bind_eq_some_iff.mp hrun
    have hnext : ∀ P : σ → Prop, (∀ t' ∈ step s e, P t') ↔ P t := fun P =>
      ⟨fun h => h t ht, fun h t' ht' => Option.some.inj (ht.symm.trans ht') ▸ h⟩
    rw [Always, Guarded, hnext, hnext, and_iff_right hs, ← hstep s e t hs ht]
    constructor
    · intro halways
      have hgood : Q t := by
        cases es with
        | nil => exact halways
        | cons e' es => exact halways.1
      exact ⟨hgood, (ih hgood hrun).mp halways⟩
    · exact fun ⟨hgood, hguarded⟩ => (ih hgood hrun).mpr hguarded

end Transition
