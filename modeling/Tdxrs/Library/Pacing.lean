import Mathlib.Algebra.Order.Monoid.Defs
import Mathlib.Data.List.Basic
import Mathlib.Order.MinMax

set_option relaxedAutoImplicit false
set_option autoImplicit false

/-!
# Events that keep a distance

A log of events, each with the distance that it has to keep from the one before it. If no distance
is below `δ`, then there are at most `n` events in every half-open window of length `n • δ`. Times
are from any ordered monoid.

## Main definitions

* `Pacing.Stamp` — an event: its time and its distance.
* `Pacing.Paced` — every event keeps its distance.
* `Pacing.wake` — when an event may take place at the earliest.

## Main results

* `Pacing.Paced.concat` — one more event.
* `Pacing.Paced.length_window_le` — how many events a window has.
-/

namespace Pacing

variable {τ : Type*}

/-- An event, with the distance that it keeps from the one before it. -/
structure Stamp (τ : Type*) where
  time : τ
  interval : τ
deriving DecidableEq

variable [AddCommMonoid τ] [LinearOrder τ]

/-- Every event of a log keeps its distance. -/
structure Paced (log : List (Stamp τ)) : Prop where
  nonneg : ∀ s ∈ log, 0 ≤ s.interval
  apart : log.Pairwise fun a b => a.time + b.interval ≤ b.time

/-- The earliest time from `now` on that keeps the distance from the event before, if there is
one. -/
def wake (last : Option τ) (interval now : τ) : τ :=
  last.elim now fun t => max now (t + interval)

lemma Paced.nil : Paced ([] : List (Stamp τ)) :=
  ⟨fun _ h => absurd h List.not_mem_nil, .nil⟩

/-- Some of the events keep their distances as well. -/
lemma Paced.filter {log : List (Stamp τ)} (h : Paced log) (p : Stamp τ → Bool) :
    Paced (log.filter p) :=
  ⟨fun s hs => h.nonneg s (List.mem_of_mem_filter hs), h.apart.filter p⟩

/-- What is awaited keeps the distance. -/
lemma add_le_wake {last : Option τ} {t : τ} (h : t ∈ last) (interval now : τ) :
    t + interval ≤ wake last interval now := by
  obtain rfl := Option.mem_def.mp h
  exact le_max_right _ _

variable [IsOrderedAddMonoid τ]

/-- **One more event**, at the distance from the last one.

**Proof sketch.** The new event keeps its distance from the last one by assumption. An event before
that was at most as late as the last one, because distances are not negative, so its distance from
the new event is no smaller. -/
theorem Paced.concat {log : List (Stamp τ)} (h : Paced log) {s : Stamp τ} (hs : 0 ≤ s.interval)
    (hlast : ∀ last ∈ log.getLast?, last.time + s.interval ≤ s.time) : Paced (log ++ [s]) := by
  refine ⟨fun x hx => ?_,
    List.pairwise_append.mpr ⟨h.apart, List.pairwise_singleton _ _, fun x hx y hy => ?_⟩⟩
  · rcases List.mem_append.mp hx with hx | hx
    · exact h.nonneg x hx
    · rwa [List.mem_singleton.mp hx]
  · obtain rfl := List.mem_singleton.mp hy
    rcases List.eq_nil_or_concat log with rfl | ⟨init, last, rfl⟩
    · exact absurd hx List.not_mem_nil
    rw [List.concat_eq_append] at h hx hlast
    have hnew := hlast last (by simp)
    rcases List.mem_append.mp hx with hx | hx
    · have hbefore := (List.pairwise_append.mp h.apart).2.2 x hx last List.mem_cons_self
      have hle : x.time ≤ last.time :=
        (le_add_of_nonneg_right (h.nonneg last (by simp))).trans hbefore
      exact (add_le_add_left hle _).trans hnew
    · rwa [List.mem_singleton.mp hx]

/-- Events within a time. By induction on the events: behind the first one, the time that is left is
shorter by its distance from the next.

**Proof sketch.** The first event leaves a window that starts `δ` later and ends where it did, which
is `n` steps long if the whole was `n + 1`. With no step left there is no room for an event. -/
lemma Paced.length_le {δ : τ} {log : List (Stamp τ)} (h : Paced log) :
    ∀ {t : τ} {n : ℕ}, (∀ s ∈ log, δ ≤ s.interval) → (∀ s ∈ log, t ≤ s.time ∧ s.time < t + n • δ) →
      log.length ≤ n := by
  induction log with
  | nil => exact fun _ _ => Nat.zero_le _
  | cons s log ih =>
    intro t n hδ hwindow
    obtain ⟨hnext, happart⟩ := List.pairwise_cons.mp h.apart
    have hrest : Paced log := ⟨fun x hx => h.nonneg x (List.mem_cons_of_mem _ hx), happart⟩
    obtain ⟨hle, hlt⟩ := hwindow s List.mem_cons_self
    cases n with
    | zero =>
      rw [zero_nsmul, add_zero] at hlt
      exact absurd hle (not_le.mpr hlt)
    | succ n =>
      refine Nat.succ_le_succ (ih hrest (t := t + δ) (fun x hx => hδ x (List.mem_cons_of_mem _ hx))
        fun x hx => ⟨?_, ?_⟩)
      · have hx' := hδ x (List.mem_cons_of_mem _ hx)
        exact (add_le_add hle hx').trans (hnext x hx)
      · rw [add_assoc, ← succ_nsmul']
        exact (hwindow x (List.mem_cons_of_mem _ hx)).2

/-- **How many events a window has**, if their distances are at least `δ`: a window of length
`n • δ` has at most `n`. -/
theorem Paced.length_window_le {δ : τ} {log : List (Stamp τ)} (h : Paced log) (t : τ) (n : ℕ)
    (hδ : ∀ s ∈ log, t ≤ s.time → s.time < t + n • δ → δ ≤ s.interval) :
    (log.filter fun s => t ≤ s.time ∧ s.time < t + n • δ).length ≤ n := by
  have hmem {s : Stamp τ} (hs : s ∈ log.filter fun s => t ≤ s.time ∧ s.time < t + n • δ) :
      s ∈ log ∧ t ≤ s.time ∧ s.time < t + n • δ := by
    simpa using hs
  refine (h.filter _).length_le (fun s hs => ?_) fun s hs => (hmem hs).2
  exact hδ s (hmem hs).1 (hmem hs).2.1 (hmem hs).2.2

end Pacing
