import Mathlib.Data.List.Basic
import Mathlib.Order.Basic
import Mathlib.Data.Nat.Basic
import Tdxrs.Library.Checked

set_option relaxedAutoImplicit false
set_option autoImplicit false

/-!
# Records of fields in a byte string

A parser that reads a counted list of records, each a sequence of fields behind one check that at
least so many bytes are left. A field that is not all there is read as zero, and the parser goes
on. So a byte string that is cut off within a record gives the records before it, and perhaps one
more, whose fields beyond the cut are zero.

## Main definitions

* `Records.readFields`, `Records.ends` — the values of a sequence of fields, and where each ends.
* `Records.Lenient` — how fields are to be read where the bytes run out.
* `Records.loop` — the records of a counted list; `Records.loopM` is the same in a monad.
* `Records.Whole` — all the records of the list are there.
* `Records.AtCut` — a property of the record in which a cut falls.
* `Records.fieldStep` — a record that is put together from a head and fields.

## Main results

* `Records.readFields_take` — the fields of a record that is cut off.
* `Records.runs_loopM` — when a loop with checks does not fault.
* `Records.loop_take_isPrefix_iff` — when the records before a cut are all that is read.
* `Records.Headed.harmlessCut_iff` — when a record of fields that is cut off is no other record.
-/

namespace Records

/-! ## Fields -/

section Fields

variable {F V B : Type*} (read : F → List B → ℕ → V × ℕ)

/-- The values of the fields from a position on, and the position after them. -/
def readFields : List F → List B → ℕ → List V × ℕ
  | [], _, pos => ([], pos)
  | f :: fs, data, pos =>
    let (v, pos) := read f data pos
    let (vs, pos) := readFields fs data pos
    (v :: vs, pos)

/-- The position after each of the fields. -/
def ends : List F → List B → ℕ → List ℕ
  | [], _, _ => []
  | f :: fs, data, pos => (read f data pos).2 :: ends fs data (read f data pos).2

/-- How fields are read: a field that ends before a cut does not notice it, one that is cut off is
zero, and so is one that begins where there are no bytes. -/
structure Lenient (zero : V) : Prop where
  advance (f : F) {data : List B} {pos : ℕ} : pos ≤ data.length → pos ≤ (read f data pos).2
  complete (f : F) {data : List B} {pos cut : ℕ} : cut ≤ data.length → (read f data pos).2 ≤ cut →
    read f (data.take cut) pos = read f data pos
  cut (f : F) {data : List B} {pos cut : ℕ} : cut ≤ data.length → cut < (read f data pos).2 →
    (read f (data.take cut) pos).1 = zero ∧ cut ≤ (read f (data.take cut) pos).2
  beyond (f : F) {data : List B} {pos : ℕ} : data.length ≤ pos →
    (read f data pos).1 = zero ∧ data.length ≤ (read f data pos).2

variable {read} {zero : V} {data : List B} {pos cut : ℕ}

@[simp] lemma length_readFields (fs : List F) :
    (readFields read fs data pos).1.length = fs.length := by
  induction fs generalizing pos with
  | nil => rfl
  | cons f fs ih => exact congrArg (· + 1) ih

@[simp] lemma length_ends (fs : List F) : (ends read fs data pos).length = fs.length := by
  induction fs generalizing pos with
  | nil => rfl
  | cons f fs ih => exact congrArg (· + 1) ih

/-- Fields after others are read from the end of those on. -/
lemma readFields_append (fs gs : List F) (pos : ℕ) :
    readFields read (fs ++ gs) data pos =
      ((readFields read fs data pos).1 ++
          (readFields read gs data (readFields read fs data pos).2).1,
        (readFields read gs data (readFields read fs data pos).2).2) := by
  induction fs generalizing pos with
  | nil => rfl
  | cons f fs ih => simp only [List.cons_append, readFields, ih]

/-- The ends of fields after others. -/
lemma ends_append (fs gs : List F) (pos : ℕ) :
    ends read (fs ++ gs) data pos =
      ends read fs data pos ++ ends read gs data (readFields read fs data pos).2 := by
  induction fs generalizing pos with
  | nil => rfl
  | cons f fs ih => simp only [List.cons_append, ends, readFields, ih]

/-- The position after the fields is that after one of them. -/
lemma readFields_snd_mem {fs : List F} (h : fs ≠ []) :
    (readFields read fs data pos).2 ∈ ends read fs data pos := by
  induction fs generalizing pos with
  | nil => exact absurd rfl h
  | cons f fs ih =>
    rcases fs with _ | ⟨g, gs⟩
    · exact List.mem_singleton_self _
    · exact List.mem_cons_of_mem _ (ih (List.cons_ne_nil g gs))

namespace Lenient

variable (h : Lenient read zero)
include h

/-- The fields of a record that is there end where they begin, or later. -/
lemma le_ends (fs : List F) : ∀ {pos : ℕ}, pos ≤ data.length →
    (∀ e ∈ ends read fs data pos, e ≤ data.length) → ∀ e ∈ ends read fs data pos, pos ≤ e := by
  induction fs with
  | nil => exact fun _ _ e he => absurd he List.not_mem_nil
  | cons f fs ih =>
    intro pos hpos hends
    obtain ⟨hfirst, hrest⟩ := List.forall_mem_cons.mp hends
    have hadvance := h.advance f hpos
    exact List.forall_mem_cons.mpr
      ⟨hadvance, fun e he => hadvance.trans (ih hfirst hrest e he)⟩

/-- Where there are no bytes, all fields are zero. -/
lemma readFields_beyond (fs : List F) : ∀ {pos : ℕ}, data.length ≤ pos →
    (readFields read fs data pos).1 = List.replicate fs.length zero ∧
      data.length ≤ (readFields read fs data pos).2 := by
  induction fs with
  | nil => exact fun hpos => ⟨rfl, hpos⟩
  | cons f fs ih =>
    intro pos hpos
    obtain ⟨hzero, hnext⟩ := h.beyond f hpos
    obtain ⟨hzeros, hlast⟩ := ih hnext
    exact ⟨List.cons_eq_cons.mpr ⟨hzero, hzeros⟩, hlast⟩

/-- **Fields before a cut** do not notice it. -/
lemma readFields_take_of_le (fs : List F) (hcut : cut ≤ data.length) : ∀ {pos : ℕ},
    (∀ e ∈ ends read fs data pos, e ≤ cut) →
      readFields read fs (data.take cut) pos = readFields read fs data pos := by
  induction fs with
  | nil => exact fun _ => rfl
  | cons f fs ih =>
    intro pos hends
    obtain ⟨hfirst, hrest⟩ := List.forall_mem_cons.mp hends
    rw [readFields, readFields, h.complete f hcut hfirst]
    simp only [ih hrest]

/-- **The fields of a record that is cut off**: those that end before the cut are as they were, and
the others are zero.

**Proof sketch.** Induction on the fields. As long as they end before the cut they are read as
before. The first one that does not is zero and ends at the cut or later, where there are no bytes,
so that all fields after it are zero; they end behind the cut in the whole record too. -/
lemma readFields_take (fs : List F) (hcut : cut ≤ data.length) : ∀ {pos : ℕ}, pos ≤ data.length →
    (∀ e ∈ ends read fs data pos, e ≤ data.length) →
      (readFields read fs (data.take cut) pos).1 =
        List.zipWith (fun v e => if e ≤ cut then v else zero) (readFields read fs data pos).1
          (ends read fs data pos) := by
  induction fs with
  | nil => exact fun _ _ => rfl
  | cons f fs ih =>
    intro pos hpos hends
    obtain ⟨hfirst, hrest⟩ := List.forall_mem_cons.mp hends
    simp only [readFields, ends, List.zipWith_cons_cons]
    by_cases hle : (read f data pos).2 ≤ cut
    · rw [h.complete f hcut hle, if_pos hle, ih hfirst hrest]
    · obtain ⟨hzero, hnext⟩ := h.cut f hcut (not_le.mp hle)
      have hsize : (data.take cut).length = cut := List.length_take_of_le hcut
      have hlater := h.le_ends fs hfirst hrest
      rw [hzero, if_neg hle, (h.readFields_beyond fs (hsize.le.trans hnext)).1]
      refine congrArg (zero :: ·) (List.ext_getElem (by simp) fun i hi hi' => ?_)
      have hend := hlater _ (List.getElem_mem (l := ends read fs data (read f data pos).2) (n := i)
        (by simpa using hi))
      rw [List.getElem_replicate, List.getElem_zipWith, if_neg (by omega)]

/-- If a field of a record ends behind the data, the record does not end before. -/
lemma length_le_readFields (fs : List F) : ∀ {pos : ℕ},
    (∃ e ∈ ends read fs data pos, data.length < e) →
      data.length ≤ (readFields read fs data pos).2 := by
  induction fs with
  | nil => exact fun ⟨e, he, _⟩ => absurd he List.not_mem_nil
  | cons f fs ih =>
    rintro pos ⟨e, he, hlt⟩
    simp only [readFields]
    rcases List.mem_cons.mp he with rfl | he
    · exact (h.readFields_beyond fs hlt.le).2
    · exact ih ⟨e, he, hlt⟩

/-- The fields of a record that is there do not end behind the record. -/
lemma ends_le_readFields (fs : List F) : ∀ {pos : ℕ}, pos ≤ data.length →
    (∀ e ∈ ends read fs data pos, e ≤ data.length) →
      pos ≤ (readFields read fs data pos).2 ∧
        ∀ e ∈ ends read fs data pos, e ≤ (readFields read fs data pos).2 := by
  induction fs with
  | nil => exact fun _ _ => ⟨le_rfl, fun e he => absurd he List.not_mem_nil⟩
  | cons f fs ih =>
    intro pos hpos hends
    obtain ⟨hfirst, hrest⟩ := List.forall_mem_cons.mp hends
    obtain ⟨hle, hlater⟩ := ih hfirst hrest
    exact ⟨(h.advance f hpos).trans hle, List.forall_mem_cons.mpr ⟨hle, hlater⟩⟩

/-- A record that is cut off ends at the cut or later.

**Proof sketch.** By induction on the fields. A field that ends before the cut is read as it was;
the first one that does not leads to the cut, and from there no field goes back. -/
lemma cut_le_readFields_take (fs : List F) (hcut : cut ≤ data.length) : ∀ {pos : ℕ},
    (∃ e ∈ ends read fs data pos, cut < e) →
      cut ≤ (readFields read fs (data.take cut) pos).2 := by
  induction fs with
  | nil => exact fun ⟨e, he, _⟩ => absurd he List.not_mem_nil
  | cons f fs ih =>
    rintro pos ⟨e, he, hlt⟩
    simp only [readFields]
    by_cases hle : (read f data pos).2 ≤ cut
    · rw [h.complete f hcut hle]
      refine ih ⟨e, (List.mem_cons.mp he).resolve_left fun heq => ?_, hlt⟩
      omega
    · have hsize : (data.take cut).length = cut := List.length_take_of_le hcut
      have hnext := (h.cut f hcut (not_le.mp hle)).2
      exact hsize.ge.trans (h.readFields_beyond fs (hsize.le.trans hnext)).2

end Lenient

end Fields

/-! ## Counted lists -/

/-- The records of a counted list from a position on: a record is read if `guard` bytes are left,
and one that `step` refuses ends the list. `step` takes a state from record to record. -/
def loop {β S : Type*} (size guard : ℕ) (step : ℕ → S → Option (β × ℕ × S)) : ℕ → ℕ → S → List β
  | 0, _, _ => []
  | count + 1, pos, s =>
    if size < pos + guard then []
    else
      match step pos s with
      | none => []
      | some (b, pos, s) => b :: loop size guard step count pos s

/-- The same with steps in a monad. -/
def loopM {m : Type → Type} [Monad m] {β S : Type} (size guard : ℕ)
    (step : ℕ → S → m (Option (β × ℕ × S))) : ℕ → ℕ → S → m (List β)
  | 0, _, _ => pure []
  | count + 1, pos, s =>
    if size < pos + guard then pure []
    else do
      match ← step pos s with
      | none => pure []
      | some (b, pos, s) =>
        let bs ← loopM size guard step count pos s
        pure (b :: bs)

/-- Steps without effects give the records without effects.

**Proof sketch.** By induction on the number of records that are left. -/
lemma loopM_eq_pure {m : Type → Type} [Monad m] [LawfulMonad m] {β S : Type} {size guard : ℕ}
    {stepM : ℕ → S → m (Option (β × ℕ × S))} {step : ℕ → S → Option (β × ℕ × S)}
    (hstep : ∀ pos s, pos + guard ≤ size → stepM pos s = pure (step pos s)) (count : ℕ) :
    ∀ (pos : ℕ) (s : S),
      loopM size guard stepM count pos s = pure (loop size guard step count pos s) := by
  induction count with
  | zero => exact fun _ _ => rfl
  | succ count ih =>
    intro pos s
    rw [loopM, loop]
    split
    · rfl
    · rename_i hfull
      rw [hstep pos s (not_lt.mp hfull), pure_bind]
      rcases step pos s with _ | ⟨b, pos', s'⟩
      · rfl
      · simp only [ih pos' s', pure_bind]

/-- Without effects both are the same. -/
lemma loopM_id {β S : Type} (size guard : ℕ) (step : ℕ → S → Option (β × ℕ × S)) (count pos : ℕ)
    (s : S) : loopM (m := Id) size guard step count pos s = loop size guard step count pos s :=
  loopM_eq_pure (fun _ _ _ => rfl) count pos s

/-- The condition holds of every record that is read. -/
def Each {β S : Type*} (size guard : ℕ) (step : ℕ → S → Option (β × ℕ × S))
    (P : ℕ → S → Prop) : ℕ → ℕ → S → Prop
  | 0, _, _ => True
  | count + 1, pos, s =>
    size < pos + guard ∨
      P pos s ∧ ∀ r ∈ step pos s, Each size guard step P count r.2.1 r.2.2

/-- **A loop with checks** does not fault exactly if none of its steps does.

**Proof sketch.** Induction on the count. Past the guard neither loop takes a step, so nothing can
fault. Otherwise the step faults exactly outside `P`, and if it gives a record, the loops go on from
the position and state behind it, where the induction hypothesis holds. -/
theorem runs_loopM {ε β S : Type} {size guard : ℕ}
    {stepM : ℕ → S → Except ε (Option (β × ℕ × S))} {step : ℕ → S → Option (β × ℕ × S)}
    {P : ℕ → S → Prop}
    (hstep : ∀ pos s, pos + guard ≤ size → Checked.Runs (stepM pos s) (step pos s) (P pos s))
    (count : ℕ) : ∀ (pos : ℕ) (s : S),
      Checked.Runs (loopM size guard stepM count pos s) (loop size guard step count pos s)
        (Each size guard step P count pos s) := by
  induction count with
  | zero => exact fun _ _ => Checked.Runs.pure []
  | succ count ih =>
    intro pos s
    rw [loopM, loop, Each]
    by_cases hguard : size < pos + guard
    · rw [if_pos hguard, if_pos hguard]
      exact (Checked.Runs.pure _).of_iff (by simp [hguard])
    · rw [if_neg hguard, if_neg hguard]
      have hrest : (size < pos + guard ∨
          P pos s ∧ ∀ r ∈ step pos s, Each size guard step P count r.2.1 r.2.2) ↔
          P pos s ∧ ∀ r ∈ step pos s, Each size guard step P count r.2.1 r.2.2 :=
        or_iff_right hguard
      refine Checked.Runs.of_iff ?_ hrest.symm
      refine (hstep pos s (not_lt.mp hguard)).bind ?_
      rcases step pos s with _ | ⟨b, pos', s'⟩
      · exact (Checked.Runs.pure _).of_iff (by simp)
      · exact ((ih pos' s').map (b :: ·)).of_iff (by simp)

/-- A loop only takes steps where there are bytes.

**Proof sketch.** By induction on the number of records that are left. -/
lemma loop_congr {β S : Type*} {size guard : ℕ} {step step' : ℕ → S → Option (β × ℕ × S)}
    (h : ∀ pos s, pos + guard ≤ size → step pos s = step' pos s) (count : ℕ) :
    ∀ (pos : ℕ) (s : S), loop size guard step count pos s = loop size guard step' count pos s := by
  induction count with
  | zero => exact fun _ _ => rfl
  | succ count ih =>
    intro pos s
    rw [loop, loop]
    split
    · rfl
    · rename_i hfull
      rw [h pos s (not_lt.mp hfull)]
      rcases step' pos s with _ | ⟨b, pos', s'⟩
      · rfl
      · exact congrArg (b :: ·) (ih pos' s')

/-- A loop whose records have a byte each stops by itself: from as many steps as there are bytes on,
their number does not matter.

**Proof sketch.** Induction on the smaller count. Each step takes at least one byte, so what is left
of the data and the count shrink together; once the count is used up the data are too, and the guard
ends the loop with any larger count. -/
lemma loop_of_le {β S : Type*} {size guard : ℕ} {step : ℕ → S → Option (β × ℕ × S)}
    (hguard : 0 < guard)
    (hadvance : ∀ pos s, pos + guard ≤ size → ∀ r ∈ step pos s, pos < r.2.1) (count : ℕ) :
    ∀ {pos : ℕ} (s : S) {count' : ℕ}, size ≤ pos + count → count ≤ count' →
      loop size guard step count' pos s = loop size guard step count pos s := by
  induction count with
  | zero =>
    intro pos s count' hsize _
    cases count' with
    | zero => rfl
    | succ count' => exact if_pos (by omega)
  | succ count ih =>
    intro pos s count' hsize hcount
    obtain ⟨count', rfl⟩ : ∃ k, count' = k + 1 := ⟨count' - 1, by omega⟩
    rw [loop, loop]
    split
    · rfl
    · rename_i hfull
      rcases hstep : step pos s with _ | ⟨b, pos', s'⟩
      · rfl
      · have hlt : pos < pos' := hadvance pos s (not_lt.mp hfull) _ hstep
        exact congrArg (b :: ·) (ih s' (by omega) (by omega))

/-! ## Cuts -/

section Cuts

variable {B β S : Type*} {step : List B → ℕ → S → Option (β × ℕ × S)} {data : List B}
  {guard cut : ℕ}

/-- All the records of the list are there, one after the other. -/
def Whole (step : List B → ℕ → S → Option (β × ℕ × S)) (data : List B) : ℕ → ℕ → S → Prop
  | 0, _, _ => True
  | count + 1, pos, s =>
    match step data pos s with
    | none => False
    | some (_, pos', s') => pos < pos' ∧ pos' ≤ data.length ∧ Whole step data count pos' s'

instance decidableWhole (step : List B → ℕ → S → Option (β × ℕ × S)) (data : List B) :
    (count pos : ℕ) → (s : S) → Decidable (Whole step data count pos s)
  | 0, _, _ => isTrue trivial
  | count + 1, pos, s =>
    match hstep : step data pos s with
    | none => isFalse (by simp [Whole, hstep])
    | some (b, pos', s') =>
      have := decidableWhole step data count pos' s'
      decidable_of_iff (pos < pos' ∧ pos' ≤ data.length ∧ Whole step data count pos' s')
        (by simp [Whole, hstep])

/-- The first of the records. -/
lemma whole_succ {count pos : ℕ} {s : S} (h : Whole step data (count + 1) pos s) :
    ∃ b pos' s', step data pos s = some (b, pos', s') ∧ pos < pos' ∧ pos' ≤ data.length ∧
      Whole step data count pos' s' := by
  rw [Whole] at h
  rcases hstep : step data pos s with _ | ⟨b, pos', s'⟩
  · simp [hstep] at h
  · simp only [hstep] at h
    exact ⟨b, pos', s', rfl, h⟩

/-- There are no more records than bytes. -/
lemma le_of_whole (count : ℕ) : ∀ {pos : ℕ} {s : S}, Whole step data count pos s →
    count ≤ data.length - pos := by
  induction count with
  | zero => exact fun _ => Nat.zero_le _
  | succ count ih =>
    intro pos s hwhole
    obtain ⟨b, pos', s', -, hlt, hle, hwhole⟩ := whole_succ hwhole
    have := ih hwhole
    omega

/-- The condition holds of the record in which the cut falls, or before which it falls. -/
def AtCut (step : List B → ℕ → S → Option (β × ℕ × S)) (data : List B) (cut : ℕ)
    (P : ℕ → S → Prop) : ℕ → ℕ → S → Prop
  | 0, _, _ => True
  | count + 1, pos, s =>
    ∀ r ∈ step data pos s, if r.2.1 ≤ cut then AtCut step data cut P count r.2.1 r.2.2 else P pos s

/-- A cut is harmless for a record if fewer bytes of it are left than the check asks for, or what is
read of it is no other record. -/
def HarmlessCut (step : List B → ℕ → S → Option (β × ℕ × S)) (data : List B) (guard cut pos : ℕ)
    (s : S) : Prop :=
  cut < pos + guard ∨ ∀ r ∈ step data pos s, ∀ r' ∈ step (data.take cut) pos s, r'.1 = r.1

/-- How a step reads a record that is there: it does not notice a cut behind the record, and where
it goes on behind a cut within the record there are no more bytes. -/
structure Steps (step : List B → ℕ → S → Option (β × ℕ × S)) (data : List B) (guard : ℕ) :
    Prop where
  complete {pos cut : ℕ} {s : S} {r : β × ℕ × S} : pos + guard ≤ cut → cut ≤ data.length →
    step data pos s = some r → r.2.1 ≤ cut → step (data.take cut) pos s = some r
  cut {pos cut : ℕ} {s : S} {r r' : β × ℕ × S} : pos + guard ≤ cut → cut ≤ data.length →
    step data pos s = some r → cut < r.2.1 → r.2.1 ≤ data.length →
    step (data.take cut) pos s = some r' → cut ≤ r'.2.1

/-- No record is read where there are no bytes. -/
lemma loop_of_lt {step : ℕ → S → Option (β × ℕ × S)} {size pos : ℕ} (h : size < pos + guard)
    (count : ℕ) (s : S) : loop size guard step count pos s = [] := by
  cases count with
  | zero => rfl
  | succ count => exact if_pos h

/-- Once too few bytes are left, every cut is harmless. -/
lemma atCut_of_lt (count : ℕ) : ∀ {pos : ℕ} {s : S}, Whole step data count pos s →
    cut < pos + guard → AtCut step data cut (HarmlessCut step data guard cut) count pos s := by
  induction count with
  | zero => exact fun _ _ => trivial
  | succ count ih =>
    intro pos s hwhole hfew r hr
    obtain ⟨b, pos', s', hstep, hlt, -, hwhole⟩ := whole_succ hwhole
    obtain rfl := Option.some.inj (hstep.symm.trans hr)
    simp only
    split
    · exact ih hwhole (by omega)
    · exact .inl hfew

/-- **When a cut leaves a prefix.** Cut off a byte string that holds all records of its list. The
records that are read are a prefix of those of the whole exactly if the cut is harmless for the
record in which it falls.

**Proof sketch.** Induction on the records. A record before the cut is read as before, unless too
few bytes are left for the check, which ends the list. The record in which the cut falls, if it is
read, is the last one, and it is in the list of the whole exactly if it is the record there. -/
theorem loop_take_isPrefix_iff (hsteps : Steps step data guard) (hguard : 0 < guard)
    (hcut : cut ≤ data.length) (count : ℕ) : ∀ {pos : ℕ} {s : S}, Whole step data count pos s →
      (loop cut guard (step (data.take cut)) count pos s <+:
          loop data.length guard (step data) count pos s ↔
        AtCut step data cut (HarmlessCut step data guard cut) count pos s) := by
  induction count with
  | zero => exact fun _ => iff_of_true (List.prefix_refl _) trivial
  | succ count ih =>
    intro pos s hwhole
    obtain ⟨b, pos', s', hstep, hlt, hle, hwhole⟩ := whole_succ hwhole
    have hat : AtCut step data cut (HarmlessCut step data guard cut) (count + 1) pos s ↔
        if pos' ≤ cut then AtCut step data cut (HarmlessCut step data guard cut) count pos' s'
        else HarmlessCut step data guard cut pos s := by
      simp [AtCut, hstep]
    rw [hat]
    by_cases hfew : cut < pos + guard
    · rw [loop_of_lt hfew]
      refine iff_of_true List.nil_prefix ?_
      split
      · exact atCut_of_lt count hwhole (by omega)
      · exact .inl hfew
    · have hmany : pos + guard ≤ cut := not_lt.mp hfew
      have hwholeLoop : loop data.length guard (step data) (count + 1) pos s =
          b :: loop data.length guard (step data) count pos' s' := by
        rw [loop, if_neg (by omega), hstep]
      rw [hwholeLoop, loop, if_neg hfew]
      by_cases hbefore : pos' ≤ cut
      · rw [if_pos hbefore, hsteps.complete hmany hcut hstep hbefore, ← ih hwhole]
        exact List.prefix_cons_inj b
      · rw [if_neg hbefore]
        rcases hread : step (data.take cut) pos s with _ | ⟨b', pos'', s''⟩
        · exact iff_of_true List.nil_prefix (.inr fun r _ r' hr' => by simp [hread] at hr')
        · have hend : cut ≤ pos'' := hsteps.cut hmany hcut hstep (not_le.mp hbefore) hle hread
          simp only [loop_of_lt (show cut < pos'' + guard by omega)]
          have hharm : HarmlessCut step data guard cut pos s ↔ b' = b := by
            simp [HarmlessCut, hfew, hstep, hread]
          rw [hharm, List.cons_prefix_cons]
          exact and_iff_left List.nil_prefix

/-- The condition on the record of a cut may be stated in another way.

**Proof sketch.** By induction on the records: those before the cut are passed over on both sides,
and at the one of the cut the conditions are equivalent. -/
lemma atCut_congr {P Q : ℕ → S → Prop}
    (h : ∀ pos s r, step data pos s = some r → cut < r.2.1 → r.2.1 ≤ data.length →
      (P pos s ↔ Q pos s)) (count : ℕ) : ∀ {pos : ℕ} {s : S}, Whole step data count pos s →
      (AtCut step data cut P count pos s ↔ AtCut step data cut Q count pos s) := by
  induction count with
  | zero => exact fun _ => Iff.rfl
  | succ count ih =>
    intro pos s hwhole
    obtain ⟨b, pos', s', hstep, -, hle, hwhole⟩ := whole_succ hwhole
    simp only [AtCut, hstep, Option.mem_some_iff, forall_eq']
    by_cases hbefore : pos' ≤ cut
    · rw [if_pos hbefore, if_pos hbefore]
      exact ih hwhole
    · rw [if_neg hbefore, if_neg hbefore]
      exact h pos s _ hstep (not_le.mp hbefore) hle

/-- The position after the records of a list. -/
def stop (step : List B → ℕ → S → Option (β × ℕ × S)) (data : List B) : ℕ → ℕ → S → ℕ
  | 0, pos, _ => pos
  | count + 1, pos, s =>
    match step data pos s with
    | none => pos
    | some (_, pos', s') => stop step data count pos' s'

/-- Where the records fill the data, no more are read, of the data or of what a cut leaves.

**Proof sketch.** Induction on the smaller count. A record that is complete within the cut is read
alike in the whole data, and the induction hypothesis holds behind it. A record that the cut falls
into is read, if at all, to a position at or beyond the cut (`Steps.cut`), where the guard ends both
loops. -/
lemma loop_take_of_stop (hsteps : Steps step data guard) (hguard : 0 < guard)
    (hcut : cut ≤ data.length) (count : ℕ) : ∀ {pos : ℕ} {s : S} {count' : ℕ},
      Whole step data count pos s → data.length ≤ stop step data count pos s → count ≤ count' →
        loop cut guard (step (data.take cut)) count' pos s =
          loop cut guard (step (data.take cut)) count pos s := by
  induction count with
  | zero => exact fun {pos s count'} _ hstop _ =>
      (loop_of_lt (show cut < pos + guard by rw [stop] at hstop; omega) count' s)
  | succ count ih =>
    intro pos s count' hwhole hstop hcount
    obtain ⟨count', rfl⟩ : ∃ k, count' = k + 1 := ⟨count' - 1, by omega⟩
    obtain ⟨b, pos', s', hstep, hlt, hle, hwhole⟩ := whole_succ hwhole
    simp only [stop, hstep] at hstop
    rw [loop, loop]
    by_cases hfew : cut < pos + guard
    · rw [if_pos hfew, if_pos hfew]
    · rw [if_neg hfew, if_neg hfew]
      have hmany : pos + guard ≤ cut := not_lt.mp hfew
      by_cases hbefore : pos' ≤ cut
      · rw [hsteps.complete hmany hcut hstep hbefore]
        exact congrArg (b :: ·) (ih hwhole hstop (by omega))
      · rcases hread : step (data.take cut) pos s with _ | ⟨b', pos'', s''⟩
        · rfl
        · have hend : cut ≤ pos'' := hsteps.cut hmany hcut hstep (not_le.mp hbefore) hle hread
          simp only [loop_of_lt (show cut < pos'' + guard by omega)]

end Cuts

/-! ## Records of a head and fields -/

section FieldStep

variable {F V B H β S : Type*} {read : F → List B → ℕ → V × ℕ} {zero : V} {data : List B}
  {guard cut skip : ℕ} {fields : List F} {head : List B → ℕ → Option H}
  {assemble : H → S → List V → β} {next : S → List V → S}

/-- A record that is put together from its head, of `skip` bytes, and its fields. A record without
head ends the list. -/
def fieldStep (read : F → List B → ℕ → V × ℕ) (skip : ℕ) (fields : List F)
    (head : List B → ℕ → Option H) (assemble : H → S → List V → β) (next : S → List V → S)
    (data : List B) (pos : ℕ) (s : S) : Option (β × ℕ × S) :=
  (head data pos).map fun hd =>
    (assemble hd s (readFields read fields data (pos + skip)).1,
      (readFields read fields data (pos + skip)).2,
      next s (readFields read fields data (pos + skip)).1)

/-- The values of fields that are cut off: zero where a field ends behind the cut. -/
def cutValues (zero : V) (cut : ℕ) (vs : List V) (es : List ℕ) : List V :=
  List.zipWith (fun v e => if e ≤ cut then v else zero) vs es

/-- A value among those of fields that are cut off. -/
lemma getD_cutValues {vs : List V} : ∀ {es : List ℕ}, vs.length = es.length → ∀ i : ℕ,
    (cutValues zero cut vs es).getD i zero =
      if es.getD i 0 ≤ cut then vs.getD i zero else zero := by
  induction vs with
  | nil => exact fun {es} _ i => by simp [cutValues]
  | cons v vs ih =>
    intro es hlen i
    rcases es with _ | ⟨e, es⟩
    · exact nomatch hlen
    · rcases i with _ | i
      · rfl
      · exact ih (Nat.succ.inj hlen) i

/-- What a step is to fulfil: the check is for at least the head, the head does not notice a cut
behind the bytes that are checked, and a record within the data has its fields within the data. -/
structure Headed (read : F → List B → ℕ → V × ℕ) (guard skip : ℕ) (fields : List F)
    (head : List B → ℕ → Option H) (data : List B) : Prop where
  skip_le : skip ≤ guard
  nonempty : fields ≠ []
  head_take {pos cut : ℕ} : pos + guard ≤ cut → cut ≤ data.length →
    head (data.take cut) pos = head data pos
  ends_le {pos : ℕ} : pos ≤ data.length → (readFields read fields data pos).2 ≤ data.length →
    ∀ e ∈ ends read fields data pos, e ≤ data.length

namespace Headed

variable (h : Headed read guard skip fields head data) (hread : Lenient read zero)
include h hread

/-- Such records are read as a list of records is to be.

**Proof sketch.** If the record ends before the cut, so do all of its fields, which are then read as
they were. If it does not, then the last field leads to the cut or beyond. -/
theorem steps : Steps (fieldStep read skip fields head assemble next) data guard where
  complete {pos cut s r} hpos hcut hstep hr := by
    have hskip := h.skip_le
    obtain ⟨hd, hhead, rfl⟩ := Option.map_eq_some_iff.mp hstep
    have hends := h.ends_le (by omega) (hr.trans hcut)
    have hle := (hread.ends_le_readFields fields (by omega) hends).2
    rw [fieldStep, h.head_take hpos hcut, hhead,
      hread.readFields_take_of_le fields hcut fun e he => (hle e he).trans hr]
    rfl
  cut {pos cut s r r'} hpos hcut hstep hr hrlen hstep' := by
    obtain ⟨hd, hhead, rfl⟩ := Option.map_eq_some_iff.mp hstep
    obtain ⟨hd', hhead', rfl⟩ := Option.map_eq_some_iff.mp hstep'
    exact hread.cut_le_readFields_take fields hcut ⟨_, readFields_snd_mem h.nonempty, hr⟩

/-- **The record of a cut** is no other record exactly if what is put together from the fields that
are left is not.

**Proof sketch.** If the check finds enough bytes, the head is still there, and the fields behind
the cut are read as zeros; so the record is compared with the one put together from those. -/
theorem harmlessCut_iff (hcut : cut ≤ data.length) {pos : ℕ} {s : S} {r : β × ℕ × S}
    (hstep : fieldStep read skip fields head assemble next data pos s = some r)
    (hr : r.2.1 ≤ data.length) :
    HarmlessCut (fieldStep read skip fields head assemble next) data guard cut pos s ↔
      cut < pos + guard ∨ ∀ hd ∈ head data pos,
        assemble hd s (cutValues zero cut (readFields read fields data (pos + skip)).1
            (ends read fields data (pos + skip))) =
          assemble hd s (readFields read fields data (pos + skip)).1 := by
  unfold HarmlessCut
  by_cases hfew : cut < pos + guard
  · exact iff_of_true (.inl hfew) (.inl hfew)
  · refine or_congr_right ?_
    have hskip := h.skip_le
    obtain ⟨hd, hhead, rfl⟩ := Option.map_eq_some_iff.mp hstep
    have hends := h.ends_le (by omega) hr
    have hvalues := hread.readFields_take fields hcut (by omega) hends
    rw [hstep, hhead]
    simp only [fieldStep, h.head_take (not_lt.mp hfew) hcut, hhead, hvalues, Option.map_some,
      Option.mem_some_iff, forall_eq', cutValues]

/-- **When a cut leaves a prefix** of records of a head and fields: too few bytes of the record in
which the cut falls are left, or what is put together from the fields that are left is no other
record. -/
theorem loop_take_isPrefix_iff {P : ℕ → S → Prop} (hguard : 0 < guard) (hcut : cut ≤ data.length)
    (hP : ∀ pos s hd, head data pos = some hd →
      (assemble hd s (cutValues zero cut (readFields read fields data (pos + skip)).1
            (ends read fields data (pos + skip))) =
          assemble hd s (readFields read fields data (pos + skip)).1 ↔ P pos s))
    {count pos : ℕ} {s : S}
    (hwhole : Whole (fieldStep read skip fields head assemble next) data count pos s) :
    loop cut guard (fieldStep read skip fields head assemble next (data.take cut)) count pos s <+:
        loop data.length guard (fieldStep read skip fields head assemble next data) count pos s ↔
      AtCut (fieldStep read skip fields head assemble next) data cut
        (fun pos s => cut < pos + guard ∨ P pos s) count pos s := by
  refine (Records.loop_take_isPrefix_iff (h.steps hread) hguard hcut count hwhole).trans
    (atCut_congr (fun pos s r hstep _ hr => ?_) count hwhole)
  obtain ⟨hd, hhead, -⟩ := Option.map_eq_some_iff.mp hstep
  rw [h.harmlessCut_iff hread hcut hstep hr, ← hP pos s hd hhead, hhead]
  simp only [Option.mem_some_iff, forall_eq']

end Headed

end FieldStep

end Records
