import Mathlib.Algebra.GroupWithZero.Nat
import Tdxrs.Library.Records

set_option relaxedAutoImplicit false
set_option autoImplicit false

/-!
# Writing records and reading them back

The other side of `Tdxrs.Library.Records`: a format says how a record is written, which may depend
on the records before it, and what is to be read back. If a step reads every record of a format
wherever it stands, the loop over a counted list reads the whole list back and goes on behind it.
A step asks for so many bytes before it reads, which may be more than the record at hand has, as
long as what comes after it makes up for the difference.

## Main definitions

* `Records.Format` — how records are written; `Records.Format.bytes`, `Records.Format.values` — a
  list of them, and what is read back.
* `Records.Format.Along` — a property of every record of a list, with what is carried on to it.
* `Records.Format.Reads` — a step reads the records of a format.
* `Records.writeFields` — fields, one after the other.

## Main results

* `Records.Format.loopM_append` — the loop reads a list of records and goes on behind it.
* `Records.Format.loopM_bytes` — the loop reads a list of records.
* `Records.Format.take_bytes` — the part of a list of records of one length.
-/

namespace Records

/-- How a record is written after others: `next` is what is carried on from record to record. -/
structure Format (S R B : Type*) where
  write : S → R → List B
  next : S → R → S

namespace Format

section Lists

variable {S R B β : Type*} (F : Format S R B)

/-- The bytes of a list of records. -/
def bytes : S → List R → List B
  | _, [] => []
  | s, r :: rs => F.write s r ++ bytes (F.next s r) rs

/-- What is to be read back of a list of records, if `value` is what is to be read back of each. -/
def values (value : S → R → β) : S → List R → List β
  | _, [] => []
  | s, r :: rs => value s r :: values value (F.next s r) rs

/-- The property holds of every record of a list, with what is carried on to it. -/
def Along (P : S → R → Prop) : S → List R → Prop
  | _, [] => True
  | s, r :: rs => P s r ∧ Along P (F.next s r) rs

variable {F} {P : S → R → Prop} {value : S → R → β}

lemma bytes_append (s : S) (rs rs' : List R) :
    F.bytes s (rs ++ rs') = F.bytes s rs ++ F.bytes (rs.foldl F.next s) rs' := by
  induction rs generalizing s with
  | nil => rfl
  | cons r rs ih => rw [List.cons_append, bytes, bytes, ih, List.append_assoc, List.foldl_cons]

/-- There are no more records than bytes, if every record has one. -/
lemma le_length_bytes_of_pos (hpos : ∀ s r, 0 < (F.write s r).length) (rs : List R) :
    ∀ s : S, rs.length ≤ (F.bytes s rs).length := by
  induction rs with
  | nil => exact fun _ => le_rfl
  | cons r rs ih =>
    intro s
    have hfirst := hpos s r
    have hrest := ih (F.next s r)
    rw [List.length_cons, bytes, List.length_append]
    omega

lemma along_append (s : S) (rs rs' : List R) :
    F.Along P s (rs ++ rs') ↔ F.Along P s rs ∧ F.Along P (rs.foldl F.next s) rs' := by
  induction rs generalizing s with
  | nil => exact (and_iff_right trivial).symm
  | cons r rs ih => rw [List.cons_append, Along, Along, ih, List.foldl_cons, and_assoc]

/-- A property of the records themselves. -/
lemma along_of_forall {Q : R → Prop} (hP : ∀ s r, Q r → P s r) {rs : List R} (h : ∀ r ∈ rs, Q r) :
    ∀ s : S, F.Along P s rs := by
  induction rs with
  | nil => exact fun _ => trivial
  | cons r rs ih =>
    obtain ⟨hr, hrs⟩ := List.forall_mem_cons.mp h
    exact fun s => ⟨hP s r hr, ih hrs _⟩

/-- Where nothing is carried on, the values are those of the records. -/
lemma values_eq_map (f : R → β) (rs : List R) :
    ∀ s : S, F.values (fun _ r => f r) s rs = rs.map f := by
  induction rs with
  | nil => exact fun _ => rfl
  | cons r rs ih => exact fun s => congrArg (f r :: ·) (ih _)

end Lists

/-! ## Reading a list of records -/

section Reading

variable {m : Type → Type} [Monad m] {S R B : Type*} {β T : Type} {F : Format S R B}
  {value : S → R → β} {P : S → R → Prop} {emb : S → T} {data : List B}
  {step : ℕ → T → m (Option (β × ℕ × T))} {guard : ℕ}

/-- The step reads every record of the format for which `P` holds, wherever it stands: `value` is
what it reads, and `emb` how it represents what is carried on. -/
def Reads (F : Format S R B) (value : S → R → β) (P : S → R → Prop) (emb : S → T) (data : List B)
    (step : ℕ → T → m (Option (β × ℕ × T))) : Prop :=
  ∀ ⦃pos : ℕ⦄ ⦃s : S⦄ ⦃r : R⦄ ⦃rest : List B⦄, P s r → data.drop pos = F.write s r ++ rest →
    step pos (emb s) = pure (some (value s r, pos + (F.write s r).length, emb (F.next s r)))

/-- The bytes of a list do not end before what every record of it has. -/
lemma le_length_bytes {slack : ℕ} (hslack : ∀ s r, P s r → slack ≤ (F.write s r).length)
    {s : S} {rs : List R} (hP : F.Along P s rs) {rest : List B} (hrest : slack ≤ rest.length) :
    slack ≤ (F.bytes s rs ++ rest).length := by
  cases rs with
  | nil => exact hrest
  | cons r rs =>
    have hr := hslack s r hP.1
    simp only [bytes, List.length_append]
    omega

/-- **The loop reads a list of records** and goes on behind it. The check of a record may ask for
`slack` bytes more than the record has: those of the next record, or of what comes after the list.

**Proof sketch.** Induction on the records. What follows a record, be it others or the rest, has at
least `slack` bytes, so that the check is passed; the step then reads the record and ends where the
next one begins. -/
theorem loopM_append [LawfulMonad m] (slack : ℕ) (hreads : Reads F value P emb data step)
    (hguard : ∀ s r, P s r → guard ≤ (F.write s r).length + slack)
    (hslack : ∀ s r, P s r → slack ≤ (F.write s r).length)
    (hpos : ∀ s r, P s r → 0 < (F.write s r).length) {rs : List R} (more : ℕ) {rest : List B}
    (hrest : slack ≤ rest.length) : ∀ {pos : ℕ} {s : S}, F.Along P s rs →
      data.drop pos = F.bytes s rs ++ rest →
      loopM data.length guard step (rs.length + more) pos (emb s) =
        loopM data.length guard step more (pos + (F.bytes s rs).length)
            (emb (rs.foldl F.next s)) >>=
          fun bs => pure (F.values value s rs ++ bs) := by
  induction rs with
  | nil =>
    intro pos s _ _
    simp only [List.length_nil, Nat.zero_add, bytes, Nat.add_zero, values, List.nil_append,
      bind_pure, List.foldl_nil]
  | cons r rs ih =>
    intro pos s hP hdrop
    rw [bytes, List.append_assoc] at hdrop
    have hnext : data.drop (pos + (F.write s r).length) = F.bytes (F.next s r) rs ++ rest := by
      rw [← List.drop_drop, hdrop, List.drop_left]
    have hlength : pos + (F.write s r).length + (F.bytes (F.next s r) rs ++ rest).length =
        data.length := by
      have hbytes := congrArg List.length hdrop
      have hr := hpos s r hP.1
      rw [List.length_drop, List.length_append] at hbytes
      omega
    have hroom : ¬ data.length < pos + guard := by
      have hr := hguard s r hP.1
      have hrs := le_length_bytes hslack hP.2 hrest
      omega
    rw [List.length_cons, Nat.add_right_comm, loopM, if_neg hroom, hreads hP.1 hdrop, pure_bind]
    simp only [ih hP.2 hnext, bind_assoc, pure_bind, bytes, List.length_append, Nat.add_assoc,
      values, List.cons_append, List.foldl_cons]

/-- Behind the records the loop stops by itself. -/
lemma loopM_of_lt {pos : ℕ} (h : data.length < pos + guard) (count : ℕ) (s : T) :
    loopM data.length guard step count pos s = pure [] := by
  cases count with
  | zero => rfl
  | succ count => exact if_pos h

/-- **The loop reads a list of records**, if each of them has as many bytes as the check asks for,
and stops if fewer bytes come after them.

**Proof sketch.** The records are read one after the other. What is left for the loop ends at once:
it has no rounds left, or finds fewer bytes than the check asks for. -/
theorem loopM_bytes [LawfulMonad m] (hreads : Reads F value P emb data step) (hzero : 0 < guard)
    (hguard : ∀ s r, P s r → guard ≤ (F.write s r).length) {rs : List R} (more : ℕ)
    {rest : List B} (hstop : more = 0 ∨ rest.length < guard) {pos : ℕ} {s : S}
    (hP : F.Along P s rs) (hdrop : data.drop pos = F.bytes s rs ++ rest) :
    loopM data.length guard step (rs.length + more) pos (emb s) = pure (F.values value s rs) := by
  have hlist := loopM_append 0 hreads hguard (fun _ _ _ => Nat.zero_le _)
    (fun s r hr => hzero.trans_le (hguard s r hr)) more (Nat.zero_le _) hP hdrop
  have hmore : loopM data.length guard step more (pos + (F.bytes s rs).length)
      (emb (rs.foldl F.next s)) = pure [] := by
    rcases hstop with rfl | hstop
    · rfl
    · refine loopM_of_lt ?_ more _
      have hlength := congrArg List.length hdrop
      rw [List.length_drop, List.length_append] at hlength
      omega
  rw [hlist, hmore, pure_bind, List.append_nil]

end Reading

/-! ## Records of one length -/

section OneLength

variable {S R B : Type*} {F : Format S R B} {w : ℕ}

lemma length_bytes (hw : ∀ s r, (F.write s r).length = w) (rs : List R) :
    ∀ s : S, (F.bytes s rs).length = w * rs.length := by
  induction rs with
  | nil => exact fun _ => rfl
  | cons r rs ih =>
    intro s
    rw [bytes, List.length_append, hw, ih, List.length_cons, Nat.mul_succ, Nat.add_comm]

/-- **A part of a list of records** of one length is the records that are complete in it, and fewer
bytes than a record has.

**Proof sketch.** Induction on the records. If fewer bytes are taken than the first record has, no
record is complete; otherwise the first record is complete, and the induction hypothesis takes `w`
bytes fewer from the rest. -/
lemma take_bytes (hw : ∀ s r, (F.write s r).length = w) (hzero : 0 < w) (rs : List R) (s : S)
    (n : ℕ) : ∃ rest : List B, rest.length < w ∧
      (F.bytes s rs).take n = F.bytes s (rs.take (n / w)) ++ rest := by
  induction rs generalizing s n with
  | nil => exact ⟨[], hzero, by rw [List.take_nil]; simp [bytes]⟩
  | cons r rs ih =>
    rcases Nat.lt_or_ge n w with hlt | hge
    · refine ⟨(F.write s r).take n, (List.length_take_le _ _).trans_lt hlt, ?_⟩
      rw [Nat.div_eq_of_lt hlt, List.take_zero, bytes, bytes, List.nil_append,
        List.take_append_of_le_length (by rw [hw]; exact hlt.le)]
    · obtain ⟨rest, hrest, htake⟩ := ih (F.next s r) (n - w)
      refine ⟨rest, hrest, ?_⟩
      have hdiv : n / w = (n - w) / w + 1 := by
        rw [Nat.div_eq_sub_div hzero hge]
      rw [hdiv, List.take_succ_cons, bytes, bytes, List.append_assoc, ← htake, List.take_append,
        hw, List.take_of_length_le (by rw [hw]; exact hge)]

end OneLength

end Format

/-! ## Fields -/

section Fields

variable {F W B : Type*} (put : F → W → List B)

/-- Fields are written one after the other. -/
def writeFields : List F → List W → List B
  | f :: fs, w :: ws => put f w ++ writeFields fs ws
  | _, _ => []

variable {put}

/-- What is written for every field has at least so many bytes. -/
lemma le_length_writeFields {least : F → ℕ} (hleast : ∀ f w, least f ≤ (put f w).length) :
    ∀ {fs : List F} {ws : List W}, fs.length = ws.length →
      (fs.map least).sum ≤ (writeFields put fs ws).length
  | [], _, _ => Nat.zero_le _
  | f :: fs, w :: ws, h => by
    have hfirst := hleast f w
    have hrest := le_length_writeFields hleast (Nat.succ.inj h)
    simp only [List.map_cons, List.sum_cons, writeFields, List.length_append]
    omega

end Fields

end Records
