import Mathlib.Data.List.Forall2
import Tdxrs.Library.LittleEndian

set_option relaxedAutoImplicit false
set_option autoImplicit false

/-!
# Files of records of one layout

A file that is a sequence of records, each of the same little-endian numbers at the same places,
without a header and without a count: the length of the file says how many records there are.
Every byte string of a length that the size of a record divides is such a file, and of one list of
records only.

## Main definitions

* `FixedRecords.write`, `FixedRecords.read` — a record of numbers of the widths of a layout.
* `FixedRecords.file`, `FixedRecords.records` — records one after the other, and read back.
* `FixedRecords.IsFile` — a byte string is the file of records whose numbers fit.

## Main results

* `FixedRecords.isFile_iff` — which records a byte string is the file of.
* `FixedRecords.exists_isFile_iff` — which byte strings are files.
* `FixedRecords.getD_read` — a number of a record, read at its place.
* `FixedRecords.checked_eq_ok_iff` — a reader that checks the length of a file.
-/

namespace FixedRecords

open LittleEndian

/-- Numbers of the widths of a layout, one after the other. -/
def write : List ℕ → List ℕ → List UInt8
  | w :: layout, n :: r => toLE w n ++ write layout r
  | _, _ => []

/-- The numbers at the places of a layout. -/
def read : List ℕ → List UInt8 → List ℕ
  | [], _ => []
  | w :: layout, data => ofLE (data.take w) :: read layout (data.drop w)

/-- The numbers fit the widths of a layout. -/
def Fits (layout r : List ℕ) : Prop := List.Forall₂ (fun w n => n < 256 ^ w) layout r

/-- Records one after the other. -/
def file (layout : List ℕ) (rs : List (List ℕ)) : List UInt8 := rs.flatMap (write layout)

/-- As many records as there are whole ones in a byte string. -/
def records (layout : List ℕ) (data : List UInt8) : List (List ℕ) :=
  (List.range (data.length / layout.sum)).map fun i => read layout (data.drop (i * layout.sum))

/-- The byte string is the file of records whose numbers fit. -/
def IsFile (layout : List ℕ) (data : List UInt8) (rs : List (List ℕ)) : Prop :=
  (∀ r ∈ rs, Fits layout r) ∧ file layout rs = data

variable {layout r : List ℕ} {rs : List (List ℕ)} {data : List UInt8}

/-! ## One record -/

/-- A record is as long as its layout says. -/
lemma length_write (h : Fits layout r) : (write layout r).length = layout.sum := by
  induction h with
  | nil => rfl
  | cons _ _ ih => rw [write, List.length_append, length_toLE, ih, List.sum_cons]

/-- A record is read back from the front of a byte string. -/
lemma read_write_append (h : Fits layout r) (rest : List UInt8) :
    read layout (write layout r ++ rest) = r := by
  induction h with
  | nil => rfl
  | cons hn _ ih =>
    rw [write, read, List.append_assoc, List.take_left' (length_toLE _ _),
      List.drop_left' (length_toLE _ _), ofLE_toLE, Nat.mod_eq_of_lt hn, ih]

/-- What is read fits. -/
lemma fits_read (layout : List ℕ) (data : List UInt8) : Fits layout (read layout data) := by
  induction layout generalizing data with
  | nil => exact .nil
  | cons w layout ih =>
    refine .cons ((ofLE_lt _).trans_le ?_) (ih _)
    exact Nat.pow_le_pow_right (by decide) (List.length_take_le _ _)

/-- A number that fits is below the power of its width. -/
lemma getD_lt (h : Fits layout r) {k : ℕ} (hk : k < layout.length) :
    r.getD k 0 < 256 ^ layout.getD k 0 := by
  induction h generalizing k with
  | nil => exact absurd hk (Nat.not_lt_zero _)
  | cons hn _ ih =>
    cases k with
    | zero => exact hn
    | succ k => exact ih (Nat.lt_of_succ_lt_succ hk)

/-- What is read, written again, is the bytes that it was read from.

**Proof sketch.** By induction on the layout: the first field, written again, is its own bytes, and
the rest is read from the bytes behind it. -/
lemma write_read (h : layout.sum ≤ data.length) :
    write layout (read layout data) = data.take layout.sum := by
  induction layout generalizing data with
  | nil => rfl
  | cons w layout ih =>
    rw [List.sum_cons] at h
    have hw : (data.take w).length = w := List.length_take_of_le (by omega)
    have hrest : layout.sum ≤ (data.drop w).length := by
      rw [List.length_drop]
      omega
    have hhead := toLE_ofLE (data.take w)
    rw [hw] at hhead
    rw [read, write, hhead, ih hrest, List.sum_cons, List.take_add]

/-- A number of a record is read at its place. -/
theorem getD_read {k : ℕ} (h : k < layout.length) :
    (read layout data).getD k 0 = field data (layout.take k).sum (layout.getD k 0) := by
  induction layout generalizing data k with
  | nil => exact absurd h (Nat.not_lt_zero _)
  | cons w layout ih =>
    cases k with
    | zero => rfl
    | succ k =>
      rw [read, List.getD_cons_succ, List.getD_cons_succ, ih (Nat.lt_of_succ_lt_succ h),
        List.take_succ_cons, List.sum_cons, field, field, List.drop_drop]

/-! ## Files -/

/-- Behind the first record come those of the rest. -/
lemma records_eq_cons (hpos : 0 < layout.sum) (h : layout.sum ≤ data.length) :
    records layout data = read layout data :: records layout (data.drop layout.sum) := by
  have hcount : data.length / layout.sum = (data.drop layout.sum).length / layout.sum + 1 := by
    rw [List.length_drop, ← Nat.div_eq_sub_div hpos h]
  rw [records, hcount, List.range_succ_eq_map, List.map_cons, List.map_map, Nat.zero_mul,
    List.drop_zero, records]
  refine congrArg _ (List.map_congr_left fun i _ => ?_)
  rw [Function.comp_apply, List.drop_drop, Nat.succ_mul, Nat.add_comm]

/-- The length of a file. -/
lemma length_file (h : ∀ r ∈ rs, Fits layout r) :
    (file layout rs).length = rs.length * layout.sum := by
  induction rs with
  | nil => rw [file, List.flatMap_nil, List.length_nil, List.length_nil, Nat.zero_mul]
  | cons r rs ih =>
    obtain ⟨hr, hrs⟩ := List.forall_mem_cons.mp h
    have hrest := ih hrs
    rw [file] at hrest
    rw [file, List.flatMap_cons, List.length_append, length_write hr, hrest, List.length_cons,
      Nat.succ_mul, Nat.add_comm]

/-- The records of a file are read back. -/
lemma records_file (hpos : 0 < layout.sum) (h : ∀ r ∈ rs, Fits layout r) :
    records layout (file layout rs) = rs := by
  induction rs with
  | nil => rw [file, List.flatMap_nil, records, List.length_nil, Nat.zero_div]; rfl
  | cons r rs ih =>
    obtain ⟨hr, hrs⟩ := List.forall_mem_cons.mp h
    have hlen : layout.sum ≤ (file layout (r :: rs)).length := by
      rw [length_file h, List.length_cons, Nat.succ_mul]
      exact Nat.le_add_left _ _
    rw [records_eq_cons hpos hlen, file, List.flatMap_cons, read_write_append hr,
      List.drop_left' (length_write hr)]
    exact congrArg _ (ih hrs)

/-- The file of what is read is the byte string, if that has whole records only.

**Proof sketch.** By induction on the number of records, taking the first one off the front. -/
lemma file_records (hpos : 0 < layout.sum) {n : ℕ} (h : data.length = n * layout.sum) :
    file layout (records layout data) = data := by
  induction n generalizing data with
  | zero =>
    obtain rfl := List.length_eq_zero_iff.mp (h.trans (Nat.zero_mul _))
    exact congrArg (file layout) (records_file hpos (List.forall_mem_nil _))
  | succ n ih =>
    rw [Nat.succ_mul] at h
    have hlen : layout.sum ≤ data.length := by omega
    have hrest : (data.drop layout.sum).length = n * layout.sum := by
      rw [List.length_drop]
      omega
    rw [records_eq_cons hpos hlen, file, List.flatMap_cons, write_read hlen]
    exact (congrArg _ (ih hrest)).trans (List.take_append_drop _ _)

/-- **The records of a byte string**: it is the file of one list of records at most, and that is
what is read. -/
theorem isFile_iff (hpos : 0 < layout.sum) :
    IsFile layout data rs ↔ data.length % layout.sum = 0 ∧ records layout data = rs := by
  constructor
  · rintro ⟨hfits, rfl⟩
    exact ⟨by rw [length_file hfits, Nat.mul_mod_left], records_file hpos hfits⟩
  · rintro ⟨hmod, rfl⟩
    refine ⟨?_, file_records hpos (Nat.div_mul_cancel (Nat.dvd_of_mod_eq_zero hmod)).symm⟩
    intro r hr
    obtain ⟨i, -, rfl⟩ := List.mem_map.mp hr
    exact fits_read layout _

/-- **The byte strings that are files** are those of whole records. -/
theorem exists_isFile_iff (hpos : 0 < layout.sum) :
    (∃ rs, IsFile layout data rs) ↔ data.length % layout.sum = 0 := by
  simp only [isFile_iff hpos, exists_and_left, exists_eq', and_true]

/-- Records that are read one after the other by their positions. -/
lemma map_range_eq {β : Type*} {bar : ℕ → β} {value : List ℕ → β}
    (hbar : ∀ pos, pos + layout.sum ≤ data.length → bar pos = value (read layout (data.drop pos))) :
    (List.range (data.length / layout.sum)).map (fun i => bar (i * layout.sum)) =
      (records layout data).map value := by
  rw [records, List.map_map]
  refine List.map_congr_left fun i hi => hbar _ ?_
  have hstep := Nat.mul_le_mul_right layout.sum (Nat.succ_le_of_lt (List.mem_range.mp hi))
  rw [Nat.succ_mul] at hstep
  exact hstep.trans (Nat.div_mul_le_self _ _)

/-- **A reader of files**, which checks the length and then reads as many records as there are:
what it returns are the records that the byte string is the file of, and it fails otherwise. -/
theorem checked_eq_ok_iff {ε β : Type*} {bar : ℕ → β} {value : List ℕ → β} {e : ε} {bars : List β}
    (hpos : 0 < layout.sum)
    (hbar : ∀ pos, pos + layout.sum ≤ data.length → bar pos = value (read layout (data.drop pos))) :
    (if data.length % layout.sum ≠ 0 then .error e
      else .ok ((List.range (data.length / layout.sum)).map fun i => bar (i * layout.sum))) =
        (.ok bars : Except ε (List β)) ↔
      ∃ rs, IsFile layout data rs ∧ bars = rs.map value := by
  simp only [isFile_iff hpos, and_assoc, exists_and_left, exists_eq_left']
  by_cases hmod : data.length % layout.sum = 0
  · rw [if_neg (not_not_intro hmod), map_range_eq hbar, and_iff_right hmod]
    exact ⟨fun h => (Except.ok.inj h).symm, fun h => congrArg _ h.symm⟩
  · rw [if_pos hmod]
    exact iff_of_false (fun h => by cases h) (fun h => hmod h.1)

end FixedRecords
