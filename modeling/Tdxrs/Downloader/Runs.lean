import Tdxrs.Downloader.Download
import Tdxrs.Downloader.LastDate
import Tdxrs.Library.Window

set_option relaxedAutoImplicit false
set_option autoImplicit false

/-!
# Runs of a download

A download from servers that answer by the slices of a history: the paging loop ends and collects
the whole history, page by page with the newest page first, and the bars that were collected go
through the filter into the data file. The other data files stay as they are.

## Main definitions

* `Tdxrs.BarsClient.Serves` — a client whose servers answer by slices.
* `Tdxrs.newestFirst` — a history as the paging loop collects it.

## Main results

* `Tdxrs.fetchAll_serves` — the paging loop.
* `Tdxrs.downloadOne_serves` — a download of original data without a range of dates.
* `Tdxrs.storeFetched_new`, `Tdxrs.storeFetched_append` — the data files after it.
-/

namespace Tdxrs

open Window

variable {σ : Type}

/-- A client whose servers answer every request for original data of a stock by the slice of the
history that it asks for. -/
def BarsClient.Serves (client : BarsClient σ) (market : UInt8) (code : Text) (category : Category)
    (history : List SecurityBar) : Prop :=
  ∀ offset count w, ∃ w', client.getSecurityBars category.code market code offset count 0 w =
    (.ok (slice history offset count), w')

/-! ## The paging loop -/

/-- A history as the paging loop collects it: every page behind the newer ones. -/
def newestFirst (size : ℕ) (history : List SecurityBar) : List SecurityBar :=
  (pages size 0 history.length).flatMap fun r => slice history r.1 r.2

/-- **The paging loop ends with the pages of the history**, newest page first, when the fuel is
for all of them.

**Proof sketch.** Induction on the fuel. A short page, or an empty one, is the last; a full one is
put behind those before, and the next request starts one page further on, with one page less to
come. -/
theorem fetchAll_serves (request : ℕ → ℕ → σ → Except TdxError (List SecurityBar) × σ)
    {history : List SecurityBar} {size : ℕ} (hsize : 0 < size)
    (hserve : ∀ offset w, ∃ w', request offset size w = (.ok (slice history offset size), w')) :
    ∀ fuel offset all w, (history.length - offset) / size < fuel →
      ∃ w', fetchAll request size fuel offset all w =
        some (.ok (all ++ (pages size offset (history.length - offset)).flatMap
          fun r => slice history r.1 r.2), w') := by
  intro fuel
  induction fuel with
  | zero => exact fun offset all w h => absurd h (Nat.not_lt_zero _)
  | succ fuel ih =>
    intro offset all w hfuel
    obtain ⟨w', hrequest⟩ := hserve offset w
    have hlen : (slice history offset size).length = min size (history.length - offset) :=
      length_slice history offset size
    rw [fetchAll, hrequest]
    simp only
    by_cases hshort : history.length - offset < size
    · -- the last page: a short one, or none
      rw [flatMap_pages_short hshort]
      by_cases hnil : slice history offset size = []
      · rw [hnil]
        exact ⟨w', by simp⟩
      · rw [if_neg (by simpa using hnil), if_pos (by omega)]
        exact ⟨w', rfl⟩
    · have hnil : slice history offset size ≠ [] := List.ne_nil_of_length_pos (by omega)
      have hmin : min (history.length - offset) size = size := by omega
      have hrest : history.length - offset - size = history.length - (offset + size) := by omega
      rw [if_neg (by simpa using hnil), if_neg (by omega), pages_of_pos hsize (by omega), hmin,
        hrest, List.flatMap_cons, ← List.append_assoc]
      refine ih (offset + size) _ w' ?_
      have hdiv := Nat.sub_mul_div (history.length - offset) size 1
      rw [Nat.mul_one, hrest] at hdiv
      have hpos : 0 < (history.length - offset) / size := Nat.div_pos (by omega) hsize
      omega

/-- A history of at most one page is collected as it is. -/
lemma newestFirst_of_le {size : ℕ} (hsize : 0 < size) {history : List SecurityBar}
    (h : history.length ≤ size) : newestFirst size history = history :=
  (newestPages_of_le hsize (.inl h)).trans (rtake_of_le le_rfl)

/-- The first bar of a longer history is not the first one that is collected: that is the first
one of the newest page. -/
lemma getElem?_newestFirst_zero {size : ℕ} (hsize : 0 < size) {history : List SecurityBar}
    (h : size ≤ history.length) :
    (newestFirst size history)[0]? = history[history.length - size]? :=
  getElem?_newestPages_zero hsize h h

/-- Only bars of the history are collected. -/
lemma mem_of_mem_newestFirst {size : ℕ} {history : List SecurityBar} {b : SecurityBar}
    (h : b ∈ newestFirst size history) : b ∈ history := by
  obtain ⟨r, -, hr⟩ := List.mem_flatMap.mp h
  exact (slice_sublist history r.1 r.2).subset hr

/-- Something is collected of every history that is not empty. -/
lemma newestFirst_ne_nil {size : ℕ} (hsize : 0 < size) {history : List SecurityBar}
    (h : history ≠ []) : newestFirst size history ≠ [] := by
  have hpos := List.length_pos_of_ne_nil h
  rw [newestFirst, pages_of_pos hsize hpos, List.flatMap_cons]
  refine List.append_ne_nil_of_left_ne_nil ?_ _
  rw [Ne, slice_eq_nil_iff]
  omega

/-! ## One download -/

variable {codec : ParquetCodec} {client : BarsClient σ} {format : Format} {market : UInt8}
  {code : Text} {category : Category} {history : List SecurityBar}

/-- **A download of original data without a range of dates** stores the bars that the paging loop
collects. -/
theorem downloadOne_serves (hserve : client.Serves market code category history) {fuel : ℕ}
    (hfuel : history.length / 800 < fuel) (s : DownloadState σ) :
    ∃ w, downloadOne codec client ⟨format, 0⟩ market code category none none fuel s =
      some (storeFetched codec ⟨format, 0⟩ market code category none none
        (existingLastDate codec ⟨format, 0⟩ market code category s) (newestFirst 800 history)
        { s with world := w }) := by
  have hmax : category.maxPerRequest = 800 := rfl
  obtain ⟨w, hfetch⟩ := fetchAll_serves
    (fun offset count => client.getSecurityBars category.code market code offset count 0)
    (by decide : 0 < 800) (fun offset w => hserve offset 800 w) fuel 0 [] s.world hfuel
  rw [Nat.sub_zero, List.nil_append, ← newestFirst] at hfetch
  refine ⟨w, ?_⟩
  simp only [downloadOne, hmax, hfetch]

/-- The sync record leaves the data files alone. -/
@[simp] lemma updateSync_files (market : UInt8) (code category lastDate : Text)
    (s : DownloadState σ) : (updateSync market code category lastDate s).files = s.files := by
  unfold updateSync
  split <;> rfl

/-- The sync record leaves the world alone. -/
@[simp] lemma updateSync_world (market : UInt8) (code category lastDate : Text)
    (s : DownloadState σ) : (updateSync market code category lastDate s).world = s.world := by
  unfold updateSync
  split <;> rfl

/-- Storing bars makes no request.

**Proof sketch.** Through all branches: bars are chosen, a file is written and the record of the
sync is updated, and none of these makes a request. -/
lemma storeFetched_world (dl : Downloader) (startDate endDate existing : Option Text)
    (all : List SecurityBar) (s : DownloadState σ) :
    (storeFetched codec dl market code category startDate endDate existing all s).2.world =
      s.world := by
  unfold storeFetched
  split
  · rfl
  · simp only
    split
    · rfl
    · unfold storeBars
      simp only
      split
      · rfl
      · split
        · simp only
          split
          · rw [updateSync_world]
          · rfl
        · rfl

/-- Storing bars writes one data file. -/
lemma storeBars_files (dl : Downloader) (existing : Option Text) (bars : List SecurityBar)
    (s : DownloadState σ) :
    (storeBars codec dl market code category existing bars s).2.files =
      Function.update s.files (dataPath dl market code category)
        (writeBars codec dl.format (s.files (dataPath dl market code category)) bars
          existing.isSome).1 := by
  unfold storeBars
  simp only
  split
  · rfl
  · split
    · simp only
      split
      · rw [updateSync_files]
      · rfl
    · rfl

/-- Bars that are stored are counted, unless there is an error. -/
lemma storeBars_ne_zero (dl : Downloader) (existing : Option Text) {bars : List SecurityBar}
    (hbars : bars ≠ []) (s : DownloadState σ) :
    (storeBars codec dl market code category existing bars s).1 ≠ .ok 0 := by
  have hlen : bars.length ≠ 0 := fun h => hbars (List.length_eq_zero_iff.mp h)
  unfold storeBars
  simp only
  split
  · exact fun h => by cases h
  · split <;> simpa using hlen

/-- **Without a date in the file, all bars are stored** in a new file, if there are any.

**Proof sketch.** Without bars the call returns at once. With some, no date restricts them, so all
are written to a file that is not there, or behind no record or row of it (`writeBars_new`), and the
result is their number, which is not zero. -/
theorem storeFetched_new (codec : ParquetCodec) (all : List SecurityBar) {s : DownloadState σ}
    (hfile : all = [] ∨ format = .parquet →
      s.files (dataPath ⟨format, 0⟩ market code category) = none) :
    let result := storeFetched codec ⟨format, 0⟩ market code category none none none all s
    result.2.files = Function.update s.files (dataPath ⟨format, 0⟩ market code category)
        (downloadedFile codec format all) ∧
      (result.1 = .ok 0 ∧ result.2 = s ↔ all = []) := by
  intro result
  by_cases hall : all = []
  · have hresult : result = (.ok 0, s) := by
      show storeFetched _ _ _ _ _ _ _ _ _ _ = _
      rw [hall]
      rfl
    rw [hresult, downloadedFile, if_pos hall, ← hfile (.inl hall), Function.update_eq_self]
    exact ⟨rfl, iff_of_true ⟨rfl, rfl⟩ hall⟩
  · have hempty : ¬ all.isEmpty := by simpa using hall
    have hresult : result = storeBars codec ⟨format, 0⟩ market code category none all s := by
      show storeFetched _ _ _ _ _ _ _ _ _ _ = _
      rw [storeFetched, if_neg hempty]
      exact if_neg fun h => Bool.false_ne_true h.1
    rw [hresult, storeBars_files, downloadedFile, if_neg hall]
    refine ⟨congrArg _ (writeBars_new codec (fun hp => hfile (.inr hp)) all), ?_⟩
    exact iff_of_false (fun h => storeBars_ne_zero _ _ hall s h.1) hall

/-- **A download into a directory without the file** makes a new file of the bars that the paging
loop collects, if there are any. -/
theorem downloadOne_new (hserve : client.Serves market code category history) {fuel : ℕ}
    (hfuel : history.length / 800 < fuel) {s : DownloadState σ}
    (hnone : s.files (dataPath ⟨format, 0⟩ market code category) = none) :
    ∃ r s', downloadOne codec client ⟨format, 0⟩ market code category none none fuel s =
        some (r, s') ∧
      s'.files = Function.update s.files (dataPath ⟨format, 0⟩ market code category)
        (downloadedFile codec format (newestFirst 800 history)) := by
  obtain ⟨w, hrun⟩ := downloadOne_serves hserve hfuel s
  have hexisting : existingLastDate codec ⟨format, 0⟩ market code category s = none := by
    rw [existingLastDate, if_pos rfl, hnone]
    rfl
  refine ⟨_, _, hrun.trans (congrArg some Prod.mk.eta.symm), ?_⟩
  rw [hexisting]
  exact (storeFetched_new codec (s := { s with world := w }) _ fun _ => hnone).1

/-- **Behind a date in the file, the newer bars are stored**, if there are any.

**Proof sketch.** If no bar is newer, the call returns without writing. Otherwise the newer bars are
written behind those of the file (`writeBars_append`), and the result is their number. -/
theorem storeFetched_append (all : List SecurityBar) (c : Char) (last : Text)
    {done : List SecurityBar} {s : DownloadState σ}
    (hfile : s.files (dataPath ⟨format, 0⟩ market code category) =
      some (fileOf codec format done)) :
    let newer := all.filter fun b => c :: last < b.datePart
    let result := storeFetched codec ⟨format, 0⟩ market code category none none
      (some (c :: last)) all s
    result.2.files = Function.update s.files (dataPath ⟨format, 0⟩ market code category)
        (some (fileOf codec format (done ++ format.kept newer))) ∧
      (newer = [] → result = (.ok 0, s)) ∧ (newer ≠ [] → result.1 ≠ .ok 0) := by
  intro newer result
  have hnil : newer = [] → result = (.ok 0, s) := by
    intro hnewer
    show storeFetched _ _ _ _ _ _ _ _ _ _ = _
    unfold storeFetched
    split
    · rfl
    · exact if_pos ⟨rfl, List.isEmpty_iff.mpr hnewer⟩
  have hstore : newer ≠ [] → result =
      storeBars codec ⟨format, 0⟩ market code category (some (c :: last)) newer s := by
    intro hnewer
    have hall : ¬ all.isEmpty := by
      intro h
      exact hnewer (by rw [show newer = all.filter _ from rfl, List.isEmpty_iff.mp h]; rfl)
    show storeFetched _ _ _ _ _ _ _ _ _ _ = _
    rw [storeFetched, if_neg hall]
    exact if_neg fun h => hnewer (List.isEmpty_iff.mp h.2)
  refine ⟨?_, hnil, fun hnewer => ?_⟩
  · by_cases hnewer : newer = []
    · rw [hnil hnewer, hnewer, format.kept_nil, List.append_nil, ← hfile, Function.update_eq_self]
    · rw [hstore hnewer, storeBars_files, hfile]
      exact congrArg _ (writeBars_append codec format done newer)
  · rw [hstore hnewer]
    exact storeBars_ne_zero _ _ hnewer s

end Tdxrs
