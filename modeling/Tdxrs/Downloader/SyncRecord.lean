import Tdxrs.Downloader.Download

set_option relaxedAutoImplicit false
set_option autoImplicit false

/-!
# The sync record

`last_sync.json` of `python/tdxrs/downloader.py`: a table that has for each stock, by the name of
its market and its code, the last date of each category. A downloader loads it when it first needs
it and keeps it in memory, and `update` reads the stocks out of it.

## Main definitions

* `Tdxrs.SyncRecord.keys`, `Tdxrs.SyncRecord.categories` — the stocks of a record and the categories
  of a stock.
* `Tdxrs.SyncRecord.Within` — a record has all entries of another one.
* `Tdxrs.DownloadState.record` — the record that a download goes on from.
* `Tdxrs.syncCodesByMarket` — the stocks as `update` reads them.

## Main results

* `Tdxrs.lookup_setEntry` — an entry that is set.
* `Tdxrs.updateSync_spec` — what becomes of the record when a stock is recorded.
* `Tdxrs.mem_syncCodesByMarket` — a stock that is recorded is read.
-/

namespace Tdxrs

/-! ## Tables -/

section Tables

variable {α : Type} {table : List (Text × α)} {key key' : Text} {value : α}

lemma lookup_cons_ite :
    ((key, value) :: table).lookup key' = if key' = key then some value else table.lookup key' := by
  rw [List.lookup_cons]
  by_cases hkey : key' = key
  · rw [if_pos hkey, beq_iff_eq.mpr hkey]
  · rw [if_neg hkey, beq_eq_false_iff_ne.mpr hkey]

/-- An entry that is replaced in its place.

**Proof sketch.** By induction on the table, comparing the key of its first entry with the one that
is replaced and with the one that is looked up. -/
lemma lookup_replace : (table.map fun entry => if entry.1 = key then (key, value) else entry).lookup
    key' = if key' = key then (table.lookup key).map fun _ => value else table.lookup key' := by
  induction table with
  | nil => simp
  | cons entry table ih =>
    obtain ⟨name, old⟩ := entry
    by_cases hname : name = key
    · subst hname
      rw [List.map_cons, if_pos rfl, lookup_cons_ite, ih, List.lookup_cons_self, lookup_cons_ite]
      split <;> rfl
    · rw [List.map_cons, if_neg hname, lookup_cons_ite, lookup_cons_ite, lookup_cons_ite, ih,
        if_neg (Ne.symm hname)]
      by_cases hkey : key' = key
      · rw [if_pos hkey, if_pos hkey, if_neg (hkey ▸ Ne.symm hname)]
      · rw [if_neg hkey, if_neg hkey]

/-- **An entry that is set.**

**Proof sketch.** A key that is there has its value replaced (`lookup_replace`); one that is not is
put at the end, where it is found exactly for its own key. -/
lemma lookup_setEntry :
    (setEntry table key value).lookup key' =
      if key' = key then some value else table.lookup key' := by
  unfold setEntry
  split
  · rename_i hthere
    obtain ⟨entry, hentry, hkey⟩ := List.any_eq_true.mp hthere
    obtain ⟨old, hold⟩ := Option.isSome_iff_exists.mp
      (List.lookup_isSome_iff.mpr ⟨entry, hentry, beq_iff_eq.mpr (of_decide_eq_true hkey).symm⟩)
    rw [lookup_replace, hold, Option.map_some]
  · rename_i hnew
    rw [List.lookup_append, lookup_cons_ite, List.lookup_nil]
    split
    · rename_i hkey
      have hnone : table.lookup key' = none := by
        refine List.lookup_eq_none_iff.mpr fun entry hentry => bne_iff_ne.mpr fun hsame => hnew ?_
        exact List.any_eq_true.mpr ⟨entry, hentry, decide_eq_true (hsame.symm.trans hkey)⟩
      rw [hnone, Option.none_or]
    · exact Option.or_none

/-- The keys of a table are those that have an entry. -/
lemma mem_keys_iff : key ∈ table.map Prod.fst ↔ (table.lookup key).isSome = true := by
  rw [List.lookup_isSome_iff, List.mem_map]
  exact exists_congr fun entry => and_congr_right fun _ => by rw [beq_iff_eq, eq_comm]

/-- The keys of a table in which an entry is set. -/
lemma mem_keys_setEntry :
    key' ∈ (setEntry table key value).map Prod.fst ↔ key' = key ∨ key' ∈ table.map Prod.fst := by
  rw [mem_keys_iff, mem_keys_iff, lookup_setEntry]
  split
  · exact iff_of_true rfl (.inl ‹_›)
  · exact (or_iff_right ‹_›).symm

end Tables

/-! ## Records -/

namespace SyncRecord

/-- The stocks of a record. -/
def keys (sync : SyncRecord) : List Text := sync.map Prod.fst

/-- The categories of a stock. -/
def categories (sync : SyncRecord) (key : Text) : List Text :=
  ((sync.lookup key).getD []).map Prod.fst

/-- Every stock of the first record is in the second one, with all its categories. -/
def Within (a b : SyncRecord) : Prop :=
  ∀ key ∈ keys a, key ∈ keys b ∧ ∀ category ∈ categories a key, category ∈ categories b key

instance (a b : SyncRecord) : Decidable (Within a b) :=
  inferInstanceAs (Decidable (∀ key ∈ keys a, _))

variable {a b c : SyncRecord} {key category lastDate : Text}

lemma Within.refl (a : SyncRecord) : Within a a := fun _ hkey => ⟨hkey, fun _ h => h⟩

lemma Within.trans (hab : Within a b) (hbc : Within b c) : Within a c := fun key hkey =>
  ⟨(hbc key (hab key hkey).1).1, fun category h =>
    (hbc key (hab key hkey).1).2 category ((hab key hkey).2 category h)⟩

/-- The stocks of the first record are in the second one. -/
lemma Within.keys (hab : Within a b) : ∀ key ∈ SyncRecord.keys a, key ∈ SyncRecord.keys b :=
  fun key hkey => (hab key hkey).1

lemma within_nil (b : SyncRecord) : Within [] b := fun _ hkey => absurd hkey List.not_mem_nil

/-- Nothing but the empty record is within the empty record. -/
lemma Within.eq_nil (h : Within a []) : a = [] := by
  rcases a with _ | ⟨entry, a⟩
  · rfl
  · exact absurd (h entry.1 List.mem_cons_self).1 List.not_mem_nil

/-- The record with the last date of a category of a stock. -/
def setDate (sync : SyncRecord) (key category lastDate : Text) : SyncRecord :=
  setEntry sync key (setEntry ((sync.lookup key).getD []) category lastDate)

/-- A date that is set takes no entry away. -/
lemma within_setDate (sync : SyncRecord) (key category lastDate : Text) :
    Within sync (setDate sync key category lastDate) := by
  intro other hother
  refine ⟨mem_keys_setEntry.mpr (.inr hother), fun cat hcat => ?_⟩
  rw [categories, setDate, lookup_setEntry]
  split
  · rename_i hsame
    rw [categories, hsame] at hcat
    exact mem_keys_setEntry.mpr (.inr hcat)
  · exact hcat

/-- The stock is in the record then. -/
lemma mem_keys_setDate (sync : SyncRecord) (key category lastDate : Text) :
    key ∈ keys (setDate sync key category lastDate) :=
  mem_keys_setEntry.mpr (.inl rfl)

end SyncRecord

/-! ## The record of a downloader -/

section Updates

variable {σ : Type} (s : DownloadState σ)

/-- The record in the file. -/
def DownloadState.savedRecord : SyncRecord := s.lastSync.getD []

/-- The record that a download goes on from: that in memory, or else that in the file. An empty
record in memory counts as none. -/
def DownloadState.record : SyncRecord :=
  match s.syncData with
  | some (entry :: sync) => entry :: sync
  | _ => s.savedRecord

/-- The record in memory, if there is one, has all entries of the one in the file. -/
def DownloadState.MemoryHolds : Prop := ∀ sync ∈ s.syncData, SyncRecord.Within s.savedRecord sync

variable {s}

/-- A record in memory that has all entries is what a download goes on from. -/
lemma DownloadState.MemoryHolds.record_eq (h : s.MemoryHolds) {sync : SyncRecord}
    (hsync : s.syncData = some sync) : s.record = sync := by
  have hwithin := h sync hsync
  rcases sync with _ | ⟨entry, sync⟩ <;> rw [record, hsync]
  exact hwithin.eq_nil

/-- What a download goes on from has all entries then. -/
lemma DownloadState.MemoryHolds.within (h : s.MemoryHolds) :
    SyncRecord.Within s.savedRecord s.record := by
  rcases hsync : s.syncData with _ | sync
  · rw [record, hsync]
    exact .refl _
  · rw [h.record_eq hsync]
    exact h sync hsync

/-- **What becomes of the record** when a stock is recorded: the date is set in it, and the file
stays as it was or gets the new record. -/
lemma updateSync_spec (s : DownloadState σ) (market : UInt8) (code category lastDate : Text) :
    (updateSync market code category lastDate s).syncData =
        some (s.record.setDate (marketDir market ++ '/' :: code) category lastDate) ∧
      ((updateSync market code category lastDate s).lastSync = s.lastSync ∨
        (updateSync market code category lastDate s).lastSync =
          some (s.record.setDate (marketDir market ++ '/' :: code) category lastDate)) := by
  refine ⟨rfl, ?_⟩
  by_cases hflush : (s.syncCounter + 1) % 100 = 0
  · exact .inr (if_pos hflush)
  · exact .inl (if_neg hflush)

end Updates

/-! ## The stocks that are updated -/

/-- One more stock for its market. A key that is not of two parts is passed over. -/
def addSyncCode (byMarket : List (Text × List Text)) (key : Text) : List (Text × List Text) :=
  match key.splitOn '/' with
  | [market, code] => setEntry byMarket market ((byMarket.lookup market).getD [] ++ [code])
  | _ => byMarket

/-- The stocks of a record by their markets. -/
def syncCodesByMarket (sync : SyncRecord) : List (Text × List Text) :=
  (SyncRecord.keys sync).foldl addSyncCode []

/-- The key of a stock is two parts if there is no other slash. -/
lemma splitOn_key {market code : Text} (hmarket : '/' ∉ market) (hcode : '/' ∉ code) :
    (market ++ '/' :: code).splitOn '/' = [market, code] := by
  have hne : ∀ {text : Text}, '/' ∉ text → ∀ c ∈ text, (c == '/') = false := fun htext c hc =>
    beq_eq_false_iff_ne.mpr fun heq => htext (heq ▸ hc)
  rw [List.splitOn_eq_splitOnP,
    List.splitOnP_append_cons_of_forall_mem (hne hmarket) '/' (beq_self_eq_true _),
    List.splitOnP_eq_singleton (hne hcode)]

/-- A stock that has been read stays. -/
lemma mem_addSyncCode {byMarket : List (Text × List Text)} {market code : Text} (key : Text)
    (h : code ∈ (byMarket.lookup market).getD []) :
    code ∈ ((addSyncCode byMarket key).lookup market).getD [] := by
  unfold addSyncCode
  split
  · rw [lookup_setEntry]
    split
    · rename_i hsame
      rw [Option.getD_some, ← hsame]
      exact List.mem_append_left _ h
    · exact h
  · exact h

/-- **A stock that is recorded is read.**

**Proof sketch.** Induction on the keys that are left to read: a code that is in the table stays in
it (`mem_addSyncCode`), and the key of the stock, which has one slash only, puts the code under its
market. -/
lemma mem_syncCodesByMarket {sync : SyncRecord} {market code : Text} (hmarket : '/' ∉ market)
    (hcode : '/' ∉ code) (hkey : market ++ '/' :: code ∈ SyncRecord.keys sync) :
    code ∈ ((syncCodesByMarket sync).lookup market).getD [] := by
  have hread : ∀ (keys : List Text) (byMarket : List (Text × List Text)),
      code ∈ (byMarket.lookup market).getD [] ∨ market ++ '/' :: code ∈ keys →
        code ∈ ((keys.foldl addSyncCode byMarket).lookup market).getD [] := by
    intro keys
    induction keys with
    | nil => exact fun _ h => h.resolve_right List.not_mem_nil
    | cons key keys ih =>
      rintro byMarket (hthere | hkey)
      · exact ih _ (.inl (mem_addSyncCode key hthere))
      · refine ih _ ((List.mem_cons.mp hkey).imp ?_ id)
        rintro rfl
        rw [addSyncCode, splitOn_key hmarket hcode]
        simp only [lookup_setEntry, if_true, Option.getD_some]
        exact List.mem_append_right _ (List.mem_singleton_self _)
  exact hread _ [] (.inr hkey)

end Tdxrs
