import Mathlib.Data.Finmap

set_option relaxedAutoImplicit false
set_option autoImplicit false

/-!
# Maps whose entries come in any order

A hash map holds a value for each of finitely many keys. A loop over it meets its entries once each,
in an order that is not part of the map. What such a loop finds is a function of the map only if it
is the same for every order.

## Main definitions

* `MapOrder.IsOrder` — a list is an order of the entries of a map.
* `MapOrder.collect` — a map that is filled in the order of a list.
* `MapOrder.first` — what is found in the first entry that has a property.

## Main results

* `MapOrder.IsOrder.collect_eq` — a loop that collects the entries has the map again.
* `MapOrder.first_eq_iff` — when the first entry with a property does not depend on the order.
-/

namespace MapOrder

variable {K V R : Type*}

/-- A list is an order of the entries of a map. -/
def IsOrder (m : Finmap fun _ : K => V) (l : List (Σ _ : K, V)) : Prop := m.entries = l

/-- What is found in the first entry whose key has a property. -/
def first (p : K → Bool) (f : V → R) (default : R) (l : List (Σ _ : K, V)) : R :=
  ((l.find? fun e => p e.1).map fun e => f e.2).getD default

variable {m : Finmap fun _ : K => V} {l l' : List (Σ _ : K, V)} {k : K} {v : V}

/-- There is an order. -/
lemma exists_isOrder (m : Finmap fun _ : K => V) : ∃ l, IsOrder m l := by
  obtain ⟨l, hl⟩ := Quot.exists_rep m.entries
  exact ⟨l, hl.symm⟩

lemma IsOrder.of_perm (h : IsOrder m l) (hperm : l.Perm l') : IsOrder m l' :=
  h.trans (Multiset.coe_eq_coe.mpr hperm)

lemma IsOrder.nodupKeys (h : IsOrder m l) : l.NodupKeys := by
  have := m.nodupKeys
  rwa [h, Multiset.coe_nodupKeys] at this

lemma first_cons (p : K → Bool) (f : V → R) (default : R) (e : Σ _ : K, V)
    (l : List (Σ _ : K, V)) :
    first p f default (e :: l) = if p e.1 then f e.2 else first p f default l := by
  cases h : p e.1 <;> simp [first, h]

/-- What is found is in an entry, unless no entry has the property. -/
lemma first_eq (p : K → Bool) (f : V → R) (default : R) (l : List (Σ _ : K, V)) :
    (∃ e ∈ l, p e.1 ∧ first p f default l = f e.2) ∨
      (∀ e ∈ l, ¬ p e.1) ∧ first p f default l = default := by
  rw [first]
  cases hfind : l.find? fun e => p e.1 with
  | some e =>
    have hp := List.find?_some (p := fun e : Σ _ : K, V => p e.1) hfind
    exact .inl ⟨e, List.mem_of_find?_eq_some hfind, hp, rfl⟩
  | none => exact .inr ⟨fun e he => List.find?_eq_none.mp hfind e he, rfl⟩

variable [DecidableEq K]

/-- A map that is filled in the order of a list. -/
def collect (l : List (Σ _ : K, V)) (m : Finmap fun _ : K => V) : Finmap fun _ : K => V :=
  l.foldl (fun m e => m.insert e.1 e.2) m

lemma collect_cons (e : Σ _ : K, V) (l : List (Σ _ : K, V)) (m : Finmap fun _ : K => V) :
    collect (e :: l) m = collect l (m.insert e.1 e.2) := rfl

/-- The entries are those of the map. -/
lemma IsOrder.mem_iff (h : IsOrder m l) : ⟨k, v⟩ ∈ l ↔ m.lookup k = some v := by
  rw [Finmap.lookup_eq_some_iff, h, Multiset.mem_coe]

/-- What is collected for a key, from a list with no key twice.

**Proof sketch.** By induction on the list. A later entry does not change what the first one put
there, since no key comes twice. -/
lemma lookup_collect (hl : l.NodupKeys) (m : Finmap fun _ : K => V) (k : K) :
    (collect l m).lookup k = (l.dlookup k).or (m.lookup k) := by
  induction l generalizing m with
  | nil => rfl
  | cons e l ih =>
    obtain ⟨key, value⟩ := e
    have hl' := List.nodupKeys_cons.mp hl
    rw [collect_cons, ih hl'.2]
    by_cases hk : k = key
    · subst hk
      rw [Finmap.lookup_insert, List.dlookup_cons_eq, List.dlookup_eq_none.mpr hl'.1]
      rfl
    · rw [Finmap.lookup_insert_of_ne _ hk, List.dlookup_cons_ne _ _ hk]

/-- **A loop that collects the entries** has the map again. -/
theorem IsOrder.collect_eq (h : IsOrder m l) : collect l ∅ = m := by
  refine Finmap.ext_lookup fun k => ?_
  rw [lookup_collect h.nodupKeys, Finmap.lookup_empty, Option.or_none]
  refine Option.ext fun v => ?_
  rw [← h.mem_iff, ← List.mem_dlookup_iff h.nodupKeys, Option.mem_def]

/-- **When the first entry does not depend on the order**: any two entries with the property have
the same in them. Then it does not matter either whether the loop goes on.

**Proof sketch.** If the result never depends on the order, bring each of two entries to the front
of an order of its own: the loop then returns what is in it. Conversely the loop finds some entry
with the property in both orders or in none (`first_eq`), and all such entries have the same in
them. -/
theorem first_eq_iff {p : K → Bool} {f : V → R} (default : R) :
    (∀ l l', IsOrder m l → IsOrder m l' → first p f default l = first p f default l') ↔
      ∀ k v k' v', m.lookup k = some v → m.lookup k' = some v' → p k → p k' → f v = f v' := by
  constructor
  · intro h k v k' v' hk hk' hp hp'
    obtain ⟨l, hl⟩ := exists_isOrder m
    -- each of the two entries comes first in some order
    have hfront : ∀ k v, m.lookup k = some v → p k →
        ∃ l', IsOrder m l' ∧ first p f default l' = f v := by
      intro k v hk hp
      obtain ⟨s, t, rfl⟩ := List.append_of_mem (hl.mem_iff.mpr hk)
      exact ⟨_, hl.of_perm List.perm_middle, by simp [first, hp]⟩
    obtain ⟨order, horder, hv⟩ := hfront k v hk hp
    obtain ⟨order', horder', hv'⟩ := hfront k' v' hk' hp'
    rw [← hv, ← hv', h order order' horder horder']
  · intro h l l' hl hl'
    have hmem {e : Σ _ : K, V} : e ∈ l ↔ e ∈ l' := hl.mem_iff.trans hl'.mem_iff.symm
    rcases first_eq p f default l with ⟨e, he, hp, hfirst⟩ | ⟨hnone, hfirst⟩
    · rcases first_eq p f default l' with ⟨e', he', hp', hfirst'⟩ | ⟨hnone', -⟩
      · rw [hfirst, hfirst', h _ _ _ _ (hl.mem_iff.mp he) (hl'.mem_iff.mp he') hp hp']
      · exact absurd hp (hnone' e (hmem.mp he))
    · rcases first_eq p f default l' with ⟨e', he', hp', -⟩ | ⟨-, hfirst'⟩
      · exact absurd hp' (hnone e' (hmem.mpr he'))
      · rw [hfirst, hfirst']

end MapOrder
