import Mathlib.Data.List.Nodup
import Mathlib.Tactic

/-!
# Insertion-ordered dictionaries

The entries are kept in insertion order: writing an absent key appends it,
writing a present key keeps its place. The field `nodup` states that no key
occurs twice, so a dictionary that violates this cannot be built.
-/

namespace Switchboard

universe u v

/-- An insertion-ordered dictionary with pairwise distinct keys. -/
structure Dict (κ : Type u) (ν : Type v) where
  entries : List (κ × ν)
  nodup : (entries.map Prod.fst).Nodup

namespace Dict

variable {κ : Type u} {ν : Type v}

@[ext] theorem ext {d e : Dict κ ν} (h : d.entries = e.entries) : d = e := by
  cases d; cases e; cases h; rfl

def keys (d : Dict κ ν) : List κ := d.entries.map Prod.fst

def values (d : Dict κ ν) : List ν := d.entries.map Prod.snd

def empty : Dict κ ν := ⟨[], by simp⟩

instance : EmptyCollection (Dict κ ν) := ⟨empty⟩

instance [DecidableEq κ] [DecidableEq ν] : DecidableEq (Dict κ ν) := fun d e =>
  decidable_of_iff (d.entries = e.entries) ⟨ext, fun h => h ▸ rfl⟩

theorem keys_nodup (d : Dict κ ν) : d.keys.Nodup := d.nodup

variable [DecidableEq κ]

def get? (d : Dict κ ν) (k : κ) : Option ν := d.entries.lookup k

def contains (d : Dict κ ν) (k : κ) : Bool := (d.get? k).isSome

/-- Apply `f` to the value stored under `k`, if there is one. -/
def modify (d : Dict κ ν) (k : κ) (f : ν → ν) : Dict κ ν where
  entries := d.entries.map fun e => if e.1 = k then (e.1, f e.2) else e
  nodup := by
    have h : (d.entries.map fun e => if e.1 = k then (e.1, f e.2) else e).map Prod.fst
        = d.entries.map Prod.fst := by
      rw [List.map_map]
      apply List.map_congr_left
      intro e _
      by_cases he : e.1 = k <;> simp [he]
    rw [h]
    exact d.nodup

/-- Apply `f` to every value. -/
def mapValues (d : Dict κ ν) (f : ν → ν) : Dict κ ν where
  entries := d.entries.map fun e => (e.1, f e.2)
  nodup := by
    rw [List.map_map]
    exact d.nodup

/-- Remove `k` and its value. -/
def erase (d : Dict κ ν) (k : κ) : Dict κ ν where
  entries := d.entries.filter fun e => e.1 ≠ k
  nodup := d.nodup.sublist (List.filter_sublist.map _)

/-- Keep the entries that satisfy `p`. -/
def filter (d : Dict κ ν) (p : κ → ν → Bool) : Dict κ ν where
  entries := d.entries.filter fun e => p e.1 e.2
  nodup := d.nodup.sublist (List.filter_sublist.map _)

/-- Store `v` under `k`: in place when `k` is present, else at the end. -/
def set (d : Dict κ ν) (k : κ) (v : ν) : Dict κ ν :=
  if h : k ∈ d.keys then d.modify k fun _ => v
  else
    { entries := d.entries ++ [(k, v)]
      nodup := by
        rw [List.map_append]
        exact d.nodup.append (List.nodup_singleton k) (List.disjoint_singleton.mpr h) }

/-- Store the pairs of a list one after the other. -/
def ofList (l : List (κ × ν)) : Dict κ ν := l.foldl (fun d e => d.set e.1 e.2) empty

/-! ## Reading -/

theorem get?_eq_some {d : Dict κ ν} {k : κ} {v : ν} :
    d.get? k = some v ↔ (k, v) ∈ d.entries := by
  obtain ⟨es, hnd⟩ := d
  unfold get?
  induction es with
  | nil => simp
  | cons e es ih =>
    obtain ⟨a, b⟩ := e
    simp only [List.map_cons, List.nodup_cons] at hnd
    by_cases hk : k = a
    · subst hk
      rw [List.lookup_cons_self]
      constructor
      · intro h
        cases h
        exact List.mem_cons_self
      · intro h
        rcases List.mem_cons.mp h with h | h
        · cases h; rfl
        · exact absurd (List.mem_map_of_mem (f := Prod.fst) h) hnd.1
    · have hb : (k == a) = false := by simpa using hk
      rw [List.lookup_cons, hb]
      simp only [List.mem_cons, Prod.mk.injEq, hk, false_and, false_or]
      exact ih hnd.2

theorem mem_keys {d : Dict κ ν} {k : κ} : k ∈ d.keys ↔ ∃ v, d.get? k = some v := by
  simp only [keys, List.mem_map, get?_eq_some]
  constructor
  · rintro ⟨⟨a, v⟩, hm, rfl⟩
    exact ⟨v, hm⟩
  · rintro ⟨v, hm⟩
    exact ⟨(k, v), hm, rfl⟩

theorem get?_eq_none {d : Dict κ ν} {k : κ} : d.get? k = none ↔ k ∉ d.keys := by
  rw [mem_keys]
  cases d.get? k <;> simp

@[simp] theorem contains_iff {d : Dict κ ν} {k : κ} :
    d.contains k = true ↔ ∃ v, d.get? k = some v := by
  rw [contains, Option.isSome_iff_exists]

theorem mem_values {d : Dict κ ν} {v : ν} : v ∈ d.values ↔ ∃ k, d.get? k = some v := by
  simp only [values, List.mem_map, get?_eq_some]
  constructor
  · rintro ⟨⟨k, w⟩, hm, rfl⟩
    exact ⟨k, hm⟩
  · rintro ⟨k, hm⟩
    exact ⟨(k, v), hm, rfl⟩

/-- Two dictionaries with the same lookups hold the same entries. -/
theorem mem_entries_congr {d e : Dict κ ν} (h : ∀ k, d.get? k = e.get? k) (p : κ × ν) :
    p ∈ d.entries ↔ p ∈ e.entries := by
  obtain ⟨k, v⟩ := p
  rw [← get?_eq_some, ← get?_eq_some, h]

@[simp] theorem get?_empty (k : κ) : (empty : Dict κ ν).get? k = none := rfl

omit [DecidableEq κ] in
@[simp] theorem keys_empty : (empty : Dict κ ν).keys = [] := rfl

/-! ## Writing -/

theorem get?_modify (d : Dict κ ν) (k j : κ) (f : ν → ν) :
    (d.modify k f).get? j = if j = k then (d.get? k).map f else d.get? j := by
  obtain ⟨es, hnd⟩ := d
  simp only [get?, modify]
  clear hnd
  induction es with
  | nil => simp
  | cons e es ih =>
    obtain ⟨a, b⟩ := e
    simp only [List.map_cons]
    by_cases ha : a = k
    · subst ha
      by_cases hj : j = a
      · subst hj; simp
      · simp only [if_true, List.lookup_cons, ih, hj, if_false]
        rw [show (j == a) = false by simpa using hj]
    · rw [if_neg ha]
      by_cases hj : j = a
      · subst hj
        simp [ha]
      · simp only [List.lookup_cons, ih]
        rw [show (j == a) = false by simpa using hj,
          show (k == a) = false by simpa using Ne.symm ha]

@[simp] theorem get?_modify_self (d : Dict κ ν) (k : κ) (f : ν → ν) :
    (d.modify k f).get? k = (d.get? k).map f := by
  rw [get?_modify, if_pos rfl]

@[simp] theorem modify_modify (d : Dict κ ν) (k : κ) (f g : ν → ν) :
    (d.modify k f).modify k g = d.modify k (g ∘ f) := by
  ext1
  simp only [modify, List.map_map]
  apply List.map_congr_left
  intro e _
  by_cases he : e.1 = k <;> simp [he]

theorem get?_modify_of_ne (d : Dict κ ν) {k j : κ} (f : ν → ν) (h : j ≠ k) :
    (d.modify k f).get? j = d.get? j := by
  rw [get?_modify, if_neg h]

@[simp] theorem keys_modify (d : Dict κ ν) (k : κ) (f : ν → ν) :
    (d.modify k f).keys = d.keys := by
  simp only [keys, modify, List.map_map]
  apply List.map_congr_left
  intro e _
  by_cases he : e.1 = k <;> simp [he]

@[simp] theorem get?_mapValues (d : Dict κ ν) (f : ν → ν) (k : κ) :
    (d.mapValues f).get? k = (d.get? k).map f := by
  obtain ⟨es, hnd⟩ := d
  simp only [get?, mapValues]
  clear hnd
  induction es with
  | nil => rfl
  | cons e es ih =>
    rw [List.map_cons, List.lookup_cons, List.lookup_cons, ih]
    cases k == e.1 <;> rfl

theorem get?_erase (d : Dict κ ν) (k j : κ) :
    (d.erase k).get? j = if j = k then none else d.get? j := by
  by_cases hj : j = k
  · subst hj
    rw [if_pos rfl, get?_eq_none]
    simp [keys, erase]
  · rw [if_neg hj]
    ext v
    simp [get?_eq_some, erase, hj]

@[simp] theorem get?_erase_self (d : Dict κ ν) (k : κ) : (d.erase k).get? k = none := by
  rw [get?_erase, if_pos rfl]

theorem get?_erase_of_ne (d : Dict κ ν) {k j : κ} (h : j ≠ k) :
    (d.erase k).get? j = d.get? j := by
  rw [get?_erase, if_neg h]

theorem keys_erase (d : Dict κ ν) (k : κ) :
    (d.erase k).keys = d.keys.filter fun j => j ≠ k := by
  simp only [keys, erase, List.filter_map]
  rfl

theorem get?_filter (d : Dict κ ν) (p : κ → ν → Bool) (k : κ) :
    (d.filter p).get? k = (d.get? k).filter (p k) := by
  ext v
  simp [get?_eq_some, Option.filter_eq_some_iff, filter]

/-- Filtering removes keys and changes no value. -/
theorem get?_filter_cases (d : Dict κ ν) (p : κ → ν → Bool) (k : κ) :
    (d.filter p).get? k = d.get? k ∨ (d.filter p).get? k = none := by
  rw [get?_filter]
  cases d.get? k with
  | none => exact Or.inl rfl
  | some v =>
    cases hp : p k v with
    | true => exact Or.inl (by simp [hp])
    | false => exact Or.inr (by simp [hp])

theorem get?_set (d : Dict κ ν) (k j : κ) (v : ν) :
    (d.set k v).get? j = if j = k then some v else d.get? j := by
  unfold set
  by_cases hk : k ∈ d.keys
  · rw [dif_pos hk, get?_modify]
    obtain ⟨w, hw⟩ := mem_keys.mp hk
    rw [hw]
    rfl
  · rw [dif_neg hk]
    by_cases hj : j = k
    · subst hj
      rw [if_pos rfl, get?_eq_some]
      simp
    · rw [if_neg hj]
      ext w
      simp [get?_eq_some, hj]

@[simp] theorem get?_set_self (d : Dict κ ν) (k : κ) (v : ν) : (d.set k v).get? k = some v := by
  rw [get?_set, if_pos rfl]

theorem get?_set_of_ne (d : Dict κ ν) {k j : κ} (v : ν) (h : j ≠ k) :
    (d.set k v).get? j = d.get? j := by
  rw [get?_set, if_neg h]

theorem keys_set_of_mem (d : Dict κ ν) {k : κ} (v : ν) (h : k ∈ d.keys) :
    (d.set k v).keys = d.keys := by
  rw [set, dif_pos h, keys_modify]

theorem entries_set_of_not_mem (d : Dict κ ν) {k : κ} (v : ν) (h : k ∉ d.keys) :
    (d.set k v).entries = d.entries ++ [(k, v)] := by
  rw [set, dif_neg h]

theorem keys_set_of_not_mem (d : Dict κ ν) {k : κ} (v : ν) (h : k ∉ d.keys) :
    (d.set k v).keys = d.keys ++ [k] := by
  rw [set, dif_neg h]
  simp [keys]

/-- Storing the value that is already there changes nothing. -/
theorem set_get? {d : Dict κ ν} {k : κ} {v : ν} (h : d.get? k = some v) : d.set k v = d := by
  ext1
  have hk : k ∈ d.keys := mem_keys.mpr ⟨v, h⟩
  simp only [set, hk, dite_true, modify]
  refine (List.map_congr_left fun e he => ?_).trans (List.map_id _)
  split_ifs with hek
  · have hv : d.get? k = some e.2 := get?_eq_some.mpr (hek ▸ he)
    rw [h] at hv
    cases hv
    rfl
  · rfl

theorem mem_keys_set (d : Dict κ ν) (k j : κ) (v : ν) :
    j ∈ (d.set k v).keys ↔ j = k ∨ j ∈ d.keys := by
  by_cases h : k ∈ d.keys
  · rw [keys_set_of_mem d v h]
    constructor
    · exact Or.inr
    · rintro (rfl | hj)
      · exact h
      · exact hj
  · rw [keys_set_of_not_mem d v h, List.mem_append, List.mem_singleton, or_comm]

/-- A dict is its keys in order and the values under them. -/
theorem eq_of_keys_get? {d e : Dict κ ν} (hk : d.keys = e.keys)
    (h : ∀ k, d.get? k = e.get? k) : d = e := by
  have hentries : ∀ d : Dict κ ν,
      d.entries = d.keys.filterMap fun k => (d.get? k).map fun v => (k, v) := by
    intro d
    rw [keys, List.filterMap_map]
    refine (List.filterMap_eq_map_iff_forall_eq_some.mpr ?_ |>.trans (List.map_id _)).symm
    intro p hp
    have hv : d.get? p.1 = some p.2 := get?_eq_some.mpr hp
    simp [hv]
  ext1
  rw [hentries d, hentries e, hk]
  simp only [h]

/-- Reading a dict back from its entries. -/
theorem ofList_entries (d : Dict κ ν) : ofList d.entries = d := by
  have general : ∀ (l : List (κ × ν)) (acc : Dict κ ν),
      (acc.keys ++ l.map Prod.fst).Nodup →
      (l.foldl (fun d e => d.set e.1 e.2) acc).entries = acc.entries ++ l := by
    intro l
    induction l with
    | nil => simp
    | cons p l ih =>
      intro acc hnd
      rw [List.map_cons, List.append_cons] at hnd
      have hp : p.1 ∉ acc.keys := by
        have := (List.nodup_append.mp hnd).1
        rw [List.nodup_append] at this
        exact fun h => this.2.2 _ h _ (List.mem_singleton_self _) rfl
      have hset : (acc.set p.1 p.2).entries = acc.entries ++ [p] := entries_set_of_not_mem _ _ hp
      rw [List.foldl_cons, ih _ (by rw [keys_set_of_not_mem acc p.2 hp]; exact hnd), hset,
        List.append_assoc, List.singleton_append]
  ext1
  exact general d.entries empty d.nodup

/-! ## Values up to order -/

theorem erase_of_get?_eq_none {d : Dict κ ν} {k : κ} (h : d.get? k = none) : d.erase k = d := by
  ext1
  refine List.filter_eq_self.mpr fun e he => ?_
  have hne : e.1 ≠ k := fun hek => get?_eq_none.mp h (hek ▸ List.mem_map_of_mem he)
  simpa using hne

theorem mem_entries_erase {d : Dict κ ν} {k : κ} {e : κ × ν} :
    e ∈ (d.erase k).entries ↔ e ∈ d.entries ∧ e.1 ≠ k := by
  simp [erase]

theorem mem_entries_set {d : Dict κ ν} {k : κ} {v : ν} {e : κ × ν} :
    e ∈ (d.set k v).entries ↔ e = (k, v) ∨ e ∈ (d.erase k).entries := by
  obtain ⟨j, w⟩ := e
  rw [mem_entries_erase, ← get?_eq_some, ← get?_eq_some, get?_set]
  by_cases hj : j = k
  · simp [hj, eq_comm]
  · simp [hj]

omit [DecidableEq κ] in
theorem entries_nodup (d : Dict κ ν) : d.entries.Nodup := List.Nodup.of_map _ d.nodup

/-- Writing a key leaves the values of the other keys. -/
theorem values_set_perm (d : Dict κ ν) (k : κ) (v : ν) :
    (d.set k v).values.Perm (v :: (d.erase k).values) := by
  have hentries : (d.set k v).entries.Perm ((k, v) :: (d.erase k).entries) := by
    rw [List.perm_ext_iff_of_nodup (entries_nodup _)]
    · intro e
      rw [mem_entries_set, List.mem_cons]
    · refine List.nodup_cons.mpr ⟨?_, entries_nodup _⟩
      rw [mem_entries_erase]
      exact fun h => h.2 rfl
  exact hentries.map Prod.snd

theorem values_perm_erase {d : Dict κ ν} {k : κ} {v : ν} (h : d.get? k = some v) :
    d.values.Perm (v :: (d.erase k).values) := by
  have hset := values_set_perm d k v
  rwa [set_get? h] at hset

/-- The entries of a dictionary that has one key at most. -/
theorem entries_of_only {d : Dict κ ν} {k : κ} (h : ∀ j, j ≠ k → d.get? j = none) :
    d.entries = ((d.get? k).map (k, ·)).toList := by
  have hkey : ∀ e ∈ d.entries, e.1 = k := by
    intro e he
    by_contra hne
    have hget := get?_eq_some.mpr he
    rw [h e.1 hne] at hget
    cases hget
  have hnodup := d.keys_nodup
  rw [keys] at hnodup
  cases hentries : d.entries with
  | nil =>
    have hnone : d.get? k = none := get?_eq_none.mpr (by simp [keys, hentries])
    rw [hnone]
    rfl
  | cons e rest =>
    rw [hentries] at hkey hnodup
    have hrest : rest = [] := by
      cases rest with
      | nil => rfl
      | cons f rest =>
        have he := hkey e List.mem_cons_self
        have hf := hkey f (by simp)
        simp [he, hf] at hnodup
    have hk := hkey e List.mem_cons_self
    have hget : d.get? k = some e.2 := by
      rw [get?_eq_some, hentries, ← hk]
      exact List.mem_cons_self
    rw [hget, hrest, ← hk]
    rfl

end Dict

end Switchboard
