import Switchboard.Library.Dict

/-!
# Dictionaries of bounded size

The entries stand in the order of their last use. A new entry is stored at the end, and the
ones used longest ago go if there are too many; the field `bounded` states that there never
are.
-/

namespace Switchboard

universe u v

/-- A dictionary in order of use with at most `capacity` entries. -/
structure RecentDict (κ : Type u) (ν : Type v) (capacity : ℕ) where
  dict : Dict κ ν
  bounded : dict.entries.length ≤ capacity

namespace RecentDict

variable {κ : Type u} {ν : Type v} {capacity : ℕ}

def empty : RecentDict κ ν capacity := ⟨.empty, Nat.zero_le _⟩

instance : EmptyCollection (RecentDict κ ν capacity) := ⟨empty⟩

/-- The entries without those used longest ago. -/
def trim (capacity : ℕ) (d : Dict κ ν) : RecentDict κ ν capacity where
  dict :=
    { entries := d.entries.drop (d.entries.length - capacity)
      nodup := d.nodup.sublist ((List.drop_sublist _ _).map _) }
  bounded := by
    rw [List.length_drop]
    omega

variable [DecidableEq κ]

def get? (d : RecentDict κ ν capacity) (k : κ) : Option ν := d.dict.get? k

def erase (d : RecentDict κ ν capacity) (k : κ) : RecentDict κ ν capacity where
  dict := d.dict.erase k
  bounded := (List.length_filter_le _ _).trans d.bounded

/-- Store a value at the end. -/
def insert (d : RecentDict κ ν capacity) (k : κ) (v : ν) : RecentDict κ ν capacity :=
  trim capacity ((d.dict.erase k).set k v)

/-- Move an entry to the end. -/
def touch (d : RecentDict κ ν capacity) (k : κ) : RecentDict κ ν capacity :=
  match d.get? k with
  | none => d
  | some v => d.insert k v

@[simp] theorem get?_empty (k : κ) : (empty : RecentDict κ ν capacity).get? k = none := rfl

theorem get?_erase (d : RecentDict κ ν capacity) (k j : κ) :
    (d.erase k).get? j = if j = k then none else d.get? j :=
  Dict.get?_erase d.dict k j

theorem get?_trim {d : Dict κ ν} {k : κ} {v : ν} (h : (trim capacity d).get? k = some v) :
    d.get? k = some v :=
  Dict.get?_eq_some.mpr (List.mem_of_mem_drop (Dict.get?_eq_some.mp h))

/-- Nothing goes while there is room. -/
theorem get?_trim_of_le {d : Dict κ ν} (h : d.entries.length ≤ capacity) (k : κ) :
    (trim capacity d).get? k = d.get? k := by
  have hdict : (trim capacity d).dict = d := by
    ext1
    change d.entries.drop _ = _
    rw [Nat.sub_eq_zero_of_le h, List.drop_zero]
  rw [get?, hdict]

theorem entries_erase_set (d : Dict κ ν) (k : κ) (v : ν) :
    ((d.erase k).set k v).entries = (d.erase k).entries ++ [(k, v)] := by
  have hk : k ∉ (d.erase k).keys := Dict.get?_eq_none.mp (Dict.get?_erase_self d k)
  rw [Dict.set, dif_neg hk]

/-- The new entry itself stays, unless there is no room at all. -/
theorem get?_insert_self (hcapacity : 1 ≤ capacity) (d : RecentDict κ ν capacity) (k : κ)
    (v : ν) : (d.insert k v).get? k = some v := by
  refine Dict.get?_eq_some.mpr ?_
  change (k, v) ∈ ((d.dict.erase k).set k v).entries.drop _
  rw [entries_erase_set, List.drop_append_of_le_length]
  · exact List.mem_append_right _ (List.mem_singleton_self _)
  · rw [List.length_append, List.length_singleton]
    omega

/-- Another entry stays as it was, or it goes. -/
theorem get?_insert_of_ne {d : RecentDict κ ν capacity} {k j : κ} {v w : ν} (hj : j ≠ k)
    (h : (d.insert k v).get? j = some w) : d.get? j = some w := by
  have hset := get?_trim h
  rwa [Dict.get?_set_of_ne _ _ hj, Dict.get?_erase_of_ne _ hj] at hset

theorem get?_insert {d : RecentDict κ ν capacity} {k j : κ} {v w : ν}
    (h : (d.insert k v).get? j = some w) : j = k ∧ w = v ∨ j ≠ k ∧ d.get? j = some w := by
  by_cases hj : j = k
  · subst hj
    have hset := get?_trim h
    rw [Dict.get?_set_self] at hset
    exact Or.inl ⟨rfl, (Option.some.inj hset).symm⟩
  · exact Or.inr ⟨hj, get?_insert_of_ne hj h⟩

/-- Using an entry changes no value and lets none go. -/
@[simp] theorem get?_touch (d : RecentDict κ ν capacity) (k j : κ) :
    (d.touch k).get? j = d.get? j := by
  unfold touch
  cases hk : d.get? k with
  | none => rfl
  | some v =>
    have hmem : k ∈ d.dict.keys := Dict.mem_keys.mpr ⟨v, hk⟩
    have hlength : ((d.dict.erase k).set k v).entries.length ≤ capacity := by
      have hlt : (d.dict.erase k).entries.length < d.dict.entries.length := by
        obtain ⟨e, he, rfl⟩ := List.mem_map.mp hmem
        exact List.length_filter_lt_length_iff_exists.mpr ⟨e, he, by simp⟩
      rw [entries_erase_set, List.length_append, List.length_singleton]
      exact hlt.trans_le d.bounded
    refine (get?_trim_of_le hlength j).trans ?_
    rw [Dict.get?_set, Dict.get?_erase]
    split_ifs with hj
    · rw [hj]
      exact hk.symm
    · rfl

end RecentDict

end Switchboard
