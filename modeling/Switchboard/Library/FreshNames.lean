import Mathlib.Tactic
import Mathlib.Data.Set.Finite.Basic

/-!
# Names that are free

Among the names of an infinite family one is not in a list, such as among those that end in
a counter.
-/

namespace Switchboard.FreshNames

theorem toString_injective : Function.Injective fun n : ℕ => toString n := by
  intro m n h
  have hdigits := congrArg (fun s : String => Nat.ofDigitChars 10 s.toList 0) h
  simpa [Nat.toString_eq_repr, Nat.repr] using hdigits

/-- The stem with a counter from 2 on. -/
def numbered (stem : String) (k : ℕ) : String := stem ++ toString (k + 2)

theorem numbered_injective (stem : String) : Function.Injective (numbered stem) := by
  intro k l hkl
  exact Nat.add_right_cancel (toString_injective ((String.append_right_inj _).mp hkl))

theorem exists_free {α : Type*} {name : ℕ → α} (hname : Function.Injective name)
    (reserved : List α) : ∃ k, name k ∉ reserved := by
  by_contra hall
  push Not at hall
  exact Set.infinite_of_injective_forall_mem hname hall (List.finite_toSet reserved)

/-- The first numbered name that is not reserved. -/
def firstFree (stem : String) (reserved : List String) : String :=
  numbered stem (Nat.find (exists_free (numbered_injective stem) reserved))

theorem firstFree_notMem (stem : String) (reserved : List String) :
    firstFree stem reserved ∉ reserved :=
  Nat.find_spec (exists_free (numbered_injective stem) reserved)

/-- It is the numbered name before which all are reserved. -/
theorem eq_firstFree_iff (stem : String) (reserved : List String) (name : String) :
    name = firstFree stem reserved ↔ name ∉ reserved ∧
      ∃ k, name = numbered stem k ∧ ∀ l < k, numbered stem l ∈ reserved := by
  constructor
  · rintro rfl
    refine ⟨firstFree_notMem stem reserved, _, rfl, fun l hl => ?_⟩
    exact not_not.mp (Nat.find_min (exists_free (numbered_injective stem) reserved) hl)
  · rintro ⟨hfree, k, rfl, hbefore⟩
    have hfind : Nat.find (exists_free (numbered_injective stem) reserved) = k :=
      (Nat.find_eq_iff _).mpr ⟨hfree, fun l hl => not_not.mpr (hbefore l hl)⟩
    rw [firstFree, hfind]

end Switchboard.FreshNames
