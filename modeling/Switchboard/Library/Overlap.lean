import Mathlib.Tactic

/-!
# Overlaps of two lists

A list that begins with one list and ends with another can share the end of the first with the
start of the second. The longest such overlap gives the shortest list.
-/

namespace Switchboard.Overlap

variable {α : Type*} {a b w : List α} {n : ℕ}

/-- The first `n` elements of `b` are the last of `a`. -/
structure Overlaps (a b : List α) (n : ℕ) : Prop where
  le_length : n ≤ b.length
  suffix : b.take n <:+ a

/-- A list that begins with `a` and ends with `b`. -/
structure Joins (a b w : List α) : Prop where
  start : a <+: w
  finish : b <:+ w

theorem Overlaps.le_left (h : Overlaps a b n) : n ≤ a.length := by
  have hle := h.suffix.length_le
  have hn := h.le_length
  rw [List.length_take] at hle
  omega

theorem overlaps_zero (a b : List α) : Overlaps a b 0 :=
  ⟨Nat.zero_le _, List.nil_suffix⟩

/-- Two lists are joined over an overlap. -/
theorem Overlaps.joins (h : Overlaps a b n) : Joins a b (a ++ b.drop n) := by
  obtain ⟨before, hbefore⟩ := h.suffix
  refine ⟨List.prefix_append _ _, before, ?_⟩
  calc before ++ b = before ++ (b.take n ++ b.drop n) := by rw [List.take_append_drop]
    _ = a ++ b.drop n := by rw [← List.append_assoc, hbefore]

/-- A list that joins two and adds no more than the second adds a part of it, over an overlap. -/
theorem Joins.overlaps {added : List α} (h : Joins a b (a ++ added))
    (hle : added.length ≤ b.length) :
    Overlaps a b (b.length - added.length) ∧ added = b.drop (b.length - added.length) := by
  obtain ⟨before, hbefore⟩ := h.finish
  have hlength := congrArg List.length hbefore
  simp only [List.length_append] at hlength
  have hsplit : b.take (b.length - added.length) ++ b.drop (b.length - added.length) = b :=
    List.take_append_drop _ _
  rw [← hsplit, ← List.append_assoc] at hbefore
  have hparts := List.append_inj' hbefore (by rw [List.length_drop]; omega)
  exact ⟨⟨Nat.sub_le _ _, before, hparts.1⟩, hparts.2.symm⟩

/-- The longest overlap gives the shortest list, and the only one of its length. -/
theorem joins_shortest (hgreatest : ∀ m, Overlaps a b m → m ≤ n) (hn : n ≤ b.length)
    (hw : Joins a b w) : (a ++ b.drop n).length < w.length ∨ w = a ++ b.drop n := by
  obtain ⟨added, rfl⟩ := hw.start
  rw [List.length_append, List.length_append, List.length_drop]
  by_cases hle : added.length ≤ b.length
  · obtain ⟨hover, hadded⟩ := hw.overlaps hle
    have hmost := hgreatest _ hover
    by_cases heq : b.length - added.length = n
    · right
      rw [hadded, heq]
    · left
      omega
  · left
    omega

end Switchboard.Overlap
