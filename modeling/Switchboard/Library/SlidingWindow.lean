import Mathlib.Algebra.Order.Group.Defs
import Mathlib.Tactic

/-!
# Sliding windows

A list of times is strict when no half-open window of the given width holds more
than `limit` of them. A limiter that keeps the recent times may forget all those
that are a width or more in the past.
-/

namespace Switchboard.SlidingWindow

variable {α : Type*} [AddCommGroup α] [LinearOrder α]
  {limit : ℕ} {width a t : α} {times old recent : List α}

/-- Whether a time lies in the window of the given width that begins at `a`. -/
def within (width a t : α) : Bool := a ≤ t && t < a + width

theorem within_iff : within width a t = true ↔ a ≤ t ∧ t < a + width := by
  unfold within
  rw [Bool.and_eq_true, decide_eq_true_eq, decide_eq_true_eq]

def Strict (limit : ℕ) (width : α) (times : List α) : Prop :=
  ∀ a, times.countP (within width a) ≤ limit

theorem strict_nil : Strict limit width ([] : List α) := fun _ => Nat.zero_le _

/-- What is a width or more in the past does not count against a new time. -/
theorem Strict.concat [IsOrderedAddMonoid α] (hs : Strict limit width (old ++ recent))
    (hold : ∀ s ∈ old, s + width ≤ t) (hrecent : recent.length < limit) :
    Strict limit width (old ++ recent ++ [t]) := by
  intro a
  rw [List.countP_append]
  by_cases ht : within width a t = true
  · obtain ⟨-, hlt⟩ := within_iff.mp ht
    have hnone : old.countP (within width a) = 0 := by
      rw [List.countP_eq_zero]
      intro s hs hin
      obtain ⟨hge, -⟩ := within_iff.mp hin
      have h1 : a + width ≤ s + width := add_le_add_left hge width
      exact absurd (h1.trans (hold s hs)) (not_le.mpr hlt)
    have hcount : recent.countP (within width a) ≤ recent.length := List.countP_le_length
    have hone : [t].countP (within width a) ≤ 1 := List.countP_le_length
    rw [List.countP_append, hnone]
    omega
  · have hzero : [t].countP (within width a) = 0 := by
      rw [List.countP_singleton, if_neg ht]
    rw [hzero, Nat.add_zero]
    exact hs a

/-- What falls under one of two conditions is counted under them. -/
theorem countP_le_add {β : Type*} {p q r : β → Bool} {l : List β}
    (h : ∀ x ∈ l, p x = true → q x = true ∨ r x = true) :
    l.countP p ≤ l.countP q + l.countP r := by
  induction l with
  | nil => simp
  | cons x l ih =>
    have htail := ih fun y hy => h y (List.mem_cons_of_mem _ hy)
    have hhead := h x List.mem_cons_self
    simp only [List.countP_cons]
    by_cases hp : p x = true
    · rcases hhead hp with hq | hr
      · simp only [hp, hq, if_true]
        omega
      · simp only [hp, hr, if_true]
        omega
    · rw [if_neg hp]
      omega

/-- Picking elements by distinct positions picks no more of a window than there is. -/
theorem countP_positions_le (width : α) (times : List α) {picks : List ℕ}
    (hnodup : picks.Nodup) (a : α) :
    picks.countP (fun i => (times[i]?).any (within width a)) ≤ times.countP (within width a) := by
  rw [List.countP_eq_length_filter]
  have hpositions : times.countP (within width a) =
      ((List.range times.length).filter fun i => (times[i]?).any (within width a)).length := by
    rw [← List.countP_eq_length_filter]
    have hmap : times = (List.range times.length).map fun i => times.getD i 0 := by
      refine List.ext_getElem (by simp) fun i h1 h2 => ?_
      simp [h1]
    conv_lhs => rw [hmap]
    rw [List.countP_map]
    refine List.countP_congr fun i hi => ?_
    have hlt : i < times.length := List.mem_range.mp hi
    simp [hlt]
  rw [hpositions]
  refine (List.Nodup.subperm (hnodup.filter _) fun i hi => ?_).length_le
  obtain ⟨-, hin⟩ := List.mem_filter.mp hi
  refine List.mem_filter.mpr ⟨List.mem_range.mpr ?_, hin⟩
  by_contra hge
  rw [List.getElem?_eq_none (not_lt.mp hge)] at hin
  cases hin

end Switchboard.SlidingWindow
