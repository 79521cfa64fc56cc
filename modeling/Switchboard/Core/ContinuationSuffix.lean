import Switchboard.Library.Overlap

/-!
# What a recovered continuation adds

`continuation_suffix` of `core/anthropic/streaming/recovery.py`: the part of a recovered text that
was not there yet.
-/

namespace Switchboard.Core.Recovery

open Overlap

/-- `range(max_overlap, 0, -1)` -/
def overlapSizes (maxOverlap : ℕ) : List ℕ := (List.range' 1 maxOverlap).reverse

def continuationSuffix (existing candidate : List Char) : Option (List Char) :=
  if candidate = [] then some []
  else if existing = [] then some candidate
  else if existing.isPrefixOf candidate then some (candidate.drop existing.length)
  else
    let maxOverlap := min existing.length candidate.length
    match (overlapSizes maxOverlap).find? fun size =>
      (candidate.take size).isSuffixOf existing with
    | some size => some (candidate.drop size)
    | none => if candidate.length < max 200 (existing.length / 2) then some candidate else none

variable {existing candidate : List Char}

theorem mem_overlapSizes {maxOverlap size : ℕ} :
    size ∈ overlapSizes maxOverlap ↔ 0 < size ∧ size ≤ maxOverlap := by
  rw [overlapSizes, List.mem_reverse, List.mem_range'_1]
  omega

theorem overlapSizes_succ (maxOverlap : ℕ) :
    overlapSizes (maxOverlap + 1) = (maxOverlap + 1) :: overlapSizes maxOverlap := by
  rw [overlapSizes, overlapSizes, List.range'_concat, List.reverse_append, Nat.one_mul,
    Nat.add_comm 1]
  rfl

/-- The sizes are tried from the largest on. -/
theorem find_overlapSizes {p : ℕ → Bool} {maxOverlap size : ℕ}
    (h : (overlapSizes maxOverlap).find? p = some size) :
    p size = true ∧ size ≤ maxOverlap ∧ ∀ m, p m = true → m ≤ maxOverlap → m ≤ size := by
  induction maxOverlap with
  | zero => cases h
  | succ k ih =>
    rw [overlapSizes_succ, List.find?_cons] at h
    cases hp : p (k + 1) with
    | true =>
      rw [hp] at h
      cases h
      exact ⟨hp, le_rfl, fun m _ hle => hle⟩
    | false =>
      rw [hp] at h
      obtain ⟨hsize, hle, hmost⟩ := ih h
      refine ⟨hsize, by omega, fun m hm hmle => ?_⟩
      rcases Nat.lt_or_ge k m with hlt | hge
      · obtain rfl : m = k + 1 := by omega
        rw [hp] at hm
        cases hm
      · exact hmost m hm hge

/-- Nothing is found where there is no overlap but the empty one. -/
theorem overlaps_eq_zero {maxOverlap : ℕ} (hmax : maxOverlap = min existing.length candidate.length)
    (h : ((overlapSizes maxOverlap).find? fun size =>
      (candidate.take size).isSuffixOf existing) = none) {n : ℕ}
    (hn : Overlaps existing candidate n) : n = 0 := by
  by_contra hpos
  have hleft := hn.le_left
  have hright := hn.le_length
  have hmem : n ∈ overlapSizes maxOverlap := mem_overlapSizes.mpr (by omega)
  have hnot := List.find?_eq_none.mp h n hmem
  exact hnot (List.isSuffixOf_iff_suffix.mpr hn.suffix)

/-- What is added is a part of the candidate, after the longest overlap. -/
theorem continuationSuffix_greatest {added : List Char}
    (h : continuationSuffix existing candidate = some added) :
    ∃ n, Overlaps existing candidate n ∧ (∀ m, Overlaps existing candidate m → m ≤ n) ∧
      added = candidate.drop n := by
  unfold continuationSuffix at h
  by_cases hcandidate : candidate = []
  · rw [if_pos hcandidate] at h
    cases h
    subst hcandidate
    exact ⟨0, overlaps_zero _ _, fun m hm => hm.le_length, rfl⟩
  rw [if_neg hcandidate] at h
  by_cases hexisting : existing = []
  · rw [if_pos hexisting] at h
    cases h
    subst hexisting
    exact ⟨0, overlaps_zero _ _, fun m hm => hm.le_left, rfl⟩
  rw [if_neg hexisting] at h
  by_cases hstarts : existing.isPrefixOf candidate = true
  · rw [if_pos hstarts] at h
    cases h
    rw [List.isPrefixOf_iff_prefix] at hstarts
    refine ⟨existing.length, ⟨hstarts.length_le, ?_⟩, fun m hm => hm.le_left, rfl⟩
    rw [← List.prefix_iff_eq_take.mp hstarts]
  rw [if_neg hstarts] at h
  dsimp only at h
  split at h
  · rename_i size hfind
    cases h
    obtain ⟨hsuffix, hle, hmost⟩ := find_overlapSizes hfind
    refine ⟨size, ⟨by omega, List.isSuffixOf_iff_suffix.mp hsuffix⟩, fun m hm => ?_, rfl⟩
    have hleft := hm.le_left
    have hright := hm.le_length
    exact hmost m (List.isSuffixOf_iff_suffix.mpr hm.suffix) (by omega)
  · rename_i hfind
    split_ifs at h
    cases h
    exact ⟨0, overlaps_zero _ _, fun m hm => (overlaps_eq_zero rfl hfind hm).le, rfl⟩

theorem continuationSuffix_eq_none (h : continuationSuffix existing candidate = none) :
    candidate ≠ [] ∧ ∀ n, Overlaps existing candidate n → n = 0 := by
  unfold continuationSuffix at h
  have hcandidate : candidate ≠ [] := by
    rintro rfl
    cases h
  have hexisting : existing ≠ [] := by
    rintro rfl
    rw [if_neg hcandidate] at h
    cases h
  rw [if_neg hcandidate, if_neg hexisting] at h
  by_cases hstarts : existing.isPrefixOf candidate = true
  · rw [if_pos hstarts] at h
    cases h
  rw [if_neg hstarts] at h
  dsimp only at h
  split at h
  · cases h
  · exact ⟨hcandidate, fun n hn => overlaps_eq_zero rfl ‹_› hn⟩

/-- What is returned continues the existing text to the shortest one that ends in the candidate,
and nothing is returned only where no start of the candidate ends the existing text. -/
theorem continuationSuffix_shortest (existing candidate : List Char) :
    (∀ added, continuationSuffix existing candidate = some added →
      candidate <:+ existing ++ added ∧
      ∀ w, existing <+: w → candidate <:+ w →
        (existing ++ added).length < w.length ∨ w = existing ++ added) ∧
    (continuationSuffix existing candidate = none →
      candidate ≠ [] ∧ ∀ start, start ≠ [] → start <+: candidate → ¬ start <:+ existing) := by
  refine ⟨fun added hadded => ?_, fun hnone => ?_⟩
  · obtain ⟨n, hover, hgreatest, rfl⟩ := continuationSuffix_greatest hadded
    exact ⟨hover.joins.finish, fun w hstart hfinish =>
      joins_shortest hgreatest hover.le_length ⟨hstart, hfinish⟩⟩
  · obtain ⟨hcandidate, hzero⟩ := continuationSuffix_eq_none hnone
    refine ⟨hcandidate, fun start hstart hstarts hsuffix => hstart ?_⟩
    rw [List.prefix_iff_eq_take.mp hstarts] at hsuffix
    exact List.length_eq_zero_iff.mp (hzero start.length ⟨hstarts.length_le, hsuffix⟩)

end Switchboard.Core.Recovery
