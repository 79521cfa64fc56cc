import Mathlib.Data.List.DropRight
import Mathlib.Data.List.TakeWhile
import Mathlib.Tactic

/-!
# Texts

Python's string methods, as far as they differ from those of Lean.
-/

namespace Switchboard.Text

/-- `str.isspace` of one character. -/
def isSpace (c : Char) : Bool :=
  let n := c.toNat
  (0x09 ≤ n && n ≤ 0x0d) || (0x1c ≤ n && n ≤ 0x20) || n = 0x85 || n = 0xa0 || n = 0x1680 ||
    (0x2000 ≤ n && n ≤ 0x200a) || n = 0x2028 || n = 0x2029 || n = 0x202f || n = 0x205f ||
    n = 0x3000

/-- `str.rstrip`, for the characters that `p` holds of. -/
def rstrip (p : Char → Bool) (s : String) : String :=
  String.ofList (s.toList.reverse.dropWhile p).reverse

/-- `str.strip`, for the characters that `p` holds of. -/
def strip (p : Char → Bool) (s : String) : String :=
  String.ofList ((s.toList.dropWhile p).reverse.dropWhile p).reverse

/-- `str.strip` of a list of characters. -/
def stripped (p : Char → Bool) (s : List Char) : List Char := (s.dropWhile p).rdropWhile p

theorem stripped_eq_nil {p : Char → Bool} {s : List Char} :
    stripped p s = [] ↔ ∀ c ∈ s, p c = true := by
  rw [stripped, List.rdropWhile_eq_nil_iff]
  constructor
  · intro h c hc
    cases hdrop : s.dropWhile p with
    | nil => exact List.dropWhile_eq_nil_iff.mp hdrop c hc
    | cons d rest =>
      have hd := List.head_dropWhile_not p (l := s) (by simp [hdrop])
      rw [h _ (List.head_mem _)] at hd
      cases hd
  · exact fun h c hc => h c (List.dropWhile_subset p hc)

/-- Only the characters at the end go that `p` holds of. -/
theorem rstrip_append {p : Char → Bool} {s : String} {c : Char} (t : String)
    (hc : p c = false) (ht : ∀ d ∈ t.toList, p d = true) :
    rstrip p (s ++ String.singleton c ++ t) = s ++ String.singleton c := by
  have hdrop : (t.toList.reverse ++ c :: s.toList.reverse).dropWhile p
      = c :: s.toList.reverse := by
    rw [List.dropWhile_append_of_pos (by simpa using ht), List.dropWhile_cons, hc]
    rfl
  rw [rstrip, String.toList_append, String.toList_append, List.reverse_append, List.reverse_append,
    String.toList_singleton, List.reverse_singleton, List.singleton_append, hdrop]
  apply String.toList_injective
  simp

/-- A character that stays keeps the text from being empty. -/
theorem strip_ne_empty {p : Char → Bool} {s : String} {c : Char} (hmem : c ∈ s.toList)
    (hc : p c = false) : strip p s ≠ "" := by
  intro hstrip
  have hlist := congrArg String.toList hstrip
  rw [strip, String.toList_ofList, String.toList_empty, List.reverse_eq_nil_iff,
    List.dropWhile_eq_nil_iff] at hlist
  have hall : ∀ d ∈ s.toList.dropWhile p, p d = true := fun d hd =>
    hlist d (List.mem_reverse.mpr hd)
  cases hdrop : s.toList.dropWhile p with
  | nil =>
    have hp := List.dropWhile_eq_nil_iff.mp hdrop c hmem
    rw [hc] at hp
    cases hp
  | cons d rest =>
    have hd := List.head_dropWhile_not p (l := s.toList) (by simp [hdrop])
    rw [hall _ (List.head_mem _)] at hd
    cases hd

/-- A text that starts with a character to keep is stripped at its end only. -/
theorem stripped_append {p : Char → Bool} {c d : Char} (s t : List Char) (hc : p c = false)
    (hd : p d = false) : stripped p (c :: s ++ d :: t) = c :: s ++ stripped p (d :: t) := by
  have hkeep : ((d :: t).reverse.dropWhile p).isEmpty = false := by
    rw [List.isEmpty_eq_false_iff, ne_eq, List.dropWhile_eq_nil_iff]
    intro h
    rw [h d (by simp)] at hd
    cases hd
  have hstart : ∀ rest, (c :: rest).dropWhile p = c :: rest := fun rest => by
    rw [List.dropWhile_cons, hc]
    rfl
  have hinner : (d :: t).dropWhile p = d :: t := by
    rw [List.dropWhile_cons, hd]
    rfl
  rw [stripped, stripped, List.cons_append, hstart, hinner, ← List.cons_append, List.rdropWhile,
    List.reverse_append, List.dropWhile_append, hkeep]
  simp [List.rdropWhile]

/-- What is stripped at the end. -/
theorem eq_stripped_append {p : Char → Bool} {c : Char} (s : List Char) (hc : p c = false) :
    ∃ t, c :: s = stripped p (c :: s) ++ t ∧ ∀ d ∈ t, p d = true := by
  have hstart : (c :: s).dropWhile p = c :: s := by
    rw [List.dropWhile_cons, hc]
    rfl
  refine ⟨(c :: s).rtakeWhile p, ?_, fun d hd => List.mem_rtakeWhile_imp hd⟩
  rw [stripped, hstart]
  exact List.rdropWhile_append_rtakeWhile.symm

/-! ## Parts of a text -/

/-- `str.partition` at a character: the parts around the first one, if there is one. -/
def partitionAt (c : Char) (s : List Char) : Option (List Char × List Char) :=
  match s.dropWhile (· ≠ c) with
  | [] => none
  | _ :: after => some (s.takeWhile (· ≠ c), after)

theorem partitionAt_append {c : Char} {before : List Char} (after : List Char)
    (h : c ∉ before) : partitionAt c (before ++ c :: after) = some (before, after) := by
  have hbefore : ∀ d ∈ before, (decide (d ≠ c)) = true := fun d hd => by
    rw [decide_eq_true_iff]
    rintro rfl
    exact h hd
  rw [partitionAt, List.dropWhile_append_of_pos hbefore, List.takeWhile_append_of_pos hbefore]
  simp

theorem partitionAt_eq_some {c : Char} {s before after : List Char} :
    partitionAt c s = some (before, after) ↔ s = before ++ c :: after ∧ c ∉ before := by
  constructor
  · intro h
    by_cases hmem : c ∈ s
    · obtain ⟨first, rest, rfl, hfirst⟩ := List.eq_append_cons_of_mem hmem
      rw [partitionAt_append rest hfirst] at h
      cases h
      exact ⟨rfl, hfirst⟩
    · have hdrop : s.dropWhile (· ≠ c) = [] :=
        List.dropWhile_eq_nil_iff.mpr fun d hd => by
          rw [decide_eq_true_iff]
          rintro rfl
          exact hmem hd
      rw [partitionAt, hdrop] at h
      cases h
  · rintro ⟨rfl, hbefore⟩
    exact partitionAt_append after hbefore

theorem partitionAt_of_notMem {c : Char} {s : List Char} (h : c ∉ s) : partitionAt c s = none := by
  cases hpart : partitionAt c s with
  | none => rfl
  | some parts =>
    obtain ⟨rfl, -⟩ := partitionAt_eq_some.mp hpart
    exact absurd (by simp) h

theorem partitionAt_of_mem {c : Char} {s : List Char} (h : c ∈ s) :
    ∃ before after, partitionAt c s = some (before, after) := by
  obtain ⟨before, after, rfl, hbefore⟩ := List.eq_append_cons_of_mem h
  exact ⟨before, after, partitionAt_append after hbefore⟩

end Switchboard.Text
