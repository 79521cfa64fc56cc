import Mathlib.Data.List.Infix
import Mathlib.Tactic

/-!
# Searching texts

`str.find` and `str.rfind` on lists of characters, where an occurrence can be when only the
beginning of a text is known, and the end of a text that more text may complete to a tag.
-/

namespace Switchboard.TextSearch

variable {α : Type}

/-- An occurrence of a nonempty text ends inside the text it occurs in. -/
theorem length_of_prefix_drop {tag text : List α} {i : Nat} (htag : tag ≠ [])
    (h : tag <+: text.drop i) : i + tag.length ≤ text.length := by
  have hle := h.length_le
  have hpos := List.length_pos_iff.mpr htag
  rw [List.length_drop] at hle
  omega

theorem lt_of_prefix_drop {tag text : List α} {i : Nat} (htag : tag ≠ [])
    (h : tag <+: text.drop i) : i < text.length := by
  have hle := length_of_prefix_drop htag h
  have hpos := List.length_pos_iff.mpr htag
  omega

theorem singleton_prefix_drop {c : α} {text : List α} {i : Nat} :
    [c] <+: text.drop i ↔ text[i]? = some c := by
  rw [List.singleton_prefix_iff_head?_eq_some, List.head?_drop]

/-- What more text brings is no occurrence that starts before a character `mark` that occurs in
`tag` at most at its beginning. -/
theorem not_prefix_append_of_mark {tag text more : List α} {mark : α} {i j : Nat}
    (hmark : mark ∉ tag.tail) (hi : text[i]? = some mark) (hj : j < i)
    (hno : ¬ tag <+: text.drop j) : ¬ tag <+: (text ++ more).drop j := by
  intro hocc
  have hlen : i < text.length := (List.getElem?_eq_some_iff.mp hi).1
  rw [List.drop_append_of_le_length (by omega)] at hocc
  obtain htag | hpart := List.prefix_or_prefix_of_prefix hocc (List.prefix_append _ more)
  · exact hno htag
  · apply hmark
    have hget : (text.drop j)[i - j]? = some mark := by
      rw [List.getElem?_drop, show j + (i - j) = i by omega]
      exact hi
    obtain ⟨hlt, hval⟩ := List.getElem?_eq_some_iff.mp hget
    have htagGet : tag[i - j]? = some mark := by
      rw [← hget]
      exact (List.prefix_iff_getElem?.mp hpart (i - j) hlt).trans
        (List.getElem?_eq_getElem hlt).symm
    have htail : tag.tail[i - j - 1]? = some mark := by
      rw [List.getElem?_tail, show i - j - 1 + 1 = i - j by omega]
      exact htagGet
    exact List.mem_of_getElem? htail

/-- Without its first character there is no occurrence, whatever text comes later. -/
theorem not_prefix_append_of_head {tag text more : List α} {mark : α} {j : Nat}
    (hhead : tag.head? = some mark) (hj : j < text.length) (hno : text[j]? ≠ some mark) :
    ¬ tag <+: (text ++ more).drop j := by
  intro hocc
  apply hno
  rw [List.drop_append_of_le_length (by omega)] at hocc
  have hne : text.drop j ≠ [] := by simp; omega
  obtain ⟨rest, hrest⟩ := hocc
  have hcombined := congrArg List.head? hrest
  rw [List.head?_append_of_ne_nil _ hne, List.head?_drop] at hcombined
  rw [← hcombined, List.head?_append, hhead]
  rfl

/-- `k` is the length of the longest end of a text that a tag begins with, the tag left out. -/
structure Held (tag text : List α) (k : Nat) : Prop where
  le_length : k ≤ text.length
  lt_tag : k < tag.length
  begins : text.drop (text.length - k) <+: tag
  longest : ∀ n, k < n → n ≤ text.length → n < tag.length →
    ¬ text.drop (text.length - n) <+: tag

theorem Held.unique {tag text : List α} {k l : Nat} (hk : Held tag text k)
    (hl : Held tag text l) : k = l := by
  rcases Nat.lt_trichotomy k l with hlt | heq | hlt
  · exact absurd hl.begins (hk.longest l hlt hl.le_length hl.lt_tag)
  · exact heq
  · exact absurd hk.begins (hl.longest k hlt hk.le_length hk.lt_tag)

/-- A beginning of the tag that more text completes is in the part that is held. -/
theorem Held.le_place {tag text piece more : List α} {k i : Nat} (h : Held tag text k)
    (hpiece : piece <+: tag) (hno : ¬ piece <+: text.drop i)
    (hocc : piece <+: (text ++ more).drop i) : text.length - k ≤ i := by
  by_contra hlt
  have hi : i ≤ text.length := by omega
  rw [List.drop_append_of_le_length hi] at hocc
  rcases List.prefix_or_prefix_of_prefix hocc (List.prefix_append _ more) with hin | hpart
  · exact hno hin
  · have hshort : (text.drop i).length < piece.length := by
      by_contra hlong
      exact hno (hpart.eq_of_length_le (by omega) ▸ List.prefix_refl _)
    have hle := hpiece.length_le
    rw [List.length_drop] at hshort
    refine h.longest (text.length - i) (by omega) (by omega) (by omega) ?_
    rw [show text.length - (text.length - i) = i by omega]
    exact hpart.trans hpiece

/-- What is held of a longer text depends on what was held before. -/
theorem Held.append {tag text more : List α} {k l : Nat} (hk : Held tag text k)
    (hl : Held tag (text.drop (text.length - k) ++ more) l) : Held tag (text ++ more) l := by
  have hle := hk.le_length
  have hlen := hl.le_length
  rw [List.length_append, List.length_drop] at hlen
  have hends : ∀ n, n ≤ k + more.length → (text ++ more).drop ((text ++ more).length - n) =
      (text.drop (text.length - k) ++ more).drop
        ((text.drop (text.length - k) ++ more).length - n) := by
    intro n hn
    rw [← List.drop_append_of_le_length (by omega), List.drop_drop, List.length_drop,
      List.length_append]
    congr 1
    omega
  refine ⟨by rw [List.length_append]; omega, hl.lt_tag, ?_, ?_⟩
  · rw [hends l (by omega)]
    exact hl.begins
  · intro n hn hnlen hntag hpre
    by_cases hin : n ≤ k + more.length
    · rw [hends n hin] at hpre
      refine hl.longest n hn ?_ hntag hpre
      rw [List.length_append, List.length_drop]
      omega
    · rw [List.length_append] at hnlen hpre
      refine hk.longest (n - more.length) (by omega) (by omega) (by omega) ?_
      rw [List.drop_append_of_le_length (by omega),
        show text.length + more.length - n = text.length - (n - more.length) by omega] at hpre
      exact (List.prefix_append _ _).trans hpre

variable [DecidableEq α]

/-- `str.find`. -/
def find (tag : List α) : List α → Option Nat
  | [] => if tag = [] then some 0 else none
  | c :: text => if tag.isPrefixOf (c :: text) then some 0 else (find tag text).map (· + 1)

/-- `str.rfind`. -/
def rfind (tag : List α) : List α → Option Nat
  | [] => if tag = [] then some 0 else none
  | c :: text =>
    match rfind tag text with
    | some i => some (i + 1)
    | none => if tag.isPrefixOf (c :: text) then some 0 else none

theorem find_eq_none {tag text : List α} (htag : tag ≠ []) :
    find tag text = none ↔ ∀ i, ¬ tag <+: text.drop i := by
  induction text with
  | nil => simp [find, htag]
  | cons c text ih =>
    rw [find]
    split_ifs with hpre
    · rw [List.isPrefixOf_iff_prefix] at hpre
      simp only [false_iff, not_forall, not_not]
      exact ⟨0, hpre⟩
    · rw [List.isPrefixOf_iff_prefix] at hpre
      rw [Option.map_eq_none_iff, ih]
      constructor
      · intro h i
        cases i with
        | zero => exact hpre
        | succ i => exact h i
      · intro h i
        exact h (i + 1)

theorem find_eq_some {tag text : List α} {i : Nat} (htag : tag ≠ []) (h : find tag text = some i) :
    tag <+: text.drop i ∧ ∀ j < i, ¬ tag <+: text.drop j := by
  induction text generalizing i with
  | nil => simp [find, htag] at h
  | cons c text ih =>
    rw [find] at h
    split_ifs at h with hpre
    · cases h
      rw [List.isPrefixOf_iff_prefix] at hpre
      exact ⟨hpre, by omega⟩
    · rw [List.isPrefixOf_iff_prefix] at hpre
      obtain ⟨k, hk, rfl⟩ := Option.map_eq_some_iff.mp h
      obtain ⟨hocc, hfirst⟩ := ih hk
      constructor
      · exact hocc
      · intro j hj
        cases j with
        | zero => exact hpre
        | succ j => exact hfirst j (by omega)

theorem rfind_eq_none {tag text : List α} (htag : tag ≠ []) :
    rfind tag text = none ↔ ∀ i, ¬ tag <+: text.drop i := by
  induction text with
  | nil => simp [rfind, htag]
  | cons c text ih =>
    rw [rfind]
    cases hr : rfind tag text with
    | some k =>
      simp only [reduceCtorEq, false_iff, not_forall, not_not]
      have hocc := (not_congr ih).mp (by simp [hr])
      push Not at hocc
      obtain ⟨i, hi⟩ := hocc
      exact ⟨i + 1, hi⟩
    | none =>
      have hrest := ih.mp hr
      simp only [ite_eq_right_iff, reduceCtorEq, imp_false, List.isPrefixOf_iff_prefix]
      constructor
      · intro h i
        cases i with
        | zero => exact h
        | succ i => exact hrest i
      · intro h
        exact h 0

theorem rfind_eq_some {tag text : List α} {i : Nat} (htag : tag ≠ [])
    (h : rfind tag text = some i) :
    tag <+: text.drop i ∧ ∀ j, i < j → ¬ tag <+: text.drop j := by
  induction text generalizing i with
  | nil => simp [rfind, htag] at h
  | cons c text ih =>
    rw [rfind] at h
    cases hr : rfind tag text with
    | some k =>
      rw [hr] at h
      cases h
      obtain ⟨hocc, hlast⟩ := ih hr
      constructor
      · exact hocc
      · intro j hj
        cases j with
        | zero => omega
        | succ j => exact hlast j (by omega)
    | none =>
      rw [hr] at h
      simp only at h
      split_ifs at h with hpre
      cases h
      rw [List.isPrefixOf_iff_prefix] at hpre
      constructor
      · exact hpre
      · intro j hj
        cases j with
        | zero => omega
        | succ j => exact (rfind_eq_none htag).mp hr j

/-- The last occurrence is found by the end of a text alone. -/
theorem rfind_append {tag tail : List α} {i : Nat} (before : List α)
    (h : rfind tag tail = some i) : rfind tag (before ++ tail) = some (before.length + i) := by
  induction before with
  | nil => simpa using h
  | cons c before ih =>
    rw [List.cons_append, rfind, ih]
    simp only [List.length_cons, Option.some.injEq]
    omega

theorem find_append_of_some {tag text : List α} {i : Nat} (more : List α)
    (h : find tag text = some i) : find tag (text ++ more) = some i := by
  induction text generalizing i with
  | nil =>
    rw [find] at h
    split_ifs at h with htag
    cases h
    subst htag
    cases more <;> rfl
  | cons c text ih =>
    rw [find] at h
    rw [List.cons_append, find]
    split_ifs at h with hpre
    · rw [List.isPrefixOf_iff_prefix] at hpre
      rw [if_pos]
      · exact h
      · rw [List.isPrefixOf_iff_prefix]
        exact hpre.trans (List.prefix_append (c :: text) more)
    · obtain ⟨k, hk, rfl⟩ := Option.map_eq_some_iff.mp h
      rw [List.isPrefixOf_iff_prefix] at hpre
      have htag : tag ≠ [] := by
        rintro rfl
        exact hpre (List.nil_prefix)
      have hlen := (find_eq_some htag hk).1.length_le
      rw [ih hk, if_neg]
      · rfl
      · rw [List.isPrefixOf_iff_prefix]
        intro hocc
        refine hpre (List.prefix_of_prefix_length_le hocc (List.prefix_append (c :: text) more) ?_)
        rw [List.length_drop] at hlen
        rw [List.length_cons]
        omega

theorem find_append_of_none {tag before rest : List α}
    (hno : ∀ i < before.length, ¬ tag <+: (before ++ rest).drop i) :
    find tag (before ++ rest) = (find tag rest).map (before.length + ·) := by
  induction before with
  | nil => simp
  | cons c before ih =>
    rw [List.cons_append, find, if_neg, ih]
    · rw [Option.map_map]
      congr 1
      funext i
      simp only [Function.comp_apply, List.length_cons]
      omega
    · intro i hi
      exact hno (i + 1) (by simpa using hi)
    · rw [List.isPrefixOf_iff_prefix]
      exact hno 0 (by simp)

/-- Where a beginning of a tag is found in a longer text, when the text itself has it at most in
what is held. -/
theorem Held.find_append {tag piece text : List α} {k : Nat} (more : List α)
    (hheld : Held tag text k) (hpiece : piece <+: tag)
    (hno : ∀ i < text.length - k, ¬ piece <+: text.drop i) :
    find piece (text ++ more) =
      (find piece (text.drop (text.length - k) ++ more)).map (text.length - k + ·) := by
  have hlength : (text.take (text.length - k)).length = text.length - k := by
    rw [List.length_take]
    omega
  have hfind := @find_append_of_none _ _ piece (text.take (text.length - k))
    (text.drop (text.length - k) ++ more)
  rw [← List.append_assoc, List.take_append_drop, hlength] at hfind
  refine hfind fun i hi hocc => ?_
  exact absurd (hheld.le_place hpiece (hno i hi) hocc) (by omega)

section Patterns

variable {α β : Type}

/-- The leftmost match of a pattern, which is given by what it matches at one place, and the text
before it. -/
def search (matchAt : List α → Option β) : List α → Option (List α × β)
  | [] => (matchAt []).map ([], ·)
  | c :: text =>
    match matchAt (c :: text) with
    | some found => some ([], found)
    | none => (search matchAt text).map fun found => (c :: found.1, found.2)

theorem search_eq_none {matchAt : List α → Option β} {text : List α} :
    search matchAt text = none ↔ ∀ i, matchAt (text.drop i) = none := by
  induction text with
  | nil => simp [search]
  | cons c text ih =>
    rw [search]
    cases hfirst : matchAt (c :: text) with
    | some found =>
      simp only [reduceCtorEq, false_iff, not_forall]
      exact ⟨0, by simp [hfirst]⟩
    | none =>
      simp only [Option.map_eq_none_iff, ih]
      constructor
      · intro h i
        cases i with
        | zero => exact hfirst
        | succ i => exact h i
      · intro h i
        exact h (i + 1)

/-- `re.sub` with the empty text, for a pattern that is given by the length of its match at one
place. The number says how many characters are still part of the last match. -/
def remove (lengthAt : List α → Option Nat) : Nat → List α → List α
  | _, [] => []
  | skip + 1, _ :: text => remove lengthAt skip text
  | 0, c :: text =>
    match lengthAt (c :: text) with
    | some n => remove lengthAt (n - 1) text
    | none => c :: remove lengthAt 0 text

theorem remove_of_none {lengthAt : List α → Option Nat} {text : List α}
    (hnone : ∀ i, lengthAt (text.drop i) = none) : remove lengthAt 0 text = text := by
  induction text with
  | nil => rfl
  | cons c text ih =>
    have hfirst : lengthAt (c :: text) = none := hnone 0
    rw [remove, hfirst]
    simp only
    rw [ih fun i => hnone (i + 1)]

/-- A pattern whose matches stay matches when text is added occurs in no part of a text that it
does not occur in. -/
theorem drop_eq_none_of_infix {matchAt : List α → Option β} {part text : List α}
    (hmono : ∀ text more, matchAt (text ++ more) = none → matchAt text = none)
    (hpart : part <:+: text) (hnone : ∀ i, matchAt (text.drop i) = none) (i : Nat) :
    matchAt (part.drop i) = none := by
  obtain ⟨before, after, rfl⟩ := hpart
  by_cases hi : i ≤ part.length
  · apply hmono _ after
    have hdrop := hnone (before.length + i)
    rw [List.append_assoc, ← List.drop_drop, List.drop_left,
      List.drop_append_of_le_length hi] at hdrop
    exact hdrop
  · have hend := hnone (before.length + part.length + after.length)
    rw [List.drop_of_length_le (by omega)]
    rw [List.drop_of_length_le (by simp [Nat.add_assoc])] at hend
    exact hend

end Patterns

end Switchboard.TextSearch
