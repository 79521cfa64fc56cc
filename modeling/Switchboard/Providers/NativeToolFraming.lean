import Switchboard.Providers.NativeToolFramer

/-!
# Native tool calls in chunks

Feeding two texts is feeding them as one, up to how the parts of the block are kept. So what a
stream shows depends on its whole text alone.
-/

namespace Switchboard.Providers.NativeToolFramer

open Switchboard.Text Switchboard.TextSearch

/-! ## Markers -/

theorem partialSuffixFrom_spec (text marker : List Char) (n : ℕ) :
    partialSuffixFrom text marker n ≤ n ∧
      text.drop (text.length - partialSuffixFrom text marker n) <+: marker ∧
      ∀ m, partialSuffixFrom text marker n < m → m ≤ n →
        ¬ text.drop (text.length - m) <+: marker := by
  induction n with
  | zero =>
    refine ⟨Nat.le_refl 0, ?_, ?_⟩
    · simp [partialSuffixFrom]
    · intro m hm hle
      omega
  | succ n ih =>
    rw [partialSuffixFrom]
    split_ifs with hpre
    · rw [List.isPrefixOf_iff_prefix] at hpre
      exact ⟨Nat.le_refl _, hpre, fun m hm hle => by omega⟩
    · rw [List.isPrefixOf_iff_prefix] at hpre
      obtain ⟨hle, hbegins, hlongest⟩ := ih
      refine ⟨by omega, hbegins, fun m hm hmn => ?_⟩
      rcases Nat.lt_or_ge n m with hlast | hearlier
      · rwa [show m = n + 1 by omega]
      · exact hlongest m hm hearlier

theorem held_partialMarkerSuffixLength (text : List Char) {marker : List Char}
    (hmarker : marker ≠ []) : Held marker text (partialMarkerSuffixLength text marker) := by
  have hpos := List.length_pos_iff.mpr hmarker
  obtain ⟨hle, hbegins, hlongest⟩ :=
    partialSuffixFrom_spec text marker (min text.length (marker.length - 1))
  rw [← partialMarkerSuffixLength] at hle hbegins hlongest
  exact ⟨by omega, by omega, hbegins, fun n hn hlen htag => hlongest n hn (by omega)⟩

theorem markerNamespace_ne_nil : markerNamespace ≠ [] := by decide

theorem toolBlockStart_ne_nil : toolBlockStart ≠ [] := by decide

theorem toolBlockEnd_ne_nil : toolBlockEnd ≠ [] := by decide

theorem namespace_prefix_start : markerNamespace <+: toolBlockStart := List.prefix_append _ _

/-- The namespace is in the marker only at its beginning. -/
theorem namespace_in_start {i : ℕ} (h : markerNamespace <+: toolBlockStart.drop i) : i = 0 := by
  have hfits := length_of_prefix_drop markerNamespace_ne_nil h
  have hsmall : ∀ j < 12, markerNamespace.isPrefixOf (toolBlockStart.drop j) = true → j = 0 := by
    decide
  refine hsmall i ?_ (List.isPrefixOf_iff_prefix.mpr h)
  have hlengths : markerNamespace.length = 13 ∧ toolBlockStart.length = 24 := by decide
  omega

/-- What of a text is held for the marker, and the length of the rest. -/
def heldStart (text : List Char) : ℕ := partialMarkerSuffixLength text toolBlockStart

theorem held_heldStart (text : List Char) : Held toolBlockStart text (heldStart text) :=
  held_partialMarkerSuffixLength text toolBlockStart_ne_nil

/-- The first namespace of a text neither begins its marker nor is held. -/
def Malformed (text : List Char) : Prop :=
  ∃ n, find markerNamespace text = some n ∧
    match find toolBlockStart text with
    | some i => n ≠ i
    | none => n ≠ text.length - heldStart text

/-- A place where the namespace and then a beginning of the marker is, up to the end of the text,
is the place from which the text is held. -/
theorem heldStart_of_namespace {text : List Char} {n : ℕ}
    (hnamespace : markerNamespace <+: text.drop n) (hpart : text.drop n <+: toolBlockStart)
    (hproper : ¬ toolBlockStart <+: text.drop n) : n = text.length - heldStart text := by
  have hheld := held_heldStart text
  have hfits := length_of_prefix_drop markerNamespace_ne_nil hnamespace
  have hshort : (text.drop n).length < toolBlockStart.length := by
    by_contra hlong
    exact hproper (hpart.eq_of_length_le (by omega) ▸ List.prefix_refl _)
  rw [List.length_drop] at hshort
  have hle : text.length - n ≤ heldStart text := by
    by_contra hlt
    refine hheld.longest (text.length - n) (by omega) (by omega) hshort ?_
    rwa [show text.length - (text.length - n) = n by omega]
  have hplace := hheld.le_length
  obtain ⟨rest, hrest⟩ := hheld.begins
  have hinside : markerNamespace <+: toolBlockStart.drop (n - (text.length - heldStart text)) := by
    rw [← hrest, List.drop_append_of_le_length (by rw [List.length_drop]; omega), List.drop_drop,
      show text.length - heldStart text + (n - (text.length - heldStart text)) = n by omega]
    exact hnamespace.trans (List.prefix_append _ _)
  have hzero := namespace_in_start hinside
  omega

/-- More text does not make up for a malformed one. -/
theorem Malformed.append {text : List Char} (more : List Char) (h : Malformed text) :
    Malformed (text ++ more) := by
  obtain ⟨n, hn, hplace⟩ := h
  obtain ⟨hocc, -⟩ := find_eq_some markerNamespace_ne_nil hn
  have hfits := length_of_prefix_drop markerNamespace_ne_nil hocc
  refine ⟨n, find_append_of_some more hn, ?_⟩
  -- a marker that the further text completes, or begins, at this place was held before
  have hpartial : find toolBlockStart text = none →
      ¬ text.drop n <+: toolBlockStart := by
    intro hnone hpart
    rw [hnone] at hplace
    exact hplace (heldStart_of_namespace hocc hpart
      ((find_eq_none toolBlockStart_ne_nil).mp hnone n))
  cases hmore : find toolBlockStart (text ++ more) with
  | some i =>
    rintro rfl
    obtain ⟨hstart, -⟩ := find_eq_some toolBlockStart_ne_nil hmore
    cases hfind : find toolBlockStart text with
    | some j =>
      rw [hfind] at hplace
      rw [find_append_of_some more hfind] at hmore
      cases hmore
      exact hplace rfl
    | none =>
      rw [List.drop_append_of_le_length (by omega)] at hstart
      rcases List.prefix_or_prefix_of_prefix hstart (List.prefix_append _ more) with hin | hpart
      · exact (find_eq_none toolBlockStart_ne_nil).mp hfind n hin
      · exact hpartial hfind hpart
  | none =>
    rintro rfl
    have hnone : find toolBlockStart text = none := by
      cases hfind : find toolBlockStart text with
      | none => rfl
      | some j =>
        rw [find_append_of_some more hfind] at hmore
        cases hmore
    have hbegins := (held_heldStart (text ++ more)).begins
    rw [List.drop_append_of_le_length (by omega)] at hbegins
    exact hpartial hnone ((List.prefix_append _ _).trans hbegins)

theorem heldStart_append (text more : List Char) :
    heldStart (text ++ more) = heldStart (text.drop (text.length - heldStart text) ++ more) :=
  (held_heldStart _).unique ((held_heldStart text).append (held_heldStart _))

/-- The namespace is before what is held in no text that is not malformed. -/
theorem no_namespace_before_held {text : List Char} (hok : ¬ Malformed text)
    (hnone : find toolBlockStart text = none) :
    ∀ i < text.length - heldStart text, ¬ markerNamespace <+: text.drop i := by
  intro i hi hocc
  cases hfind : find markerNamespace text with
  | none => exact (find_eq_none markerNamespace_ne_nil).mp hfind i hocc
  | some n =>
    refine hok ⟨n, hfind, ?_⟩
    rw [hnone]
    rintro rfl
    exact (find_eq_some markerNamespace_ne_nil hfind).2 i hi hocc

theorem find_start_append {text : List Char} (more : List Char)
    (hnone : find toolBlockStart text = none) :
    find toolBlockStart (text ++ more) =
      (find toolBlockStart (text.drop (text.length - heldStart text) ++ more)).map
        (text.length - heldStart text + ·) :=
  (held_heldStart text).find_append more (List.prefix_refl _)
    fun i _ => (find_eq_none toolBlockStart_ne_nil).mp hnone i

theorem malformed_append_iff {text : List Char} (more : List Char) (hok : ¬ Malformed text)
    (hnone : find toolBlockStart text = none) :
    Malformed (text ++ more) ↔
      Malformed (text.drop (text.length - heldStart text) ++ more) := by
  have hnamespace := (held_heldStart text).find_append more namespace_prefix_start
    (no_namespace_before_held hok hnone)
  have hstart := find_start_append more hnone
  have hheld := heldStart_append text more
  have hle := (held_heldStart text).le_length
  have hlen := (held_heldStart (text.drop (text.length - heldStart text) ++ more)).le_length
  rw [List.length_append, List.length_drop] at hlen
  simp only [Malformed, hnamespace, hstart, hheld, Option.map_eq_some_iff]
  cases find toolBlockStart (text.drop (text.length - heldStart text) ++ more) with
  | some i =>
    simp only [Option.map_some]
    constructor
    · rintro ⟨_, ⟨m, hm, rfl⟩, hne⟩
      exact ⟨m, hm, by omega⟩
    · rintro ⟨m, hm, hne⟩
      exact ⟨_, ⟨m, hm, rfl⟩, by omega⟩
  | none =>
    simp only [Option.map_none, List.length_append, List.length_drop]
    constructor
    · rintro ⟨_, ⟨m, hm, rfl⟩, hne⟩
      exact ⟨m, hm, by omega⟩
    · rintro ⟨m, hm, hne⟩
      exact ⟨_, ⟨m, hm, rfl⟩, by omega⟩

theorem drop_append_add (text more : List Char) (n : ℕ) (hn : n ≤ text.length) (k : ℕ) :
    (text ++ more).drop (n + k) = (text.drop n ++ more).drop k := by
  rw [← List.drop_drop, List.drop_append_of_le_length hn]

theorem take_append_add (text more : List Char) (n : ℕ) (hn : n ≤ text.length) (k : ℕ) :
    (text ++ more).take (n + k) = text.take n ++ (text.drop n ++ more).take k := by
  rw [List.take_add, List.take_append_of_le_length hn, List.drop_append_of_le_length hn]

/-! ## What is read, however the parts are kept -/

namespace MiniMaxM3ToolFramer

variable {s : MiniMaxM3ToolFramer}

/-- The state with its block in one part. -/
def merged (s : MiniMaxM3ToolFramer) : MiniMaxM3ToolFramer :=
  { s with toolParts := [s.toolParts.flatten] }

@[simp] theorem merged_merged : s.merged.merged = s.merged := by
  simp [merged]

/-- What a step gives, if it does not raise, with the block in one part. -/
def seen (r : Except FramerError (List Char × MiniMaxM3ToolFramer)) :
    Option (List Char × MiniMaxM3ToolFramer) :=
  r.toOption.map fun made => (made.1, made.2.merged)

def read (s : MiniMaxM3ToolFramer) (text : List Char) :
    Option (List Char × MiniMaxM3ToolFramer) := seen (s.feed text)

/-- The block with a fragment more, in one part. -/
def grow (s : MiniMaxM3ToolFramer) (fragment : List Char) : Option MiniMaxM3ToolFramer :=
  if h : s.toolLength + fragment.length ≤ maxNativeToolBlockChars then
    some { s with
      toolLength := s.toolLength + fragment.length
      toolParts := [s.toolParts.flatten ++ fragment]
      bounded := h }
  else none

def heldBack (s : MiniMaxM3ToolFramer) (tail : List Char) : MiniMaxM3ToolFramer :=
  { s with toolTail := tail }

def closed (s : MiniMaxM3ToolFramer) : MiniMaxM3ToolFramer :=
  { s with
    toolBlock := some s.toolParts.flatten
    toolParts := [[]]
    toolTail := []
    mode := .afterToolBlock }

theorem grow_of_le {fragment : List Char}
    (h : s.toolLength + fragment.length ≤ maxNativeToolBlockChars) : s.grow fragment =
      some { s with
        toolLength := s.toolLength + fragment.length
        toolParts := [s.toolParts.flatten ++ fragment]
        bounded := h } := dif_pos h

theorem grow_of_not_le {fragment : List Char}
    (h : ¬ s.toolLength + fragment.length ≤ maxNativeToolBlockChars) : s.grow fragment = none :=
  dif_neg h

theorem grow_append (s : MiniMaxM3ToolFramer) (first second : List Char) :
    s.grow (first ++ second) = (s.grow first).bind (grow · second) := by
  by_cases hboth : s.toolLength + (first ++ second).length ≤ maxNativeToolBlockChars
  · have hlength := hboth
    rw [List.length_append, ← Nat.add_assoc] at hlength
    rw [grow_of_le hboth, grow_of_le (by omega), Option.bind_some, grow_of_le hlength]
    simp [Nat.add_assoc]
  · rw [grow_of_not_le hboth]
    rw [List.length_append, ← Nat.add_assoc] at hboth
    by_cases hfirst : s.toolLength + first.length ≤ maxNativeToolBlockChars
    · rw [grow_of_le hfirst, Option.bind_some, grow_of_not_le hboth]
    · rw [grow_of_not_le hfirst]
      rfl

theorem grow_heldBack (s : MiniMaxM3ToolFramer) (tail fragment : List Char) :
    (s.heldBack tail).grow fragment = (s.grow fragment).map (heldBack · tail) := by
  by_cases hfits : s.toolLength + fragment.length ≤ maxNativeToolBlockChars
  · rw [grow_of_le hfits, grow_of_le (s := s.heldBack tail) hfits]
    rfl
  · rw [grow_of_not_le hfits, grow_of_not_le (s := s.heldBack tail) hfits]
    rfl

theorem grow_merged (s : MiniMaxM3ToolFramer) (fragment : List Char) :
    s.merged.grow fragment = s.grow fragment := by
  by_cases hfits : s.toolLength + fragment.length ≤ maxNativeToolBlockChars
  · rw [grow_of_le hfits, grow_of_le (s := s.merged) hfits]
    simp [merged]
  · rw [grow_of_not_le hfits, grow_of_not_le (s := s.merged) hfits]

theorem mode_of_grow {fragment : List Char} {t : MiniMaxM3ToolFramer}
    (h : s.grow fragment = some t) : t.mode = s.mode := by
  rw [grow] at h
  split_ifs at h
  cases h
  rfl

theorem appendToolFragment_cases (s : MiniMaxM3ToolFramer) (fragment : List Char) :
    (∃ t, s.appendToolFragment fragment = .ok t ∧ s.grow fragment = some t.merged) ∨
      ((∃ e, s.appendToolFragment fragment = .error e) ∧ s.grow fragment = none) := by
  rw [appendToolFragment]
  split_ifs with hempty hfits
  · subst hempty
    have hbound := s.bounded
    refine Or.inl ⟨s, rfl, ?_⟩
    rw [grow_of_le (by simpa using hbound)]
    simp [merged]
  · refine Or.inl ⟨_, rfl, ?_⟩
    rw [grow_of_le hfits]
    simp [merged]
  · refine Or.inr ⟨⟨_, rfl⟩, ?_⟩
    exact grow_of_not_le hfits

theorem validateTrailingText_cases (text : List Char) :
    (text.all isSpace = true ∧ validateTrailingText text = .ok ()) ∨
      (¬ text.all isSpace = true ∧ ∃ e, validateTrailingText text = .error e) := by
  rw [validateTrailingText]
  split_ifs with hspace
  · exact Or.inl ⟨List.all_eq_true.mpr (stripped_eq_nil.mp hspace), rfl⟩
  · exact Or.inr ⟨fun hall => hspace (stripped_eq_nil.mpr (List.all_eq_true.mp hall)), _, rfl⟩

def heldEnd (text : List Char) : ℕ := partialMarkerSuffixLength text toolBlockEnd

theorem held_heldEnd (text : List Char) : Held toolBlockEnd text (heldEnd text) :=
  held_partialMarkerSuffixLength text toolBlockEnd_ne_nil

/-- What `feedToolBlock` makes of a text together with what was held. -/
def blockRead (s : MiniMaxM3ToolFramer) (candidate : List Char) : Option MiniMaxM3ToolFramer :=
  match find toolBlockEnd candidate with
  | none =>
    let n := candidate.length - heldEnd candidate
    (s.grow (candidate.take n)).map (heldBack · (candidate.drop n))
  | some i =>
    if (candidate.drop (i + toolBlockEnd.length)).all isSpace then
      (s.grow (candidate.take i)).map closed
    else none

theorem blockRead_eq (s : MiniMaxM3ToolFramer) (text : List Char) :
    (s.feedToolBlock text).toOption.map merged = s.blockRead (s.toolTail ++ text) := by
  simp only [feedToolBlock]
  generalize s.toolTail ++ text = candidate
  rw [blockRead]
  cases hfind : find toolBlockEnd candidate with
  | none =>
    simp only
    rw [heldEnd]
    generalize partialMarkerSuffixLength candidate toolBlockEnd = heldLength
    have hbranches : (if heldLength ≠ 0 then do
          let s ← s.appendToolFragment (candidate.take (candidate.length - heldLength))
          return { s with toolTail := candidate.drop (candidate.length - heldLength) }
        else do
          let s ← s.appendToolFragment candidate
          return { s with toolTail := [] }) =
        (s.appendToolFragment (candidate.take (candidate.length - heldLength))).map
          (heldBack · (candidate.drop (candidate.length - heldLength))) := by
      split_ifs with hheld
      · rfl
      · rw [not_not] at hheld
        subst hheld
        simp only [Nat.sub_zero, List.take_length, List.drop_length]
        rfl
    rw [hbranches]
    rcases s.appendToolFragment_cases (candidate.take (candidate.length - heldLength)) with
      ⟨t, happend, hgrow⟩ | ⟨⟨e, happend⟩, hgrow⟩
    · rw [happend, hgrow]
      rfl
    · rw [happend, hgrow]
      rfl
  | some i =>
    simp only
    rcases s.appendToolFragment_cases (candidate.take i) with
      ⟨t, happend, hgrow⟩ | ⟨⟨e, happend⟩, hgrow⟩
    · rw [happend, hgrow]
      rcases validateTrailingText_cases (candidate.drop (i + toolBlockEnd.length)) with
        ⟨hspace, hvalid⟩ | ⟨hspace, e, hvalid⟩
      · rw [if_pos hspace]
        simp [bind, Except.bind, hvalid, Except.toOption, merged, closed, pure, Except.pure]
      · rw [if_neg hspace]
        simp [bind, Except.bind, hvalid, Except.toOption]
    · rw [happend, hgrow]
      split_ifs <;> rfl

/-- What the framer makes, outside of a block, of a text together with what was held. -/
def textRead (s : MiniMaxM3ToolFramer) (candidate : List Char) :
    Option (List Char × MiniMaxM3ToolFramer) :=
  match find toolBlockStart candidate with
  | some i =>
    ({ s with textTail := [], mode := .toolBlock }.blockRead
      (s.toolTail ++ candidate.drop (i + toolBlockStart.length))).map (candidate.take i, ·)
  | none => some (candidate.take (candidate.length - heldStart candidate),
      { s.merged with textTail := candidate.drop (candidate.length - heldStart candidate) })

theorem read_nil (hmode : s.mode ≠ .finished) : s.read [] = some ([], s.merged) := by
  rw [read, feed, if_neg hmode, if_pos rfl]
  rfl

variable {text : List Char}

theorem read_finished (hmode : s.mode = .finished) : s.read text = none := by
  rw [read, feed, if_pos hmode]
  rfl

theorem read_toolBlock (hmode : s.mode = .toolBlock) (htext : text ≠ []) :
    s.read text = (s.blockRead (s.toolTail ++ text)).map ([], ·) := by
  rw [read, feed, if_neg (by simp [hmode]), if_neg htext, if_pos hmode, ← blockRead_eq]
  cases s.feedToolBlock text with
  | error e => rfl
  | ok t => rfl

theorem read_afterToolBlock (hmode : s.mode = .afterToolBlock) (htext : text ≠ []) :
    s.read text = if text.all isSpace then some ([], s.merged) else none := by
  rw [read, feed, if_neg (by simp [hmode]), if_neg htext, if_neg (by simp [hmode]), if_pos hmode]
  rcases validateTrailingText_cases text with ⟨hspace, hvalid⟩ | ⟨hspace, e, hvalid⟩
  · rw [hvalid, if_pos hspace]
    rfl
  · rw [hvalid, if_neg hspace]
    rfl

theorem read_text (hmode : s.mode = .text) (htext : text ≠ []) :
    (Malformed (s.textTail ++ text) → s.read text = none) ∧
      (¬ Malformed (s.textTail ++ text) → s.read text = s.textRead (s.textTail ++ text)) := by
  rw [read, feed, if_neg (by simp [hmode]), if_neg htext, if_neg (by simp [hmode]),
    if_neg (by simp [hmode])]
  simp only [textRead, Malformed]
  generalize s.textTail ++ text = candidate
  cases hstart : find toolBlockStart candidate with
  | some i =>
    simp only
    cases hnamespace : find markerNamespace candidate with
    | none =>
      refine ⟨by simp, fun _ => ?_⟩
      rw [if_neg (by simp), ← blockRead_eq]
      cases ({ s with textTail := [], mode := .toolBlock } : MiniMaxM3ToolFramer).feedToolBlock
        (candidate.drop (i + toolBlockStart.length)) with
      | error e => rfl
      | ok t => rfl
    | some n =>
      refine ⟨fun hbad => ?_, fun hok => ?_⟩
      · have hne : n ≠ i := by simpa using hbad
        rw [if_pos (by simpa using hne)]
        rfl
      · have heq : n = i := by simpa using hok
        rw [if_neg (by simpa using heq), ← blockRead_eq]
        cases ({ s with textTail := [], mode := .toolBlock } : MiniMaxM3ToolFramer).feedToolBlock
          (candidate.drop (i + toolBlockStart.length)) with
        | error e => rfl
        | ok t => rfl
  | none =>
    simp only
    rw [heldStart]
    generalize partialMarkerSuffixLength candidate toolBlockStart = heldLength
    have hrest : seen (if heldLength ≠ 0 then
          .ok (candidate.take (candidate.length - heldLength),
            { s with textTail := candidate.drop (candidate.length - heldLength) })
        else .ok (candidate, { s with textTail := [] })) =
        some (candidate.take (candidate.length - heldLength),
          { s.merged with textTail := candidate.drop (candidate.length - heldLength) }) := by
      by_cases hzero : heldLength = 0
      · subst hzero
        simp [seen, Except.toOption, merged]
      · rw [if_pos hzero]
        rfl
    cases hnamespace : find markerNamespace candidate with
    | none =>
      refine ⟨by simp, fun _ => ?_⟩
      rw [if_neg (by simp)]
      exact hrest
    | some n =>
      have hfits := length_of_prefix_drop markerNamespace_ne_nil
        (find_eq_some markerNamespace_ne_nil hnamespace).1
      have hpos := List.length_pos_iff.mpr markerNamespace_ne_nil
      refine ⟨fun hbad => ?_, fun hok => ?_⟩
      · have hne : n ≠ candidate.length - heldLength := by simpa using hbad
        rw [if_pos]
        · rfl
        · refine ⟨by simp, ?_⟩
          split_ifs <;> simp [hne]
      · have heq : n = candidate.length - heldLength := by simpa using hok
        have hheld : heldLength ≠ 0 := by omega
        rw [if_neg (by simp [hheld, heq])]
        exact hrest

theorem blockRead_merged (s : MiniMaxM3ToolFramer) (candidate : List Char) :
    s.merged.blockRead candidate = s.blockRead candidate := by
  simp only [blockRead, grow_merged]

/-- What a block makes of two texts. -/
theorem blockRead_append {candidate more : List Char} (hmode : s.mode = .toolBlock)
    (hmore : more ≠ []) :
    s.blockRead (candidate ++ more) =
      (s.blockRead candidate).bind fun t => (t.read more).map Prod.snd := by
  cases hfind : find toolBlockEnd candidate with
  | some i =>
    have hfits := length_of_prefix_drop toolBlockEnd_ne_nil
      (find_eq_some toolBlockEnd_ne_nil hfind).1
    simp only [blockRead, find_append_of_some more hfind, hfind]
    rw [List.drop_append_of_le_length (by omega), List.take_append_of_le_length (by omega)]
    simp only [List.all_append, Bool.and_eq_true]
    by_cases hspace : (candidate.drop (i + toolBlockEnd.length)).all isSpace
    · rw [if_pos hspace]
      cases hgrow : s.grow (candidate.take i) with
      | none => simp
      | some t =>
        rw [Option.map_some, Option.bind_some, read_afterToolBlock rfl hmore]
        by_cases hlater : more.all isSpace = true
        · rw [if_pos hlater, if_pos ⟨hspace, hlater⟩]
          simp [merged, closed]
        · rw [if_neg hlater, if_neg (fun hall => hlater hall.2)]
          rfl
    · rw [if_neg hspace, if_neg (fun hall => hspace hall.1)]
      rfl
  | none =>
    set n := candidate.length - heldEnd candidate with hn
    have hheld := held_heldEnd candidate
    have hlater := held_heldEnd (candidate.drop n ++ more)
    have hboth := (held_heldEnd (candidate ++ more)).unique (hheld.append hlater)
    have hplace : find toolBlockEnd (candidate ++ more) =
        (find toolBlockEnd (candidate.drop n ++ more)).map (n + ·) :=
      hheld.find_append more (List.prefix_refl _)
        fun i _ => (find_eq_none toolBlockEnd_ne_nil).mp hfind i
    have hle := hheld.le_length
    have hlaterLe := hlater.le_length
    rw [List.length_append, List.length_drop] at hlaterLe
    have hdrop := drop_append_add candidate more n (by omega)
    have htake := take_append_add candidate more n (by omega)
    have hwhole : s.blockRead (candidate ++ more) = (s.grow (candidate.take n)).bind fun t =>
        (t.heldBack (candidate.drop n)).blockRead (candidate.drop n ++ more) := by
      rw [blockRead, hplace, hboth]
      cases hfindLater : find toolBlockEnd (candidate.drop n ++ more) with
      | some k =>
        simp only [Option.map_some, blockRead, hfindLater, Nat.add_assoc, hdrop, htake,
          grow_append, grow_heldBack]
        split_ifs
        · cases s.grow (candidate.take n) with
          | none => rfl
          | some t =>
            cases hgrow : t.grow ((candidate.drop n ++ more).take k) <;>
              simp [hgrow, closed, heldBack]
        · cases s.grow (candidate.take n) <;> rfl
      | none =>
        have hlength : (candidate ++ more).length - heldEnd (candidate.drop n ++ more) =
            n + ((candidate.drop n ++ more).length - heldEnd (candidate.drop n ++ more)) := by
          rw [List.length_append, List.length_append, List.length_drop]
          omega
        simp only [Option.map_none, blockRead, hfindLater, hlength, hdrop, htake, grow_append,
          grow_heldBack]
        cases s.grow (candidate.take n) with
        | none => rfl
        | some t => simp [heldBack, Function.comp_def]
    have hearlier : s.blockRead candidate =
        (s.grow (candidate.take n)).map (heldBack · (candidate.drop n)) := by
      rw [blockRead, hfind]
    rw [hwhole, hearlier]
    cases hgrow : s.grow (candidate.take n) with
    | none => rfl
    | some t =>
      have hmodeLater : (t.heldBack (candidate.drop n)).mode = .toolBlock :=
        (mode_of_grow hgrow).trans hmode
      rw [Option.bind_some, Option.map_some, Option.bind_some, read_toolBlock hmodeLater hmore,
        Option.map_map]
      exact Option.map_id'.symm

theorem textRead_merged (s : MiniMaxM3ToolFramer) (candidate : List Char) :
    s.merged.textRead candidate = s.textRead candidate := by
  cases hfind : find toolBlockStart candidate with
  | none => simp only [textRead, hfind, merged_merged]
  | some i =>
    simp only [textRead, hfind]
    rw [← blockRead_merged { s with textTail := [], mode := .toolBlock }]
    rfl

theorem read_merged (s : MiniMaxM3ToolFramer) (text : List Char) :
    s.merged.read text = s.read text := by
  by_cases hfinished : s.mode = .finished
  · rw [read_finished hfinished]
    exact read_finished hfinished
  · by_cases htext : text = []
    · have hmerged := read_nil (s := s.merged) hfinished
      rwa [merged_merged, ← read_nil hfinished, ← htext] at hmerged
    · cases hmode : s.mode with
      | finished => exact absurd hmode hfinished
      | toolBlock =>
        rw [read_toolBlock hmode htext, ← blockRead_merged]
        exact read_toolBlock (s := s.merged) hmode htext
      | afterToolBlock =>
        have hmerged := read_afterToolBlock (s := s.merged) hmode htext
        rwa [merged_merged, ← read_afterToolBlock hmode htext] at hmerged
      | text =>
        have hread := read_text hmode htext
        have hmerged := read_text (s := s.merged) hmode htext
        by_cases hbad : Malformed (s.textTail ++ text)
        · rw [hread.1 hbad]
          exact hmerged.1 hbad
        · rw [hread.2 hbad, ← textRead_merged]
          exact hmerged.2 hbad

/-- Nothing of a block, or after it, is shown. -/
theorem shown_of_not_text {visible : List Char} {t : MiniMaxM3ToolFramer} (hmode : s.mode ≠ .text)
    (h : s.read text = some (visible, t)) : visible = [] := by
  by_cases hfinished : s.mode = .finished
  · rw [read_finished hfinished] at h
    cases h
  · by_cases htext : text = []
    · rw [htext, read_nil hfinished] at h
      cases h
      rfl
    · cases hcase : s.mode with
      | finished => exact absurd hcase hfinished
      | text => exact absurd hcase hmode
      | toolBlock =>
        rw [read_toolBlock hcase htext, Option.map_eq_some_iff] at h
        obtain ⟨_, -, h⟩ := h
        cases h
        rfl
      | afterToolBlock =>
        rw [read_afterToolBlock hcase htext] at h
        split_ifs at h
        cases h
        rfl

theorem mode_of_blockRead {candidate : List Char} {t : MiniMaxM3ToolFramer}
    (hmode : s.mode = .toolBlock) (h : s.blockRead candidate = some t) :
    t.mode ≠ .text ∧ t.mode ≠ .finished := by
  rw [blockRead] at h
  split at h
  · obtain ⟨u, hu, rfl⟩ := Option.map_eq_some_iff.mp h
    rw [heldBack, mode_of_grow hu, hmode]
    exact ⟨nofun, nofun⟩
  · split_ifs at h
    obtain ⟨u, hu, rfl⟩ := Option.map_eq_some_iff.mp h
    exact ⟨nofun, nofun⟩

/-- What is read of two texts, the second after the first. -/
def readThen (first : Option (List Char × MiniMaxM3ToolFramer)) (more : List Char) :
    Option (List Char × MiniMaxM3ToolFramer) :=
  first.bind fun made => (made.2.read more).map fun rest => (made.1 ++ rest.1, rest.2)

theorem textRead_append {candidate more : List Char} (hmode : s.mode = .text) (hmore : more ≠ [])
    (hok : ¬ Malformed candidate) (hlater : ¬ Malformed (candidate ++ more)) :
    s.textRead (candidate ++ more) = readThen (s.textRead candidate) more := by
  cases hfind : find toolBlockStart candidate with
  | some i =>
    have hfits := length_of_prefix_drop toolBlockStart_ne_nil
      (find_eq_some toolBlockStart_ne_nil hfind).1
    simp only [textRead, find_append_of_some more hfind, hfind]
    rw [List.drop_append_of_le_length (by omega), List.take_append_of_le_length (by omega),
      ← List.append_assoc, blockRead_append rfl hmore]
    generalize hblock : ({ s with textTail := [], mode := .toolBlock } : MiniMaxM3ToolFramer) =
      block
    cases hread : block.blockRead (s.toolTail ++ candidate.drop (i + toolBlockStart.length)) with
    | none => rfl
    | some t =>
      have hnot := (mode_of_blockRead (by rw [← hblock]) hread).1
      rw [readThen, Option.bind_some, Option.map_some, Option.bind_some]
      cases hrest : t.read more with
      | none => rfl
      | some rest =>
        simp [shown_of_not_text hnot hrest]
  | none =>
    set n := candidate.length - heldStart candidate with hn
    have hheld := held_heldStart candidate
    have hstart : find toolBlockStart (candidate ++ more) =
        (find toolBlockStart (candidate.drop n ++ more)).map (n + ·) :=
      find_start_append more hfind
    have hboth : heldStart (candidate ++ more) = heldStart (candidate.drop n ++ more) :=
      heldStart_append candidate more
    have hlaterOk : ¬ Malformed (candidate.drop n ++ more) := fun hbad =>
      hlater ((malformed_append_iff more hok hfind).mpr hbad)
    have hle := hheld.le_length
    have hlaterLe := (held_heldStart (candidate.drop n ++ more)).le_length
    rw [List.length_append, List.length_drop] at hlaterLe
    have hdrop := drop_append_add candidate more n (by omega)
    have htake := take_append_add candidate more n (by omega)
    have hearlier : s.textRead candidate =
        some (candidate.take n, { s.merged with textTail := candidate.drop n }) := by
      rw [textRead, hfind]
    have hnext := (read_text (s := { s.merged with textTail := candidate.drop n }) hmode hmore).2
      hlaterOk
    rw [hearlier, readThen, Option.bind_some, hnext]
    cases hfindLater : find toolBlockStart (candidate.drop n ++ more) with
    | some k =>
      rw [hfindLater] at hstart
      simp only [textRead, hstart, hfindLater, Option.map_some, Nat.add_assoc, hdrop, htake]
      rw [← blockRead_merged { s with textTail := [], mode := .toolBlock }, Option.map_map]
      rfl
    | none =>
      rw [hfindLater] at hstart
      have hlength : (candidate ++ more).length - heldStart (candidate.drop n ++ more) =
          n + ((candidate.drop n ++ more).length - heldStart (candidate.drop n ++ more)) := by
        rw [List.length_append, List.length_append, List.length_drop]
        omega
      simp only [textRead, hstart, hfindLater, Option.map_none, hboth, hlength, hdrop, htake]
      simp [merged]

/-- A text that becomes malformed is refused when it does. -/
theorem textRead_malformed {candidate more : List Char} (hmode : s.mode = .text)
    (hmore : more ≠ []) (hok : ¬ Malformed candidate) (hlater : Malformed (candidate ++ more)) :
    readThen (s.textRead candidate) more = none := by
  cases hfind : find toolBlockStart candidate with
  | some i =>
    obtain ⟨n, hn, hplace⟩ := hlater
    rw [find_append_of_some more hfind] at hplace
    cases hnamespace : find markerNamespace candidate with
    | some m =>
      rw [find_append_of_some more hnamespace] at hn
      cases hn
      refine absurd ⟨n, hnamespace, ?_⟩ hok
      rw [hfind]
      exact hplace
    | none =>
      have hstart := (find_eq_some toolBlockStart_ne_nil hfind).1
      exact absurd (namespace_prefix_start.trans hstart)
        ((find_eq_none markerNamespace_ne_nil).mp hnamespace i)
  | none =>
    have hbad := (malformed_append_iff more hok hfind).mp hlater
    set n := candidate.length - heldStart candidate
    have hearlier : s.textRead candidate =
        some (candidate.take n, { s.merged with textTail := candidate.drop n }) := by
      rw [textRead, hfind]
    have hnext := (read_text (s := { s.merged with textTail := candidate.drop n }) hmode hmore).1
      hbad
    rw [hearlier, readThen, Option.bind_some, hnext]
    rfl

theorem mode_of_textRead {candidate visible : List Char} {t : MiniMaxM3ToolFramer}
    (hmode : s.mode = .text) (h : s.textRead candidate = some (visible, t)) :
    t.mode ≠ .finished := by
  rw [textRead] at h
  split at h
  · obtain ⟨u, hu, h⟩ := Option.map_eq_some_iff.mp h
    cases h
    exact (mode_of_blockRead rfl hu).2
  · cases h
    exact fun hfinished => by simp [merged, hmode] at hfinished

theorem read_keeps_open {t : MiniMaxM3ToolFramer} {visible : List Char}
    (h : s.read text = some (visible, t)) : t.merged = t ∧ t.mode ≠ .finished := by
  constructor
  · rw [read, seen, Option.map_eq_some_iff] at h
    obtain ⟨made, -, h⟩ := h
    cases h
    exact merged_merged
  by_cases hfinished : s.mode = .finished
  · rw [read_finished hfinished] at h
    cases h
  by_cases htext : text = []
  · rw [htext, read_nil hfinished] at h
    cases h
    exact hfinished
  cases hmode : s.mode with
  | finished => exact absurd hmode hfinished
  | toolBlock =>
    rw [read_toolBlock hmode htext, Option.map_eq_some_iff] at h
    obtain ⟨u, hu, h⟩ := h
    cases h
    exact (mode_of_blockRead hmode hu).2
  | afterToolBlock =>
    rw [read_afterToolBlock hmode htext] at h
    split_ifs at h
    cases h
    exact hfinished
  | text =>
    by_cases hbad : Malformed (s.textTail ++ text)
    · rw [(read_text hmode htext).1 hbad] at h
      cases h
    · rw [(read_text hmode htext).2 hbad] at h
      exact mode_of_textRead hmode h

/-- Reading two texts as one. -/
theorem read_append (s : MiniMaxM3ToolFramer) (text more : List Char) :
    s.read (text ++ more) = readThen (s.read text) more := by
  by_cases hfinished : s.mode = .finished
  · rw [read_finished hfinished, read_finished hfinished]
    rfl
  by_cases htext : text = []
  · rw [htext, read_nil hfinished, readThen, Option.bind_some, read_merged, List.nil_append]
    simp
  by_cases hmore : more = []
  · rw [hmore, List.append_nil, readThen]
    cases hread : s.read text with
    | none => rfl
    | some made =>
      obtain ⟨hmerged, hopen⟩ := read_keeps_open hread
      rw [Option.bind_some, read_nil hopen, hmerged]
      simp
  have hwhole : text ++ more ≠ [] := by simp [htext]
  cases hmode : s.mode with
  | finished => exact absurd hmode hfinished
  | toolBlock =>
    rw [read_toolBlock hmode hwhole, read_toolBlock hmode htext, ← List.append_assoc,
      blockRead_append hmode hmore, readThen]
    cases hblock : s.blockRead (s.toolTail ++ text) with
    | none => rfl
    | some t =>
      rw [Option.bind_some, Option.map_some, Option.bind_some]
      cases hrest : t.read more with
      | none => rfl
      | some rest =>
        obtain ⟨visible, u⟩ := rest
        cases shown_of_not_text (mode_of_blockRead hmode hblock).1 hrest
        rfl
  | afterToolBlock =>
    rw [read_afterToolBlock hmode hwhole, read_afterToolBlock hmode htext]
    simp only [List.all_append, Bool.and_eq_true]
    by_cases hspace : text.all isSpace = true
    · rw [if_pos hspace, readThen, Option.bind_some, read_merged, read_afterToolBlock hmode hmore]
      by_cases hlater : more.all isSpace = true
      · rw [if_pos hlater, if_pos ⟨hspace, hlater⟩]
        rfl
      · rw [if_neg hlater, if_neg (fun hall => hlater hall.2)]
        rfl
    · rw [if_neg hspace, if_neg (fun hall => hspace hall.1)]
      rfl
  | text =>
    have hread := read_text hmode htext
    have hboth := read_text hmode hwhole
    rw [← List.append_assoc] at hboth
    by_cases hbad : Malformed (s.textTail ++ text)
    · rw [hread.1 hbad, hboth.1 (hbad.append more)]
      rfl
    · rw [hread.2 hbad]
      by_cases hlater : Malformed (s.textTail ++ text ++ more)
      · rw [hboth.1 hlater, textRead_malformed hmode hmore hbad hlater]
      · rw [hboth.2 hlater, textRead_append hmode hmore hbad hlater]

/-! ## Streams -/

theorem initial_open : ({} : MiniMaxM3ToolFramer).mode ≠ .finished := by decide

/-- Feeding chunks is reading their text. -/
theorem feedAll_eq_read (hopen : s.mode ≠ .finished) (chunks : List (List Char)) :
    seen (s.feedAll chunks) = s.read chunks.flatten := by
  induction chunks generalizing s with
  | nil => rw [List.flatten_nil, read_nil hopen]; rfl
  | cons chunk chunks ih =>
    rw [List.flatten_cons, read_append, readThen, feedAll]
    cases hfeed : s.feed chunk with
    | error e =>
      rw [read, hfeed]
      rfl
    | ok first =>
      have hread : s.read chunk = some (first.1, first.2.merged) := by
        rw [read, hfeed]
        rfl
      have hnext : first.2.mode ≠ .finished := (read_keeps_open hread).2
      have hrest := ih hnext
      rw [hread, Option.bind_some, read_merged, ← hrest]
      simp only [bind, Except.bind]
      cases first.2.feedAll chunks with
      | error e => rfl
      | ok rest => rfl

/-- What the end of a stream shows, and its block. -/
def ended (s : MiniMaxM3ToolFramer) (requireComplete : Bool) :
    Option (List Char × Option (List Char)) :=
  (s.finish requireComplete).toOption.map fun last => (last.1, last.2.toolBlock)

theorem ended_merged (s : MiniMaxM3ToolFramer) (requireComplete : Bool) :
    s.merged.ended requireComplete = s.ended requireComplete := by
  obtain ⟨mode, textTail, toolTail, toolParts, toolLength, toolBlock, bounded⟩ := s
  cases mode with
  | finished => rfl
  | afterToolBlock => rfl
  | toolBlock => cases requireComplete <;> rfl
  | text =>
    cases hfound : find markerNamespace textTail with
    | none => simp [ended, finish, merged, hfound, Except.toOption]
    | some n => cases requireComplete <;> simp [ended, finish, merged, hfound, Except.toOption]

/-- A stream is its text. -/
theorem frame_eq_read (requireComplete : Bool) (chunks : List (List Char)) :
    (frame requireComplete chunks).toOption =
      (read {} chunks.flatten).bind fun fed =>
        (fed.2.ended requireComplete).map fun last => (fed.1 ++ last.1, last.2) := by
  rw [← feedAll_eq_read initial_open, frame]
  cases feedAll {} chunks with
  | error e => rfl
  | ok fed =>
    rw [seen, Except.toOption]
    simp only [Option.map_some, Option.bind_some, ended_merged]
    rw [ended]
    simp only [bind, Except.bind]
    cases fed.2.finish requireComplete with
    | error e => rfl
    | ok last => rfl

/-- What is shown of a text, and what is held of it. -/
structure Withholds (text visible : List Char) (s : MiniMaxM3ToolFramer) : Prop where
  marked : ∀ i, find toolBlockStart text = some i → visible = text.take i
  unmarked : find toolBlockStart text = none →
    visible ++ s.textTail = text ∧ Held toolBlockStart text s.textTail.length
  noNamespace : find markerNamespace visible = none

/-- What the end of a stream shows: what is held, if the namespace is not in it. -/
structure Ends (visible last : List Char) (s : MiniMaxM3ToolFramer) : Prop where
  held : last =
    if s.mode = .text ∧ s.textTail.length < markerNamespace.length then s.textTail else []
  noNamespace : find markerNamespace (visible ++ last) = none

theorem find_take_eq_none {text : List Char} {n : ℕ}
    (hno : ∀ i < n, ¬ markerNamespace <+: text.drop i) :
    find markerNamespace (text.take n) = none := by
  rw [find_eq_none markerNamespace_ne_nil]
  intro i hocc
  have hfits := length_of_prefix_drop markerNamespace_ne_nil hocc
  have hpos := List.length_pos_iff.mpr markerNamespace_ne_nil
  rw [List.length_take] at hfits
  refine hno i (by omega) (hocc.trans ?_)
  rw [List.drop_take]
  exact List.take_prefix _ _

theorem withholds_of_read {text visible : List Char} {s : MiniMaxM3ToolFramer}
    (h : read {} text = some (visible, s)) : Withholds text visible s := by
  by_cases htext : text = []
  · subst htext
    rw [read_nil initial_open] at h
    cases h
    exact ⟨fun i hi => (by cases hi), fun _ => ⟨rfl, held_heldStart []⟩, rfl⟩
  have hread := read_text (s := {}) rfl htext
  rw [List.nil_append] at hread
  have hok : ¬ Malformed text := by
    intro hbad
    rw [hread.1 hbad] at h
    cases h
  rw [hread.2 hok, textRead] at h
  cases hfind : find toolBlockStart text with
  | some i =>
    rw [hfind] at h
    obtain ⟨block, -, h⟩ := Option.map_eq_some_iff.mp h
    cases h
    refine ⟨fun j hj => ?_, fun hnone => ?_, ?_⟩
    · rw [hfind] at hj
      cases hj
      rfl
    · rw [hfind] at hnone
      cases hnone
    · have hstart := (find_eq_some toolBlockStart_ne_nil hfind).1
      refine find_take_eq_none fun j hj hocc => ?_
      cases hnamespace : find markerNamespace text with
      | none => exact (find_eq_none markerNamespace_ne_nil).mp hnamespace j hocc
      | some n =>
        have hplace : n = i := by
          by_contra hne
          refine hok ⟨n, hnamespace, ?_⟩
          rw [hfind]
          exact hne
        subst hplace
        exact (find_eq_some markerNamespace_ne_nil hnamespace).2 j hj hocc
  | none =>
    rw [hfind] at h
    cases h
    refine ⟨fun i hi => ?_, fun _ => ⟨List.take_append_drop _ _, ?_⟩,
      find_take_eq_none (no_namespace_before_held hok hfind)⟩
    · rw [hfind] at hi
      cases hi
    have hheld := held_heldStart text
    have hle := hheld.le_length
    simp only [List.length_drop]
    rwa [show text.length - (text.length - heldStart text) = heldStart text by omega]

/-- The namespace is in what is held if there is room for it. -/
theorem namespace_in_held {text tail : List Char} (hheld : Held toolBlockStart text tail.length)
    (htail : text.drop (text.length - tail.length) = tail) :
    (find markerNamespace tail).isSome = true ↔ markerNamespace.length ≤ tail.length := by
  rw [Option.isSome_iff_ne_none, ne_eq, find_eq_none markerNamespace_ne_nil]
  constructor
  · intro h
    by_contra hshort
    refine h fun i hocc => ?_
    have hfits := length_of_prefix_drop markerNamespace_ne_nil hocc
    omega
  · intro hlong h
    have hbegins := hheld.begins
    rw [htail] at hbegins
    exact h 0 (List.prefix_of_prefix_length_le namespace_prefix_start hbegins hlong)

/-- Of a text that is read and has no marker, the first namespace is in what is held. -/
theorem namespace_held_of_read {text visible : List Char} {s : MiniMaxM3ToolFramer}
    (h : read {} text = some (visible, s)) (hfind : find toolBlockStart text = none) {n : ℕ}
    (hn : find markerNamespace text = some n) : n = text.length - heldStart text := by
  have htext : text ≠ [] := by
    rintro rfl
    cases hn
  have hread := read_text (s := {}) rfl htext
  rw [List.nil_append] at hread
  by_contra hne
  have hbad : Malformed text := by
    refine ⟨n, hn, ?_⟩
    rw [hfind]
    exact hne
  rw [hread.1 hbad] at h
  cases h

theorem mode_of_read {text visible : List Char} {s : MiniMaxM3ToolFramer}
    (h : read {} text = some (visible, s)) (hmode : s.mode = .text) :
    find toolBlockStart text = none := by
  by_cases htext : text = []
  · subst htext
    rfl
  have hread := read_text (s := {}) rfl htext
  rw [List.nil_append] at hread
  by_cases hbad : Malformed text
  · rw [hread.1 hbad] at h
    cases h
  rw [hread.2 hbad, textRead] at h
  cases hfind : find toolBlockStart text with
  | none => rfl
  | some i =>
    rw [hfind] at h
    obtain ⟨block, hblock, h⟩ := Option.map_eq_some_iff.mp h
    cases h
    exact absurd hmode (mode_of_blockRead rfl hblock).1

theorem ends_of_read {text visible last : List Char} {s : MiniMaxM3ToolFramer}
    {requireComplete : Bool} {block : Option (List Char)} (h : read {} text = some (visible, s))
    (hended : s.ended requireComplete = some (last, block)) : Ends visible last s := by
  have hwithholds := withholds_of_read h
  cases hmode : s.mode with
  | text =>
    have hfind := mode_of_read h hmode
    obtain ⟨hwhole, hheld⟩ := hwithholds.unmarked hfind
    have htail : text.drop (text.length - s.textTail.length) = s.textTail := by
      rw [← hwhole, List.length_append, Nat.add_sub_cancel, List.drop_left]
    have hroom := namespace_in_held hheld htail
    rw [ended, finish] at hended
    simp only [hmode] at hended
    by_cases hnamespace : (find markerNamespace s.textTail).isSome = true
    · rw [if_pos hnamespace] at hended
      split_ifs at hended
      · cases hended
      · cases hended
        have hlong := hroom.mp hnamespace
        refine ⟨by rw [if_neg (by omega)], ?_⟩
        rw [List.append_nil]
        exact hwithholds.noNamespace
    · rw [if_neg hnamespace] at hended
      cases hended
      have hshort := mt hroom.mpr hnamespace
      refine ⟨by rw [if_pos ⟨hmode, by omega⟩], ?_⟩
      rw [hwhole]
      cases hn : find markerNamespace text with
      | none => rfl
      | some n =>
        have hplace := namespace_held_of_read h hfind hn
        have hocc := (find_eq_some markerNamespace_ne_nil hn).1
        have hfits := length_of_prefix_drop markerNamespace_ne_nil hocc
        rw [(held_heldStart text).unique hheld] at hplace
        omega
  | toolBlock =>
    rw [ended, finish] at hended
    simp only [hmode] at hended
    split_ifs at hended
    · cases hended
    · cases hended
      refine ⟨by simp [hmode], ?_⟩
      rw [List.append_nil]
      exact hwithholds.noNamespace
  | afterToolBlock =>
    rw [ended, finish] at hended
    simp only [hmode] at hended
    cases hended
    refine ⟨by simp [hmode], ?_⟩
    rw [List.append_nil]
    exact hwithholds.noNamespace
  | finished => exact absurd hmode (read_keeps_open h).2


/-- However a text is cut, the framer raises, or shows the same text and gives the same block.
What it shows is what is before the marker, or before what is held for it, and of what is held the
end shows what is shorter than the namespace. -/
theorem framing_of_chunks (requireComplete : Bool) {chunks chunks' : List (List Char)}
    (h : chunks.flatten = chunks'.flatten) :
    (frame requireComplete chunks).toOption = (frame requireComplete chunks').toOption ∧
      ∀ visible s, feedAll {} chunks = .ok (visible, s) →
        Withholds chunks.flatten visible s ∧
          ∀ last t, s.finish requireComplete = .ok (last, t) → Ends visible last s := by
  constructor
  · rw [frame_eq_read, frame_eq_read, h]
  · intro visible s hfed
    have hread : read {} chunks.flatten = some (visible, s.merged) := by
      rw [← feedAll_eq_read initial_open, hfed]
      rfl
    have hwithholds := withholds_of_read hread
    refine ⟨⟨hwithholds.marked, hwithholds.unmarked, hwithholds.noNamespace⟩, ?_⟩
    intro last t hlast
    have hended : s.merged.ended requireComplete = some (last, t.toolBlock) := by
      rw [ended_merged, ended, hlast]
      rfl
    have hends := ends_of_read hread hended
    exact ⟨hends.held, hends.noNamespace⟩

/-- The end of a stream shows a part of the marker that may be text as well. -/
theorem partial_marker_shown : ∃ part : List Char, part ≠ [] ∧ part <+: toolBlockStart ∧
    part ≠ toolBlockStart ∧ frame true [part] = .ok (part, none) :=
  ⟨"]<]minimax[>".toList, by decide, by decide, by decide, by decide⟩

def cutStream : List (List Char) :=
  ["Hi ]<]mini".toList, "max[>[<tool_call>x]<]minimax[>[</tool_".toList, "call>\n".toList]

theorem framing_of_cutStream :
    (frame true cutStream).toOption = (frame true [cutStream.flatten]).toOption ∧
      ∀ visible s, feedAll {} cutStream = .ok (visible, s) →
        Withholds cutStream.flatten visible s ∧
          ∀ last t, s.finish true = .ok (last, t) → Ends visible last s :=
  framing_of_chunks true (by decide)

end MiniMaxM3ToolFramer

end Switchboard.Providers.NativeToolFramer
