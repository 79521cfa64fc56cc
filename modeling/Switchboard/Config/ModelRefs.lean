import Mathlib
import Switchboard.Library.Text

/-!
# Model references

A reference is `provider/model`. A client can attach a virtual context suffix such as `[1m]`,
which `normalizeModelRef` removes with the whitespace around the reference.
-/

namespace Switchboard.Config

open Text

/-- What the resolution of a model raises. -/
inductive RoutingError where
  | valueError
  | indexError
  | unknownProvider (providerId : List Char)
deriving DecidableEq

structure NormalizedModelRef where
  modelRef : List Char
  virtualContextWindow : Option ℕ := none
deriving DecidableEq

structure VirtualContextSuffix where
  model : List Char
  amount : List Char
  unit : Char

/-- `_VIRTUAL_CONTEXT_SUFFIX`, read from the end of a text. -/
def virtualContextSuffix (text : List Char) : Option VirtualContextSuffix :=
  match text.reverse with
  | ']' :: unit :: rest =>
    match rest.takeWhile Char.isDigit, rest.dropWhile Char.isDigit with
    | digit :: digits, '[' :: model =>
      if unit ∈ ['k', 'K', 'm', 'M'] ∧ model ≠ [] ∧ '\n' ∉ model then
        some ⟨model.reverse, (digit :: digits).reverse, unit⟩
      else none
    | _, _ => none
  | _ => none

/-- The digits that `int` reads at most. -/
def maxStrDigits : ℕ := 4300

def digitsValue (digits : List Char) : ℕ :=
  digits.foldl (fun value digit => 10 * value + (digit.toNat - '0'.toNat)) 0

def multiplier (unit : Char) : ℕ := if unit = 'k' ∨ unit = 'K' then 1000 else 1000000

def normalizeModelRef (modelRef : List Char) : Except RoutingError NormalizedModelRef :=
  let normalized := stripped isSpace modelRef
  match virtualContextSuffix normalized with
  | none => .ok { modelRef := normalized }
  | some suffix =>
    if maxStrDigits < suffix.amount.length then .error .valueError
    else .ok {
      modelRef := suffix.model
      virtualContextWindow := some (digitsValue suffix.amount * multiplier suffix.unit) }

/-- `model_ref.split("/", 1)[0]` -/
def parseProviderType (modelRef : List Char) : List Char := modelRef.takeWhile (· ≠ '/')

/-- `model_ref.split("/", 1)[1]` -/
def parseModelName (modelRef : List Char) : Except RoutingError (List Char) :=
  match partitionAt '/' modelRef with
  | some (_, modelName) => .ok modelName
  | none => .error .indexError

theorem parseProviderType_append {providerId : List Char} (modelName : List Char)
    (h : '/' ∉ providerId) : parseProviderType (providerId ++ '/' :: modelName) = providerId := by
  have hall : ∀ c ∈ providerId, decide (c ≠ '/') = true := fun c hc => by
    rw [decide_eq_true_iff]
    rintro rfl
    exact h hc
  rw [parseProviderType, List.takeWhile_append_of_pos hall]
  simp

/-! ## The suffix -/

/-- A suffix as it stands in a text. -/
def VirtualContextSuffix.tail (suffix : VirtualContextSuffix) : List Char :=
  '[' :: suffix.amount ++ [suffix.unit, ']']

structure VirtualContextSuffix.WellFormed (suffix : VirtualContextSuffix) : Prop where
  digits : ∀ c ∈ suffix.amount, c.isDigit = true
  amount : suffix.amount ≠ []
  unit : suffix.unit ∈ ['k', 'K', 'm', 'M']
  model : suffix.model ≠ []
  oneLine : '\n' ∉ suffix.model

theorem virtualContextSuffix_eq_some {text : List Char} {suffix : VirtualContextSuffix} :
    virtualContextSuffix text = some suffix ↔
      text = suffix.model ++ suffix.tail ∧ suffix.WellFormed := by
  constructor
  · intro h
    unfold virtualContextSuffix at h
    split at h
    · next unit rest hreverse =>
      split at h
      · next digit digits model htake hdrop =>
        split_ifs at h with hparts
        cases h
        have hrest : rest = digit :: digits ++ '[' :: model := by
          rw [← htake, ← hdrop, List.takeWhile_append_dropWhile]
        have htext : text = (']' :: unit :: rest).reverse := by
          rw [← hreverse, List.reverse_reverse]
        refine ⟨?_, ?_, by simp, hparts.1, by simpa using hparts.2.1, by simpa using hparts.2.2⟩
        · rw [htext, hrest]
          simp [VirtualContextSuffix.tail]
        · intro c hc
          rw [List.mem_reverse, ← htake] at hc
          exact List.mem_takeWhile_imp hc
      · cases h
    · cases h
  · rintro ⟨rfl, hsuffix⟩
    obtain ⟨model, amount, unit⟩ := suffix
    have hreverse : (model ++ VirtualContextSuffix.tail ⟨model, amount, unit⟩).reverse =
        ']' :: unit :: (amount.reverse ++ '[' :: model.reverse) := by
      simp [VirtualContextSuffix.tail]
    have hdigits : ∀ c ∈ amount.reverse, c.isDigit = true := fun c hc =>
      hsuffix.digits c (List.mem_reverse.mp hc)
    have htake : (amount.reverse ++ '[' :: model.reverse).takeWhile Char.isDigit =
        amount.reverse := by
      rw [List.takeWhile_append_of_pos hdigits, List.takeWhile_cons_of_neg (by decide),
        List.append_nil]
    have hdrop : (amount.reverse ++ '[' :: model.reverse).dropWhile Char.isDigit =
        '[' :: model.reverse := by
      rw [List.dropWhile_append_of_pos hdigits, List.dropWhile_cons_of_neg (by decide)]
    have hmodel : model.reverse ≠ [] := fun h => hsuffix.model (List.reverse_eq_nil_iff.mp h)
    have hline : '\n' ∉ model.reverse := fun h => hsuffix.oneLine (List.mem_reverse.mp h)
    rw [virtualContextSuffix, hreverse]
    simp only [htake, hdrop]
    cases hamount : amount.reverse with
    | nil => exact absurd (List.reverse_eq_nil_iff.mp hamount) hsuffix.amount
    | cons digit digits =>
      refine (if_pos ⟨hsuffix.unit, hmodel, hline⟩).trans ?_
      rw [List.reverse_reverse, ← hamount, List.reverse_reverse]

theorem VirtualContextSuffix.WellFormed.slash_notMem {suffix : VirtualContextSuffix}
    (h : suffix.WellFormed) : '/' ∉ suffix.tail := by
  have hdigits : '/' ∉ suffix.amount := fun hmem => by
    have := h.digits _ hmem
    revert this
    decide
  have hunit : suffix.unit ≠ '/' := fun hslash => by
    have := h.unit
    rw [hslash] at this
    revert this
    decide
  simp [VirtualContextSuffix.tail, hdigits, hunit.symm]

theorem mem_of_mem_stripped {p : Char → Bool} {c : Char} {s : List Char} (h : c ∈ stripped p s) :
    c ∈ s :=
  List.dropWhile_subset p ((List.rdropWhile_prefix p _).subset h)

/-- Normalization only removes characters. -/
theorem mem_of_mem_normalized {modelRef : List Char} {normalized : NormalizedModelRef}
    (h : normalizeModelRef modelRef = .ok normalized) {c : Char}
    (hc : c ∈ normalized.modelRef) : c ∈ modelRef := by
  unfold normalizeModelRef at h
  dsimp only at h
  split at h
  · cases h
    exact mem_of_mem_stripped hc
  · next suffix hsuffix =>
    obtain ⟨htext, -⟩ := virtualContextSuffix_eq_some.mp hsuffix
    split_ifs at h
    cases h
    exact mem_of_mem_stripped (htext ▸ List.mem_append_left _ hc)

/-! ## References that begin with a provider -/

/-- The text goes on after its slash and does not begin with whitespace. -/
structure BeginsPlain (text : List Char) : Prop where
  head : ∃ c rest, text = c :: rest ∧ isSpace c = false
  slash : '/' ∈ text

theorem BeginsPlain.of_append {s t : List Char} (h : BeginsPlain (s ++ t)) (ht : '/' ∉ t) :
    BeginsPlain s := by
  obtain ⟨⟨c, rest, heq, hc⟩, hslash⟩ := h
  have hmem : '/' ∈ s := (List.mem_append.mp hslash).resolve_right ht
  cases s with
  | nil => cases hmem
  | cons d s =>
    rw [List.cons_append, List.cons.injEq] at heq
    exact ⟨⟨d, s, rfl, heq.1 ▸ hc⟩, hmem⟩

theorem BeginsPlain.stripped {text : List Char} (h : BeginsPlain text) :
    ∃ spaces, text = stripped isSpace text ++ spaces ∧ '/' ∉ spaces ∧
      BeginsPlain (stripped isSpace text) := by
  have hplain := h
  obtain ⟨⟨c, rest, rfl, hc⟩, -⟩ := h
  obtain ⟨spaces, hspaces, hall⟩ := eq_stripped_append rest hc
  have hnone : '/' ∉ spaces := fun hmem => by
    have := hall _ hmem
    revert this
    decide
  rw [hspaces] at hplain
  exact ⟨spaces, hspaces, hnone, hplain.of_append hnone⟩

/-- What is removed from a reference stands at its end, after the slash. -/
theorem normalizeModelRef_ok {modelRef : List Char} {normalized : NormalizedModelRef}
    (hplain : BeginsPlain modelRef) (h : normalizeModelRef modelRef = .ok normalized) :
    ∃ tail, modelRef = normalized.modelRef ++ tail ∧ '/' ∉ tail ∧
      BeginsPlain normalized.modelRef := by
  obtain ⟨spaces, hspaces, hnone, hstripped⟩ := hplain.stripped
  unfold normalizeModelRef at h
  dsimp only at h
  split at h
  · cases h
    exact ⟨spaces, hspaces, hnone, hstripped⟩
  · next suffix hsuffix =>
    obtain ⟨htext, hwell⟩ := virtualContextSuffix_eq_some.mp hsuffix
    have hslash := hwell.slash_notMem
    split_ifs at h
    cases h
    rw [htext] at hspaces hstripped
    refine ⟨suffix.tail ++ spaces, ?_, ?_, hstripped.of_append hslash⟩
    · rw [← List.append_assoc]
      exact hspaces
    · rw [List.mem_append]
      exact not_or.mpr ⟨hslash, hnone⟩

theorem virtualContextSuffix_append {start text : List Char} (hline : '\n' ∉ start)
    (hslash : '/' ∈ text) :
    virtualContextSuffix (start ++ text) = (virtualContextSuffix text).map fun suffix =>
      { suffix with model := start ++ suffix.model } := by
  cases htext : virtualContextSuffix text with
  | some suffix =>
    obtain ⟨rfl, hwell⟩ := virtualContextSuffix_eq_some.mp htext
    rw [Option.map_some, virtualContextSuffix_eq_some]
    refine ⟨by simp [VirtualContextSuffix.tail], hwell.digits, hwell.amount, hwell.unit, ?_, ?_⟩
    · exact fun h => hwell.model (List.append_eq_nil_iff.mp h).2
    · rw [List.mem_append]
      exact not_or.mpr ⟨hline, hwell.oneLine⟩
  | none =>
    cases hwhole : virtualContextSuffix (start ++ text) with
    | none => rfl
    | some suffix =>
      obtain ⟨heq, hwell⟩ := virtualContextSuffix_eq_some.mp hwhole
      rcases List.append_eq_append_iff.mp heq with ⟨model, hmodel, htail⟩ | ⟨rest, -, htail⟩
      · have hmem : '/' ∈ model := by
          rw [htail, List.mem_append] at hslash
          exact hslash.resolve_right hwell.slash_notMem
        have hsuffix : virtualContextSuffix text = some { suffix with model := model } := by
          rw [virtualContextSuffix_eq_some]
          refine ⟨htail, hwell.digits, hwell.amount, hwell.unit, List.ne_nil_of_mem hmem, ?_⟩
          exact fun h => hwell.oneLine (hmodel ▸ List.mem_append_right _ h)
        rw [htext] at hsuffix
        cases hsuffix
      · exact absurd (htail ▸ List.mem_append_right _ hslash) hwell.slash_notMem

/-- Normalization does not depend on what stands before a reference. -/
theorem normalizeModelRef_append {start modelRef : List Char} (hstart : BeginsPlain start)
    (hline : '\n' ∉ start) (hplain : BeginsPlain modelRef) :
    normalizeModelRef (start ++ modelRef) = (normalizeModelRef modelRef).map fun normalized =>
      { normalized with modelRef := start ++ normalized.modelRef } := by
  obtain ⟨-, -, -, hstripped⟩ := hplain.stripped
  have hstrip : Text.stripped isSpace (start ++ modelRef) =
      start ++ Text.stripped isSpace modelRef := by
    obtain ⟨⟨c, s, rfl, hc⟩, -⟩ := hstart
    obtain ⟨⟨d, t, rfl, hd⟩, -⟩ := hplain
    exact stripped_append s t hc hd
  unfold normalizeModelRef
  dsimp only
  rw [hstrip, virtualContextSuffix_append hline hstripped.slash]
  cases virtualContextSuffix (Text.stripped isSpace modelRef) with
  | none => rfl
  | some suffix =>
    dsimp only [Option.map_some]
    split_ifs <;> rfl

end Switchboard.Config
