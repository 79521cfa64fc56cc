import Mathlib
import Switchboard.Core.ToolNames

/-!
# Round trips of tool names

What the codec of a request does does not depend on the order in which the names of the
request are met, and every name comes back from the wire.
-/

namespace Switchboard.Core.ToolNames

variable {sha256 : List Char → List (Fin 16)} {fuel more attempt : Nat}
  {names others pending reserved taken unchanged : List (List Char)} {name wire : List Char}
  {codec result : OpenAIToolNameCodec}

/-! ### Searches that end -/

/-- A search that ends asks of the reserved names only which ones they are. -/
theorem uniqueAlias_congr (h : uniqueAlias sha256 name reserved fuel attempt = some wire)
    (htaken : ∀ x, x ∈ reserved ↔ x ∈ taken) (hmore : fuel ≤ more) :
    uniqueAlias sha256 name taken more attempt = some wire := by
  induction fuel generalizing more attempt with
  | zero => cases h
  | succ fuel ih =>
    obtain ⟨more, rfl⟩ : ∃ n, more = n + 1 := ⟨more - 1, by omega⟩
    have hmore' : fuel ≤ more := by omega
    rw [uniqueAlias] at h ⊢
    have hsame : ∀ x, reserved.contains x = taken.contains x := by
      intro x
      rw [Bool.eq_iff_iff, List.contains_iff_mem, List.contains_iff_mem]
      exact htaken x
    rw [hsame] at h
    split_ifs at h ⊢ with hreserved
    · exact ih h hmore'
    · exact h

theorem addAliases_congr (h : addAliases sha256 fuel pending reserved codec = some result)
    (htaken : ∀ x, x ∈ reserved ↔ x ∈ taken) (hmore : fuel ≤ more) :
    addAliases sha256 more pending taken { codec with unchangedNames := unchanged } =
      some { result with unchangedNames := unchanged } := by
  induction pending generalizing reserved taken codec with
  | nil =>
    cases h
    rfl
  | cons name pending ih =>
    rw [addAliases] at h ⊢
    cases hwire : uniqueAlias sha256 name reserved fuel 0 with
    | none => simp [hwire] at h
    | some wire =>
      rw [uniqueAlias_congr hwire htaken hmore]
      simp only [hwire] at h
      refine ih h fun x => ?_
      rw [List.mem_cons, List.mem_cons, htaken]

/-! ### The order of the names -/

theorem sorted_eq_of_perm (h : names.Perm others) :
    names.insertionSort (· ≤ ·) = others.insertionSort (· ≤ ·) := by
  have hperm : (names.insertionSort (· ≤ ·)).Perm (others.insertionSort (· ≤ ·)) :=
    (List.perm_insertionSort _ _).trans (h.trans (List.perm_insertionSort _ _).symm)
  exact hperm.eq_of_pairwise' (List.pairwise_insertionSort _ _) (List.pairwise_insertionSort _ _)

namespace OpenAIToolNameCodec

theorem fromNames_perm (hperm : names.Perm others) (hmore : fuel ≤ more)
    (h : fromNames sha256 fuel names = some codec) :
    ∃ unchanged, fromNames sha256 more others =
      some { codec with unchangedNames := unchanged } := by
  have hunique : ((names.filter (· ≠ [])).dedup).Perm ((others.filter (· ≠ [])).dedup) :=
    (hperm.filter _).dedup
  unfold fromNames at h ⊢
  dsimp only at h ⊢
  rw [sorted_eq_of_perm (hunique.filter _)] at h
  refine ⟨_, addAliases_congr h (fun x => ?_) hmore⟩
  exact (hunique.filter isPortable).mem_iff

/-! ### There and back -/

/-- Both tables hold the same aliases, and the names that are not pending have one. -/
structure Paired (names pending : List (List Char)) (codec : OpenAIToolNameCodec) : Prop where
  back : ∀ {name wire}, codec.originalToAlias.get? name = some wire →
    codec.aliasToOriginal.get? wire = some name
  named : ∀ name ∈ names, name ≠ [] → isPortable name = false → name ∉ pending →
    ∃ wire, codec.originalToAlias.get? name = some wire

theorem Paired.add (h : Paired names (name :: pending) codec)
    (hnew : codec.aliasToOriginal.get? wire = none) :
    Paired names pending { codec with
      originalToAlias := codec.originalToAlias.set name wire
      aliasToOriginal := codec.aliasToOriginal.set wire name } := by
  constructor
  · intro other taken hget
    rw [Dict.get?_set] at hget ⊢
    split_ifs at hget with hother
    · cases hget
      rw [if_pos rfl, hother]
    · have hback := h.back hget
      rw [if_neg]
      · exact hback
      · rintro rfl
        rw [hback] at hnew
        cases hnew
  · intro other hmem hne hportable hpending
    dsimp only
    rw [Dict.get?_set]
    split_ifs with hother
    · exact ⟨wire, rfl⟩
    · refine h.named other hmem hne hportable fun hcons => ?_
      obtain heq | hcons := List.mem_cons.mp hcons
      · exact hother heq
      · exact hpending hcons

theorem Paired.addAliases (h : Paired names pending codec)
    (hadding : Adding names pending reserved codec)
    (hresult : addAliases sha256 fuel pending reserved codec = some result) :
    Paired names [] result := by
  induction pending generalizing reserved codec with
  | nil =>
    cases hresult
    exact h
  | cons name pending ih =>
    rw [ToolNames.addAliases] at hresult
    cases hwire : uniqueAlias sha256 name reserved fuel 0 with
    | none => simp [hwire] at hresult
    | some wire =>
      simp only [hwire] at hresult
      obtain ⟨hreserved, hportable⟩ := uniqueAlias_spec sha256 hwire
      have hnew : codec.aliasToOriginal.get? wire = none := by
        cases hget : codec.aliasToOriginal.get? wire with
        | none => rfl
        | some original => exact absurd (hadding.reserved_alias hget) hreserved
      exact ih (h.add hnew) (hadding.add hreserved hportable) hresult

end OpenAIToolNameCodec

namespace OpenAIToolNameCodec

theorem paired_fromNames (h : fromNames sha256 fuel names = some codec) :
    Paired names [] codec := by
  refine Paired.addAliases ⟨by simp, ?_⟩ (adding_start names) h
  intro name hmem hne hportable hpending
  exact absurd (mem_nonPortableNames.mpr ⟨hmem, hne, hportable⟩) hpending

theorem unchangedNames_addAliases
    (h : addAliases sha256 fuel pending reserved codec = some result) :
    result.unchangedNames = codec.unchangedNames := by
  induction pending generalizing reserved codec with
  | nil =>
    cases h
    rfl
  | cons name pending ih =>
    rw [addAliases] at h
    cases hwire : uniqueAlias sha256 name reserved fuel 0 with
    | none => simp [hwire] at h
    | some wire =>
      simp only [hwire] at h
      have hrest := ih h
      exact hrest

theorem mem_unchangedNames (h : fromNames sha256 fuel names = some codec)
    (hname : name ∈ names) (hportable : isPortable name = true) :
    name ∈ codec.unchangedNames := by
  have hunchanged : codec.unchangedNames = portableNames names := unchangedNames_addAliases h
  have hne : name ≠ [] := by
    rintro rfl
    cases hportable
  rw [hunchanged, portableNames, List.mem_filter, List.mem_dedup, List.mem_filter]
  exact ⟨⟨hname, by simpa using hne⟩, hportable⟩

theorem encode_of_none (h : codec.originalToAlias.get? name = none) :
    codec.encode name = name := by
  rw [encode, h]
  rfl

/-- What has no alias is portable or is no name of the request. -/
theorem encode_cases (h : fromNames sha256 fuel names = some codec) (name : List Char) :
    codec.encode name = name ∧ codec.originalToAlias.get? name = none ∨
      codec.aliasToOriginal.get? (codec.encode name) = some name := by
  cases hget : codec.originalToAlias.get? name with
  | none => exact .inl ⟨encode_of_none hget, rfl⟩
  | some wire =>
    right
    have hencode : codec.encode name = wire := by
      rw [encode, hget]
      rfl
    rw [hencode]
    exact (paired_fromNames h).back hget

theorem encode_portable (h : fromNames sha256 fuel names = some codec)
    (hportable : isPortable name = true) : codec.encode name = name := by
  obtain ⟨hsame, -⟩ | hback := encode_cases h name
  · exact hsame
  · rw [((wellFormed_fromNames sha256 h).original hback).2.2] at hportable
    cases hportable

theorem portable_encode (h : fromNames sha256 fuel names = some codec) (hname : name ∈ names)
    (hne : name ≠ []) : isPortable (codec.encode name) = true := by
  obtain ⟨hsame, hnone⟩ | hback := encode_cases h name
  · rw [hsame]
    by_contra hportable
    obtain ⟨wire, hwire⟩ := (paired_fromNames h).named name hname hne (by simpa using hportable)
      List.not_mem_nil
    rw [hwire] at hnone
    cases hnone
  · exact (wellFormed_fromNames sha256 h).alias_portable hback

theorem decode_encode (h : fromNames sha256 fuel names = some codec) (hname : name ∈ names) :
    codec.decode (codec.encode name) = name := by
  have hwf := wellFormed_fromNames sha256 h
  obtain ⟨hsame, hnone⟩ | hback := encode_cases h name
  · rw [hsame]
    apply decode_of_not_alias
    cases halias : codec.isAlias name with
    | false => rfl
    | true =>
      -- an alias is portable, and the portable names of the request are reserved
      obtain ⟨original, horiginal⟩ := isAlias_iff.mp halias
      have hunchanged := mem_unchangedNames h hname (hwf.alias_portable horiginal)
      exact absurd hunchanged (hwf.alias_changed horiginal)
  · rw [decode, hback]
    rfl

end OpenAIToolNameCodec

open OpenAIToolNameCodec

/-- The codec does not depend on the order of the names; it takes every name of the request
to a wire name of its own, which is portable unless the name is empty, and back. -/
theorem tool_names_round_trip (h : fromNames sha256 fuel names = some codec) :
    (∀ others, names.Perm others → ∀ more, fuel ≤ more →
      ∃ again, fromNames sha256 more others = some again ∧
        ∀ name, again.encode name = codec.encode name ∧
          again.decode name = codec.decode name) ∧
    ∀ name ∈ names,
      codec.decode (codec.encode name) = name ∧
      (∀ other ∈ names, other ≠ name → codec.encode other ≠ codec.encode name) ∧
      (name ≠ [] → isPortable (codec.encode name) = true) ∧
      (isPortable name = true → codec.encode name = name) := by
  refine ⟨fun others hperm more hmore => ?_, fun name hname =>
    ⟨decode_encode h hname, fun other hother hne heq => hne ?_, portable_encode h hname,
      encode_portable h⟩⟩
  · obtain ⟨unchanged, hagain⟩ := fromNames_perm hperm hmore h
    exact ⟨_, hagain, fun name => ⟨rfl, rfl⟩⟩
  · calc other = codec.decode (codec.encode other) := (decode_encode h hother).symm
      _ = codec.decode (codec.encode name) := by rw [heq]
      _ = name := decode_encode h hname

/-- A hash that tells texts apart by their lengths only. -/
def lengthDigest (text : List Char) : List (Fin 16) := [Fin.ofNat 16 text.length]

/-- `a.b` would become `a_b_3`, which is taken. -/
def collidingNames : List (List Char) := [['a', '.', 'b'], ['a', '_', 'b', '_', '3']]

theorem tool_names_round_trip_colliding :
    ∃ codec, fromNames lengthDigest 2 collidingNames = some codec ∧
      codec.encode ['a', '.', 'b'] = ['a', '_', 'b', '_', '5'] ∧
      codec.decode (codec.encode ['a', '.', 'b']) = ['a', '.', 'b'] := by
  obtain ⟨codec, hcodec⟩ := Option.isSome_iff_exists.mp
    (show (fromNames lengthDigest 2 collidingNames).isSome = true from rfl)
  refine ⟨codec, hcodec, ?_, ?_⟩
  · cases hcodec
    rfl
  · exact ((tool_names_round_trip hcodec).2 _ List.mem_cons_self).1

/-- An empty name stays empty on the wire. -/
theorem empty_name_not_portable :
    ¬ ∀ (sha256 : List Char → List (Fin 16)) (fuel : Nat) (names : List (List Char))
      (codec : OpenAIToolNameCodec), fromNames sha256 fuel names = some codec →
      ∀ name ∈ names, isPortable (codec.encode name) = true := by
  intro h
  have hportable := h lengthDigest 0 [[]] _ rfl [] List.mem_cons_self
  cases hportable

end Switchboard.Core.ToolNames
