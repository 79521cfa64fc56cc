import Mathlib
import Switchboard.Providers.NimSchemaRemoval
import Switchboard.Providers.ToolCalls

/-!
# Arguments that are written with aliases

An aliased key is restored to its name. Every other key is kept, unless it is an alias itself.
-/

namespace Switchboard.Providers.NimSchemas

open ToolCalls

/-! ## The names of a schema -/

mutual

/-- The names of the properties that a schema and its subschemas declare. -/
def propertyNames : Json → List String
  | .obj fields => namesInFields fields
  | .arr items => namesInItems items
  | _ => []

def namesInFields : Fields → List String
  | [] => []
  | (key, item) :: fields => namesInField key item ++ namesInFields fields

def namesInField (key : String) : Json → List String
  | .obj map =>
    match placeOf key with
    | .properties => map.map Prod.fst ++ namesInMap map
    | .value _ => namesInFields map
    | .map _ => namesInMap map
    | _ => []
  | .arr items =>
    match placeOf key with
    | .value _ | .list _ => namesInItems items
    | _ => []
  | _ => []

def namesInItems : List Json → List String
  | [] => []
  | item :: items => propertyNames item ++ namesInItems items

def namesInMap : Fields → List String
  | [] => []
  | (_, item) :: map => propertyNames item ++ namesInMap map

end

/-- The name is no collected one, and the alias is made of it: it is the candidate, or the first
one with a counter that is free when the candidate is not. -/
def TakesAlias (collected : List String) (name : String) : Prop :=
  name ∉ collected ∧ (name = "_fcc_arg_type" ∨ "_fcc_arg_type" ∈ collected ∧
    ∃ k, name = FreshNames.numbered "_fcc_arg_type_" k ∧
      ∀ l < k, FreshNames.numbered "_fcc_arg_type_" l ∈ collected)

theorem walkAlias_eq_iff (collected : List String) (name : String) :
    name = walkAlias collected ↔ TakesAlias collected name := by
  have hcandidate : nimToolParameterAliasPrefix ++ safeTail "type" = "_fcc_arg_type" := by decide
  have hstem : "_fcc_arg_type" ++ "_" = "_fcc_arg_type_" := by decide
  unfold walkAlias makeNimToolParameterAlias TakesAlias
  rw [hcandidate]
  dsimp only
  rw [hstem]
  by_cases hreserved : "_fcc_arg_type" ∈ collected
  · rw [if_pos hreserved, FreshNames.eq_firstFree_iff]
    refine and_congr_right fun hname => ?_
    have hne : name ≠ "_fcc_arg_type" := fun h => hname (h ▸ hreserved)
    simp [hne, hreserved]
  · rw [if_neg hreserved]
    simp only [hreserved, false_and, or_false]
    exact ⟨fun h => ⟨h ▸ hreserved, h⟩, And.right⟩

/-! ## Writing and restoring -/

section Written

variable (aliases : Dict String String)

/-- A key is written as it is or with an alias of it. -/
def WrittenKey (key written : String) : Prop := written = key ∨ aliases.get? written = some key

mutual

/-- A value is written with aliases for some of its keys. -/
def WrittenAs : Json → Json → Prop
  | .obj fields, written => ∃ writtenFields, written = .obj writtenFields ∧
      FieldsWrittenAs fields writtenFields
  | .arr items, written => ∃ writtenItems, written = .arr writtenItems ∧
      ItemsWrittenAs items writtenItems
  | value, written => written = value

def FieldsWrittenAs : Fields → Fields → Prop
  | [], written => written = []
  | (key, item) :: fields, written => ∃ writtenKey writtenItem rest,
      written = (writtenKey, writtenItem) :: rest ∧ WrittenKey aliases key writtenKey ∧
        WrittenAs item writtenItem ∧ FieldsWrittenAs fields rest

def ItemsWrittenAs : List Json → List Json → Prop
  | [], written => written = []
  | item :: items, written => ∃ writtenItem rest, written = writtenItem :: rest ∧
      WrittenAs item writtenItem ∧ ItemsWrittenAs items rest

end

end Written

mutual

/-- The keys of the mappings inside a value. -/
def valueKeys : Json → List String
  | .obj fields => fieldKeys fields
  | .arr items => itemKeys items
  | _ => []

def fieldKeys : Fields → List String
  | [] => []
  | (key, item) :: fields => key :: (valueKeys item ++ fieldKeys fields)

def itemKeys : List Json → List String
  | [] => []
  | item :: items => valueKeys item ++ itemKeys items

end

/-- Aliases as they are kept for a stream. -/
def charAliases (aliases : Dict String String) : Dict (List Char) (List Char) where
  entries := aliases.entries.map fun entry => (entry.1.toList, entry.2.toList)
  nodup := by
    have hinjective : Function.Injective String.toList := fun _ _ h => String.toList_injective h
    have hkeys := aliases.nodup.map hinjective
    rw [List.map_map] at hkeys ⊢
    exact hkeys

theorem get?_charAliases (aliases : Dict String String) (key : String) :
    (charAliases aliases).get? key.toList = (aliases.get? key).map String.toList := by
  ext name
  rw [Dict.get?_eq_some, Option.map_eq_some_iff]
  constructor
  · intro h
    obtain ⟨entry, hentry, heq⟩ := List.mem_map.mp h
    rw [Prod.mk.injEq, String.toList_inj] at heq
    refine ⟨entry.2, ?_, heq.2⟩
    rw [Dict.get?_eq_some, ← heq.1]
    exact hentry
  · rintro ⟨original, h, rfl⟩
    exact List.mem_map.mpr ⟨(key, original), Dict.get?_eq_some.mp h, rfl⟩

/-- A key that is no alias is restored. -/
theorem restored_key {aliases : Dict String String} {key written : String}
    (hkey : key ∉ aliases.keys) (h : WrittenKey aliases key written) :
    String.ofList (((charAliases aliases).get? written.toList).getD written.toList) = key := by
  rw [get?_charAliases]
  rcases h with rfl | h
  · rw [Dict.get?_eq_none.mpr hkey]
    simp
  · simp [h]

theorem ofList_eq {fields : Fields} (h : (fields.map Prod.fst).Nodup) :
    (Dict.ofList fields).entries = fields := by
  rw [Dict.ofList_entries ⟨fields, h⟩]

mutual

/-- A value that was written with aliases is restored. -/
theorem restoreAliasValue_written (aliases : Dict String String) : ∀ value written,
    DistinctKeys value → (∀ key ∈ valueKeys value, key ∉ aliases.keys) →
    WrittenAs aliases value written →
    restoreAliasValue (charAliases aliases) written = value
  | .obj fields, written, hdistinct, hkeys, h => by
    rw [WrittenAs] at h
    obtain ⟨writtenFields, rfl, hwritten⟩ := h
    rw [DistinctKeys] at hdistinct
    rw [valueKeys] at hkeys
    rw [restoreAliasValue,
      restoreAliasFields_written aliases fields writtenFields hdistinct.2 hkeys hwritten,
      ofList_eq hdistinct.1]
  | .arr items, written, hdistinct, hkeys, h => by
    rw [WrittenAs] at h
    obtain ⟨writtenItems, rfl, hwritten⟩ := h
    rw [DistinctKeys] at hdistinct
    rw [valueKeys] at hkeys
    rw [restoreAliasValue,
      restoreAliasItems_written aliases items writtenItems hdistinct hkeys hwritten]
  | .null, written, _, _, h | .bool _, written, _, _, h | .int _, written, _, _, h
  | .float _, written, _, _, h | .str _, written, _, _, h => by
    simp only [WrittenAs] at h
    rw [h]
    simp [restoreAliasValue]

theorem restoreAliasFields_written (aliases : Dict String String) :
    ∀ fields written : Fields, DistinctFields fields →
    (∀ key ∈ fieldKeys fields, key ∉ aliases.keys) →
    FieldsWrittenAs aliases fields written →
    restoreAliasFields (charAliases aliases) written = fields
  | [], written, _, _, h => by
    rw [FieldsWrittenAs] at h
    rw [h, restoreAliasFields]
  | (key, item) :: fields, written, hdistinct, hkeys, h => by
    rw [FieldsWrittenAs] at h
    obtain ⟨writtenKey, writtenItem, rest, rfl, hkey, hitem, hrest⟩ := h
    rw [DistinctFields] at hdistinct
    rw [fieldKeys, List.forall_mem_cons, List.forall_mem_append] at hkeys
    rw [restoreAliasFields, restored_key hkeys.1 hkey,
      restoreAliasValue_written aliases item writtenItem hdistinct.1 hkeys.2.1 hitem,
      restoreAliasFields_written aliases fields rest hdistinct.2 hkeys.2.2 hrest]

theorem restoreAliasItems_written (aliases : Dict String String) :
    ∀ items written : List Json, DistinctItems items →
    (∀ key ∈ itemKeys items, key ∉ aliases.keys) →
    ItemsWrittenAs aliases items written →
    restoreAliasItems (charAliases aliases) written = items
  | [], written, _, _, h => by
    rw [ItemsWrittenAs] at h
    rw [h, restoreAliasItems]
  | item :: items, written, hdistinct, hkeys, h => by
    rw [ItemsWrittenAs] at h
    obtain ⟨writtenItem, rest, rfl, hitem, hrest⟩ := h
    rw [DistinctItems] at hdistinct
    rw [itemKeys, List.forall_mem_append] at hkeys
    rw [restoreAliasItems,
      restoreAliasValue_written aliases item writtenItem hdistinct.1 hkeys.1 hitem,
      restoreAliasItems_written aliases items rest hdistinct.2 hkeys.2 hrest]

end

end Switchboard.Providers.NimSchemas
