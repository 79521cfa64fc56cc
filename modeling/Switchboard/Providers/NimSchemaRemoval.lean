import Mathlib
import Switchboard.Providers.NimSchemaRenaming

/-!
# Properties that are removed

A property with a boolean subschema is removed, and a list of required names should not name
it then. `withoutRemoved` is the schema without the boolean subschemas and without these names;
the sanitized schema is that one where no list of required names mentions a removed name.
-/

namespace Switchboard.Providers.NimSchemas

def mentions (removed : List String) : Json → Bool
  | .str name => removed.contains name
  | _ => false

/-! ## The schema without removed properties -/

mutual

/-- `removed` are the removed properties of the instance; in maps and lists `none` stands for
those of each subschema. -/
def withoutRemoved (removed : List String) : Json → Option Json
  | .bool _ => none
  | .obj fields => some (.obj (fieldsWithout removed fields))
  | .arr items => some (.arr (itemsWithout none items))
  | value => some value

def fieldsWithout (removed : List String) : Fields → Fields
  | [] => []
  | (key, item) :: fields =>
    match fieldWithout removed key item with
    | some kept => (key, kept) :: fieldsWithout removed fields
    | none => fieldsWithout removed fields

def fieldWithout (removed : List String) (key : String) : Json → Option Json
  | .bool b =>
    match placeOf key with
    | .value _ => none
    | _ => some (.bool b)
  | .arr items =>
    match placeOf key with
    | .value _ => some (.arr (itemsWithout none items))
    | .list inPlace =>
      match itemsWithout (if inPlace then some removed else none) items with
      | [] => none
      | kept => some (.arr kept)
    | .required => some (.arr (items.filter fun entry => !mentions removed entry))
    | _ => some (.arr items)
  | .obj map =>
    match placeOf key with
    | .properties => some (.obj (mapWithout none map))
    | .value true => some (.obj (fieldsWithout removed map))
    | .value false => some (.obj (fieldsWithout (removedNames (.obj map)) map))
    | .map inPlace => some (.obj (mapWithout (if inPlace then some removed else none) map))
    | _ => some (.obj map)
  | value => some value

def itemsWithout (removed : Option (List String)) : List Json → List Json
  | [] => []
  | item :: items =>
    match withoutRemoved (removed.getD (removedNames item)) item with
    | some kept => kept :: itemsWithout removed items
    | none => itemsWithout removed items

def mapWithout (removed : Option (List String)) : Fields → Fields
  | [] => []
  | (key, item) :: map =>
    match withoutRemoved (removed.getD (removedNames item)) item with
    | some kept => (key, kept) :: mapWithout removed map
    | none => mapWithout removed map

end

/-! ## Lists that mention no removed name -/

mutual

/-- No list of required names mentions a removed property. -/
def requiresKept (removed : List String) : Json → Bool
  | .obj fields => fieldsRequireKept removed fields
  | .arr items => itemsRequireKept none items
  | _ => true

def fieldsRequireKept (removed : List String) : Fields → Bool
  | [] => true
  | (key, item) :: fields =>
    fieldRequiresKept removed key item && fieldsRequireKept removed fields

def fieldRequiresKept (removed : List String) (key : String) : Json → Bool
  | .obj map =>
    match placeOf key with
    | .properties => mapRequiresKept none map
    | .value true => fieldsRequireKept removed map
    | .value false => fieldsRequireKept (removedNames (.obj map)) map
    | .map inPlace => mapRequiresKept (if inPlace then some removed else none) map
    | _ => true
  | .arr items =>
    match placeOf key with
    | .value _ => itemsRequireKept none items
    | .list inPlace => itemsRequireKept (if inPlace then some removed else none) items
    | .required => items.all fun entry => !mentions removed entry
    | _ => true
  | _ => true

def itemsRequireKept (removed : Option (List String)) : List Json → Bool
  | [] => true
  | item :: items =>
    requiresKept (removed.getD (removedNames item)) item && itemsRequireKept removed items

def mapRequiresKept (removed : Option (List String)) : Fields → Bool
  | [] => true
  | (_, item) :: map =>
    requiresKept (removed.getD (removedNames item)) item && mapRequiresKept removed map

end

/-! ## Where the sanitized schema is that one -/

/-- Two filters that drop the same elements give one list where they agree on each. -/
theorem filterMap_eq_iff {α β : Type} {f g : α → Option β} {l : List α}
    (hdrop : ∀ x ∈ l, (f x).isSome = (g x).isSome) :
    l.filterMap f = l.filterMap g ↔ ∀ x ∈ l, f x = g x := by
  refine ⟨fun h => ?_, List.filterMap_congr⟩
  induction l with
  | nil => simp
  | cons x l ih =>
    rw [List.forall_mem_cons] at hdrop ⊢
    cases hf : f x with
    | none =>
      have hg : g x = none := by simpa [hf] using hdrop.1
      rw [List.filterMap_cons_none hf, List.filterMap_cons_none hg] at h
      exact ⟨hg.symm, ih hdrop.2 h⟩
    | some y =>
      obtain ⟨z, hg⟩ := Option.isSome_iff_exists.mp (hdrop.1.symm.trans (by simp [hf]))
      rw [List.filterMap_cons_some hf, List.filterMap_cons_some hg, List.cons.injEq] at h
      exact ⟨by rw [hg, h.1], ih hdrop.2 h.2⟩

theorem itemsWithout_eq (removed : Option (List String)) (items : List Json) :
    itemsWithout removed items =
      items.filterMap fun item => withoutRemoved (removed.getD (removedNames item)) item := by
  induction items with
  | nil => rfl
  | cons item items ih =>
    rw [itemsWithout, List.filterMap_cons, ← ih]
    cases withoutRemoved (removed.getD (removedNames item)) item <;> rfl

theorem mapWithout_eq (removed : Option (List String)) (map : Fields) :
    mapWithout removed map = map.filterMap fun field =>
      (withoutRemoved (removed.getD (removedNames field.2)) field.2).map (field.1, ·) := by
  induction map with
  | nil => rfl
  | cons field map ih =>
    obtain ⟨key, item⟩ := field
    rw [mapWithout, List.filterMap_cons, ← ih]
    cases withoutRemoved (removed.getD (removedNames item)) item <;> rfl

theorem fieldsWithout_eq (removed : List String) (fields : Fields) :
    fieldsWithout removed fields =
      fields.filterMap fun field => (fieldWithout removed field.1 field.2).map (field.1, ·) := by
  induction fields with
  | nil => rfl
  | cons field fields ih =>
    obtain ⟨key, item⟩ := field
    rw [fieldsWithout, List.filterMap_cons, ← ih]
    cases fieldWithout removed key item <;> rfl

theorem fieldsRequireKept_eq (removed : List String) (fields : Fields) :
    fieldsRequireKept removed fields =
      fields.all fun field => fieldRequiresKept removed field.1 field.2 := by
  induction fields with
  | nil => rfl
  | cons field fields ih => rw [fieldsRequireKept, ih, List.all_cons]

theorem itemsRequireKept_eq (removed : Option (List String)) (items : List Json) :
    itemsRequireKept removed items =
      items.all fun item => requiresKept (removed.getD (removedNames item)) item := by
  induction items with
  | nil => rfl
  | cons item items ih => rw [itemsRequireKept, ih, List.all_cons]

theorem mapRequiresKept_eq (removed : Option (List String)) (map : Fields) :
    mapRequiresKept removed map =
      map.all fun field => requiresKept (removed.getD (removedNames field.2)) field.2 := by
  induction map with
  | nil => rfl
  | cons field map ih => rw [mapRequiresKept, ih, List.all_cons]

/-- Both drop just the booleans. -/
theorem sanitizeNode_isSome (removed : List String) (value : Json) :
    (sanitizeNode value).isSome = (withoutRemoved removed value).isSome := by
  cases value <;> simp [sanitizeNode, withoutRemoved]

/-- A value is sanitized to the schema without removed properties. -/
def SanitizedWithout (value : Json) : Prop :=
  ∀ removed, sanitizeNode value = withoutRemoved removed value ↔ requiresKept removed value = true

theorem items_sanitized_iff (removed : Option (List String)) {items : List Json}
    (ih : ∀ item ∈ items, SanitizedWithout item) :
    sanitizeItems items = itemsWithout removed items ↔ itemsRequireKept removed items = true := by
  rw [sanitizeItems_eq, itemsWithout_eq, itemsRequireKept_eq, List.all_eq_true,
    filterMap_eq_iff fun item _ => sanitizeNode_isSome _ item]
  exact forall₂_congr fun item hitem => ih item hitem _

theorem map_sanitized_iff (removed : Option (List String)) {map : Fields}
    (ih : ∀ field ∈ map, SanitizedWithout field.2) :
    sanitizeMap map = mapWithout removed map ↔ mapRequiresKept removed map = true := by
  rw [sanitizeMap_eq, mapWithout_eq, mapRequiresKept_eq, List.all_eq_true, filterMap_eq_iff]
  · refine forall₂_congr fun field hfield => ?_
    rw [← ih field hfield]
    exact (Option.map_injective (Prod.mk_right_injective field.1)).eq_iff
  · intro field _
    simpa using sanitizeNode_isSome (removed.getD (removedNames field.2)) field.2

theorem items_nil_iff (removed : Option (List String)) (items : List Json) :
    sanitizeItems items = [] ↔ itemsWithout removed items = [] := by
  rw [sanitizeItems_eq, itemsWithout_eq, List.filterMap_eq_nil_iff, List.filterMap_eq_nil_iff]
  refine forall₂_congr fun item _ => ?_
  cases item <;> simp [sanitizeNode, withoutRemoved]

/-- The keys of a place, as they are told apart when a schema is sanitized. -/
theorem keys_of_place (key : String) :
    (key ∈ schemaValueKeys ↔ ∃ inPlace, placeOf key = .value inPlace) ∧
      (key ∈ schemaListKeys ↔ ∃ inPlace, placeOf key = .list inPlace) ∧
      (key ∈ schemaMapKeys ↔
        placeOf key = .properties ∨ ∃ inPlace, placeOf key = .map inPlace) := by
  have hlist : ∀ key ∈ schemaListKeys, key ∉ schemaValueKeys := by decide
  have hmap : ∀ key ∈ schemaMapKeys, key ∉ schemaValueKeys ∧ key ∉ schemaListKeys := by decide
  by_cases hkey : key = "properties"
  · subst hkey
    exact ⟨by decide, by decide, by decide⟩
  · by_cases hvalue : key ∈ schemaValueKeys
    · have hnot : key ∉ schemaListKeys := fun h => hlist key h hvalue
      have hnotMap : key ∉ schemaMapKeys := fun h => (hmap key h).1 hvalue
      simp [placeOf, hkey, hvalue, hnot, hnotMap]
    · by_cases hin : key ∈ schemaListKeys
      · have hnotMap : key ∉ schemaMapKeys := fun h => (hmap key h).2 hin
        simp [placeOf, hkey, hvalue, hin, hnotMap]
      · by_cases hinMap : key ∈ schemaMapKeys
        · simp [placeOf, hkey, hvalue, hin, hinMap]
        · have hplace : placeOf key = if key = "required" then .required else .data := by
            simp [placeOf, hkey, hvalue, hin, hinMap]
          rw [hplace]
          split_ifs <;> simp [hvalue, hin, hinMap]

theorem sanitizeField_value {key : String} {inPlace : Bool} (hplace : placeOf key = .value inPlace)
    (item : Json) : sanitizeField key item = sanitizeNode item := by
  have hkey : key ∈ schemaValueKeys := (keys_of_place key).1.mpr ⟨inPlace, hplace⟩
  cases item <;> simp [sanitizeField, sanitizeNode, hkey]

theorem sanitizeField_list {key : String} {inPlace : Bool} (hplace : placeOf key = .list inPlace)
    (items : List Json) : sanitizeField key (.arr items) =
      if sanitizeItems items = [] then none else some (.arr (sanitizeItems items)) := by
  obtain ⟨hvalue, hlist, -⟩ := keys_of_place key
  have hin : key ∈ schemaListKeys := hlist.mpr ⟨inPlace, hplace⟩
  have hnot : key ∉ schemaValueKeys := by simp [hvalue, hplace]
  cases hitems : sanitizeItems items <;> simp [sanitizeField, hin, hnot, hitems]

theorem sanitizeField_map {key : String} (hkey : key ∈ schemaMapKeys) (map : Fields) :
    sanitizeField key (.obj map) = some (.obj (sanitizeMap map)) := by
  obtain ⟨hvalue, -, hmap⟩ := keys_of_place key
  have hnot : key ∉ schemaValueKeys := by
    rw [hvalue]
    rcases hmap.mp hkey with hplace | ⟨inPlace, hplace⟩ <;> simp [hplace]
  simp [sanitizeField, hkey, hnot]

/-- Other values are kept. -/
theorem sanitizeField_data {key : String} {item : Json} (hvalue : key ∉ schemaValueKeys)
    (hlist : isList item = true → key ∉ schemaListKeys)
    (hmap : ∀ map, item = .obj map → key ∉ schemaMapKeys) :
    sanitizeField key item = some item := by
  cases item with
  | arr items => simp [sanitizeField, hvalue, hlist rfl]
  | obj map => simp [sanitizeField, hvalue, hmap map rfl]
  | _ => simp [sanitizeField, hvalue]

theorem fieldWithout_value {removed : List String} {key : String} {inPlace : Bool}
    (hplace : placeOf key = .value inPlace) (item : Json) : fieldWithout removed key item =
      withoutRemoved (if inPlace then removed else removedNames item) item := by
  cases item with
  | obj map => cases inPlace <;> simp [fieldWithout, withoutRemoved, hplace]
  | _ => simp [fieldWithout, withoutRemoved, hplace]

theorem fieldWithout_list {removed : List String} {key : String} {inPlace : Bool}
    (hplace : placeOf key = .list inPlace) (items : List Json) :
    fieldWithout removed key (.arr items) =
      if itemsWithout (if inPlace then some removed else none) items = [] then none
      else some (.arr (itemsWithout (if inPlace then some removed else none) items)) := by
  cases hitems : itemsWithout (if inPlace then some removed else none) items <;>
    simp [fieldWithout, hplace, hitems]

def isMapping : Json → Bool
  | .obj _ => true
  | _ => false

/-- Under a key a value may stand that is no subschema, list or map of them. -/
def isData (key : String) (item : Json) : Bool :=
  match placeOf key with
  | .value _ => false
  | .list _ => !isList item
  | .map _ | .properties => !isMapping item
  | .required => !isList item
  | .data => true

/-- What is data is kept as it is. -/
theorem kept_of_isData (removed : List String) {key : String} {item : Json}
    (h : isData key item = true) :
    sanitizeField key item = some item ∧ fieldWithout removed key item = some item ∧
      fieldRequiresKept removed key item = true := by
  obtain ⟨hvalue, hlist, hmap⟩ := keys_of_place key
  unfold isData at h
  cases hplace : placeOf key <;> cases item <;>
    simp_all [sanitizeField, fieldWithout, fieldRequiresKept, isList, isMapping]

/-- What stands under a key that is no data. -/
theorem notData_cases {key : String} {item : Json} (h : isData key item = false) :
    (∃ inPlace, placeOf key = .value inPlace) ∨
    (∃ inPlace items, placeOf key = .list inPlace ∧ item = .arr items) ∨
    (∃ inPlace map, placeOf key = .map inPlace ∧ item = .obj map) ∨
    (∃ map, placeOf key = .properties ∧ item = .obj map) ∨
    ∃ items, placeOf key = .required ∧ item = .arr items := by
  unfold isData at h
  cases hplace : placeOf key <;> cases item <;> simp_all [isList, isMapping]

theorem field_isSome (removed : List String) (key : String) (item : Json) :
    (sanitizeField key item).isSome = (fieldWithout removed key item).isSome := by
  obtain ⟨hvalue, hlist, hmap⟩ := keys_of_place key
  cases hdata : isData key item with
  | true =>
    obtain ⟨hsanitized, hwithout, -⟩ := kept_of_isData removed hdata
    rw [hsanitized, hwithout]
  | false =>
    rcases notData_cases hdata with ⟨inPlace, hplace⟩ | ⟨inPlace, items, hplace, rfl⟩ |
      ⟨inPlace, map, hplace, rfl⟩ | ⟨map, hplace, rfl⟩ | ⟨items, hplace, rfl⟩
    · rw [sanitizeField_value hplace, fieldWithout_value hplace]
      exact sanitizeNode_isSome _ _
    · rw [sanitizeField_list hplace, fieldWithout_list hplace]
      simp only [items_nil_iff (if inPlace then some removed else none)]
      split_ifs <;> rfl
    · rw [sanitizeField_map (hmap.mpr (.inr ⟨inPlace, hplace⟩))]
      simp [fieldWithout, hplace]
    · rw [sanitizeField_map (hmap.mpr (.inl hplace))]
      simp [fieldWithout, hplace]
    · simp [sanitizeField, fieldWithout, hplace, hvalue, hlist]

/-- What is kept under a key of a mapping. -/
theorem field_sanitized_iff (removed : List String) (key : String) {item : Json}
    (hitem : SanitizedWithout item)
    (ih : ∀ inner, sizeOf inner < sizeOf item → SanitizedWithout inner) :
    sanitizeField key item = fieldWithout removed key item ↔
      fieldRequiresKept removed key item = true := by
  obtain ⟨hvalue, hlist, hmap⟩ := keys_of_place key
  cases hdata : isData key item with
  | true =>
    obtain ⟨hsanitized, hwithout, hkept⟩ := kept_of_isData removed hdata
    simp [hsanitized, hwithout, hkept]
  | false =>
    rcases notData_cases hdata with ⟨inPlace, hplace⟩ | ⟨inPlace, items, hplace, rfl⟩ |
      ⟨inPlace, map, hplace, rfl⟩ | ⟨map, hplace, rfl⟩ | ⟨items, hplace, rfl⟩
    · have hkept : fieldRequiresKept removed key item =
          requiresKept (if inPlace then removed else removedNames item) item := by
        cases item with
        | obj map => cases inPlace <;> simp [fieldRequiresKept, requiresKept, hplace]
        | _ => simp [fieldRequiresKept, requiresKept, hplace]
      rw [sanitizeField_value hplace, fieldWithout_value hplace, hkept, hitem]
    · have hitems := items_sanitized_iff (if inPlace then some removed else none)
        fun item hmem => ih item (sizeOf_item_lt hmem)
      have hkept : fieldRequiresKept removed key (.arr items) =
          itemsRequireKept (if inPlace then some removed else none) items := by
        simp [fieldRequiresKept, hplace]
      rw [sanitizeField_list hplace, fieldWithout_list hplace, hkept, ← hitems]
      have hnil := items_nil_iff (if inPlace then some removed else none) items
      by_cases hempty : sanitizeItems items = []
      · simp [hempty, hnil.mp hempty]
      · simp [hempty, mt hnil.mpr hempty]
    · have hkey : key ∈ schemaMapKeys := hmap.mpr (.inr ⟨inPlace, hplace⟩)
      have hmaps := map_sanitized_iff (if inPlace then some removed else none)
        fun field hfield => ih field.2 (sizeOf_field_lt hfield)
      simpa [sanitizeField_map hkey, fieldWithout, fieldRequiresKept, hplace] using hmaps
    · have hkey : key ∈ schemaMapKeys := hmap.mpr (.inl hplace)
      have hmaps := map_sanitized_iff none
        fun field hfield => ih field.2 (sizeOf_field_lt hfield)
      simpa [sanitizeField_map hkey, fieldWithout, fieldRequiresKept, hplace] using hmaps
    · obtain rfl := eq_required hplace
      have hsame : items = items.filter (fun entry => !mentions removed entry) ↔
          items.all (fun entry => !mentions removed entry) = true := by
        rw [eq_comm, List.filter_eq_self, List.all_eq_true]
      have hsanitized : sanitizeField "required" (.arr items) = some (.arr items) := by
        simp [sanitizeField, hvalue, hlist, hplace]
      simpa [hsanitized, fieldWithout, fieldRequiresKept, hplace] using hsame

/-- A schema is sanitized to the one without removed properties just where no list of required
names mentions one. -/
theorem sanitizedWithout (value : Json) : SanitizedWithout value := by
  induction hsize : sizeOf value using Nat.strong_induction_on generalizing value with
  | _ n ih =>
    have hinner : ∀ inner, sizeOf inner < sizeOf value → SanitizedWithout inner :=
      fun inner hlt => ih _ (hsize ▸ hlt) inner rfl
    intro removed
    cases value with
    | obj fields =>
      rw [sanitizeNode, withoutRemoved, requiresKept, Option.some.injEq, Json.obj.injEq,
        sanitizeFields_eq, fieldsWithout_eq, fieldsRequireKept_eq, List.all_eq_true,
        filterMap_eq_iff]
      · refine forall₂_congr fun field hfield => ?_
        have hlt := sizeOf_field_lt hfield
        rw [← field_sanitized_iff removed field.1 (hinner _ hlt)
          fun inner hless => hinner inner (hless.trans hlt)]
        exact (Option.map_injective (Prod.mk_right_injective field.1)).eq_iff
      · intro field _
        simpa using field_isSome removed field.1 field.2
    | arr items =>
      rw [sanitizeNode, withoutRemoved, requiresKept, Option.some.injEq, Json.arr.injEq]
      exact items_sanitized_iff none fun item hitem => hinner item (sizeOf_item_lt hitem)
    | null | bool b | int n | float r | str t =>
      simp [sanitizeNode, withoutRemoved, requiresKept]

end Switchboard.Providers.NimSchemas
