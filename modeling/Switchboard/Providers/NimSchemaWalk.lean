import Mathlib
import Switchboard.Providers.NimSchemas

/-!
# The walk that makes aliases

All unsafe names get one alias, since there is one unsafe name. So the walk renames with an
alias that is known before it, and its state says only whether a name was found.
-/

namespace Switchboard.Providers.NimSchemas

open Switchboard.FreshNames

/-! ## Distinct keys -/

mutual

/-- The mappings inside a value have each key once. -/
def DistinctKeys : Json → Prop
  | .obj fields => (fields.map Prod.fst).Nodup ∧ DistinctFields fields
  | .arr items => DistinctItems items
  | _ => True

def DistinctFields : Fields → Prop
  | [] => True
  | (_, item) :: fields => DistinctKeys item ∧ DistinctFields fields

def DistinctItems : List Json → Prop
  | [] => True
  | item :: items => DistinctKeys item ∧ DistinctItems items

end

theorem sanitizeFields_eq (fields : Fields) : sanitizeFields fields =
    fields.filterMap fun field => (sanitizeField field.1 field.2).map (field.1, ·) := by
  induction fields with
  | nil => rfl
  | cons field fields ih =>
    obtain ⟨key, item⟩ := field
    rw [sanitizeFields, List.filterMap_cons, ← ih]
    cases sanitizeField key item <;> rfl

theorem sanitizeItems_eq (items : List Json) :
    sanitizeItems items = items.filterMap sanitizeNode := by
  induction items with
  | nil => rfl
  | cons item items ih =>
    rw [sanitizeItems, List.filterMap_cons, ← ih]
    cases sanitizeNode item <;> rfl

theorem sanitizeMap_eq (map : Fields) : sanitizeMap map =
    map.filterMap fun field => (sanitizeNode field.2).map (field.1, ·) := by
  induction map with
  | nil => rfl
  | cons field fields ih =>
    obtain ⟨key, item⟩ := field
    rw [sanitizeMap, List.filterMap_cons, ← ih]
    cases sanitizeNode item <;> rfl

theorem keys_filterMap_sublist {f : String × Json → Option Json} (fields : Fields) :
    ((fields.filterMap fun field => (f field).map (field.1, ·)).map Prod.fst).Sublist
      (fields.map Prod.fst) := by
  induction fields with
  | nil => exact .slnil
  | cons field fields ih =>
    rw [List.filterMap_cons, List.map_cons]
    cases f field with
    | none => exact ih.cons _
    | some value => exact ih.cons_cons _

mutual

theorem distinctKeys_sanitizeNode : ∀ value sanitized, DistinctKeys value →
    sanitizeNode value = some sanitized → DistinctKeys sanitized
  | .obj fields, sanitized, hdistinct, h => by
    rw [sanitizeNode] at h
    rw [DistinctKeys] at hdistinct
    cases h
    rw [DistinctKeys]
    refine ⟨?_, distinctFields_sanitizeFields fields hdistinct.2⟩
    rw [sanitizeFields_eq]
    exact hdistinct.1.sublist (keys_filterMap_sublist fields)
  | .arr items, sanitized, hdistinct, h => by
    rw [sanitizeNode] at h
    rw [DistinctKeys] at hdistinct
    cases h
    rw [DistinctKeys]
    exact distinctItems_sanitizeItems items hdistinct
  | .bool _, _, _, h => by
    rw [sanitizeNode] at h
    cases h
  | .null, sanitized, hdistinct, h | .int _, sanitized, hdistinct, h
  | .float _, sanitized, hdistinct, h | .str _, sanitized, hdistinct, h => by
    simp only [sanitizeNode, Option.some.injEq] at h
    rwa [← h]

theorem distinctFields_sanitizeFields : ∀ fields : Fields, DistinctFields fields →
    DistinctFields (sanitizeFields fields)
  | [], h => h
  | (key, item) :: fields, h => by
    rw [DistinctFields] at h
    have hfields := distinctFields_sanitizeFields fields h.2
    rw [sanitizeFields]
    cases hfield : sanitizeField key item with
    | none => exact hfields
    | some sanitized =>
      rw [DistinctFields]
      exact ⟨distinctKeys_sanitizeField key item sanitized h.1 hfield, hfields⟩

theorem distinctKeys_sanitizeField : ∀ key item sanitized, DistinctKeys item →
    sanitizeField key item = some sanitized → DistinctKeys sanitized
  | key, .obj map, sanitized, hdistinct, h => by
    rw [DistinctKeys] at hdistinct
    rw [sanitizeField] at h
    split_ifs at h
    · cases h
      rw [DistinctKeys]
      refine ⟨?_, distinctFields_sanitizeFields map hdistinct.2⟩
      rw [sanitizeFields_eq]
      exact hdistinct.1.sublist (keys_filterMap_sublist map)
    · cases h
      rw [DistinctKeys]
      refine ⟨?_, distinctFields_sanitizeMap map hdistinct.2⟩
      rw [sanitizeMap_eq]
      exact hdistinct.1.sublist (keys_filterMap_sublist map)
    · cases h
      exact hdistinct
  | key, .arr items, sanitized, hdistinct, h => by
    rw [DistinctKeys] at hdistinct
    rw [sanitizeField] at h
    have hitems := distinctItems_sanitizeItems items hdistinct
    split_ifs at h
    · cases h
      exact hitems
    · split at h
      · cases h
      · cases h
        exact hitems
    · cases h
      exact hdistinct
  | key, .bool b, sanitized, hdistinct, h => by
    rw [sanitizeField] at h
    split_ifs at h
    cases h
    exact hdistinct
  | key, .null, sanitized, hdistinct, h | key, .int _, sanitized, hdistinct, h
  | key, .float _, sanitized, hdistinct, h | key, .str _, sanitized, hdistinct, h => by
    simp only [sanitizeField, Option.some.injEq] at h
    rwa [← h]

theorem distinctItems_sanitizeItems : ∀ items : List Json, DistinctItems items →
    DistinctItems (sanitizeItems items)
  | [], h => h
  | item :: items, h => by
    rw [DistinctItems] at h
    have hitems := distinctItems_sanitizeItems items h.2
    rw [sanitizeItems]
    cases hitem : sanitizeNode item with
    | none => exact hitems
    | some sanitized =>
      rw [DistinctItems]
      exact ⟨distinctKeys_sanitizeNode item sanitized h.1 hitem, hitems⟩

theorem distinctFields_sanitizeMap : ∀ map : Fields, DistinctFields map →
    DistinctFields (sanitizeMap map)
  | [], h => h
  | (key, item) :: map, h => by
    rw [DistinctFields] at h
    have hmap := distinctFields_sanitizeMap map h.2
    rw [sanitizeMap]
    cases hitem : sanitizeNode item with
    | none => exact hmap
    | some sanitized =>
      rw [DistinctFields]
      exact ⟨distinctKeys_sanitizeNode item sanitized h.1 hitem, hmap⟩

end

/-! ## Renaming with a known alias -/

/-- A mapping of properties has an unsafe name. -/
def hasUnsafe (properties : Fields) : Bool :=
  properties.any fun field => needsNimToolParameterAlias field.1

/-- The own properties of a mapping have an unsafe name. -/
def ownUnsafe (fields : Fields) : Bool :=
  match fields.lookup "properties" with
  | some (.obj properties) => hasUnsafe properties
  | _ => false

section Renamed

-- the alias of the unsafe names
variable (a : String)

def renamedName (name : String) : String := if needsNimToolParameterAlias name then a else name

def renamedEntry (own : Bool) : Json → Json
  | .str name => .str (if own then renamedName a name else name)
  | entry => entry

mutual

/-- What the walk makes of a value. -/
def renamed : Json → Json
  | .arr items => .arr (renamedItems items)
  | .obj fields => .obj (renamedFields (ownUnsafe fields) fields)
  | value => value

def renamedItems : List Json → List Json
  | [] => []
  | item :: items => renamed item :: renamedItems items

/-- `own` says whether the properties beside have an unsafe name. -/
def renamedFields (own : Bool) : Fields → Fields
  | [] => []
  | (key, item) :: fields =>
    match renamedField own key item with
    | some value => (key, value) :: renamedFields own fields
    | none => renamedFields own fields

def renamedField (own : Bool) (key : String) : Json → Option Json
  | .obj map =>
    if key = "properties" then some (.obj (renamedProperties map))
    else some (.obj (renamedFields (ownUnsafe map) map))
  | .arr items =>
    if key = "properties" then none
    else if key = "required" then some (.arr (items.map (renamedEntry a own)))
    else some (.arr (renamedItems items))
  | value => if key = "properties" then none else some value

def renamedProperties : Fields → Fields
  | [] => []
  | (name, schema) :: properties =>
    (renamedName a name, renamed schema) :: renamedProperties properties

end

end Renamed

def isList : Json → Bool
  | .arr _ => true
  | _ => false

mutual

/-- The walk finds an unsafe name. -/
def findsUnsafe : Json → Bool
  | .obj fields => findsInOwn fields || findsInOthers fields
  | .arr items => findsInItems items
  | _ => false

def findsInItems : List Json → Bool
  | [] => false
  | item :: items => findsUnsafe item || findsInItems items

/-- It finds one in the first `properties`. -/
def findsInOwn : Fields → Bool
  | [] => false
  | (key, item) :: fields =>
    if key = "properties" then
      match item with
      | .obj properties => findsInProperties properties
      | _ => false
    else findsInOwn fields

def findsInOthers : Fields → Bool
  | [] => false
  | (key, item) :: fields =>
    (key ≠ "properties" && !(key = "required" && isList item)) && findsUnsafe item ||
      findsInOthers fields

def findsInProperties : Fields → Bool
  | [] => false
  | (name, schema) :: properties =>
    findsUnsafe schema || (needsNimToolParameterAlias name || findsInProperties properties)

end

/-! ## The states of a walk -/

/-- The state before an alias is made, or after it. -/
def walkState (reserved : List String) : Bool → AliasState
  | false => { reserved := reserved }
  | true => (aliasOf "type" { reserved := reserved }).2

theorem needs_iff (name : String) : needsNimToolParameterAlias name = true ↔ name = "type" := by
  simp [needsNimToolParameterAlias, nimUnsafeToolParameterNames]

/-- The alias that a walk makes. -/
def walkAlias (reserved : List String) : String := makeNimToolParameterAlias "type" reserved

theorem aliasOf_walkState (reserved : List String) (found : Bool) :
    aliasOf "type" (walkState reserved found) = (walkAlias reserved, walkState reserved true) := by
  cases found with
  | false => rfl
  | true =>
    have hmade : (walkState reserved true).originalToAlias.get? "type" =
        some (walkAlias reserved) := by
      simp [walkState, aliasOf, walkAlias, Dict.empty, Dict.get?, Dict.set, Dict.keys]
    rw [aliasOf, hmade]

/-- The aliases that are kept for the unsafe name, and for no other. -/
def LocalAliases (reserved : List String) (own : Bool) (localAliases : Dict String String) : Prop :=
  ∀ name, (localAliases.get? name).getD name =
    if own then renamedName (walkAlias reserved) name else name

theorem aliasRequired_eq {reserved : List String} {own : Bool} {localAliases : Dict String String}
    (h : LocalAliases reserved own localAliases) (entry : Json) :
    aliasRequired localAliases entry = renamedEntry (walkAlias reserved) own entry := by
  cases entry with
  | str name => simp only [aliasRequired, renamedEntry, h name]
  | _ => rfl

/-- What is known of the own properties of a mapping. -/
structure OwnKnown (reserved : List String) (fields : Fields) (own : OwnProperties) : Prop where
  properties : own.properties = match fields.lookup "properties" with
    | some (.obj properties) => some (renamedProperties (walkAlias reserved) properties)
    | _ => none
  localAliases : LocalAliases reserved (ownUnsafe fields) own.localAliases

theorem aliasOwnProperties_other {key : String} (hkey : key ≠ "properties") (item : Json)
    (fields : Fields) (state : AliasState) :
    aliasOwnProperties ((key, item) :: fields) state = aliasOwnProperties fields state := by
  cases item <;> simp [aliasOwnProperties, hkey]

theorem aliasFields_properties (own : OwnProperties) (item : Json) (fields : Fields)
    (state : AliasState) :
    aliasFields own (("properties", item) :: fields) state =
      (own.properties.elim (aliasFields own fields state).1
        fun properties => ("properties", .obj properties) :: (aliasFields own fields state).1,
        (aliasFields own fields state).2) := by
  cases item <;> cases hown : own.properties <;> simp [aliasFields, hown]

theorem aliasFields_list (own : OwnProperties) (entries : List Json) (fields : Fields)
    (state : AliasState) :
    aliasFields own (("required", .arr entries) :: fields) state =
      (("required", .arr (entries.map (aliasRequired own.localAliases))) ::
        (aliasFields own fields state).1, (aliasFields own fields state).2) := by
  simp [aliasFields]

theorem aliasFields_other (own : OwnProperties) {key : String} {item : Json}
    (hkey : key ≠ "properties") (hlist : (key = "required" && isList item) = false)
    (fields : Fields) (state : AliasState) :
    aliasFields own ((key, item) :: fields) state =
      ((key, (aliasNames item state).1) :: (aliasFields own fields (aliasNames item state).2).1,
        (aliasFields own fields (aliasNames item state).2).2) := by
  by_cases hrequired : key = "required"
  · cases item with
    | arr entries => simp [hrequired, isList] at hlist
    | _ => simp [aliasFields, hrequired]
  · cases item <;> simp [aliasFields, hkey, hrequired]

theorem renamedField_other (a : String) (own : Bool) {key : String} {item : Json}
    (hkey : key ≠ "properties") (hlist : (key = "required" && isList item) = false) :
    renamedField a own key item = some (renamed a item) := by
  cases item with
  | arr entries =>
    have hrequired : key ≠ "required" := by simpa [isList] using hlist
    simp [renamedField, renamed, hkey, hrequired]
  | _ => simp [renamedField, renamed, hkey]

theorem lookup_of_sublist {key : String} {item : Json} {fields whole : Fields}
    (hnodup : (whole.map Prod.fst).Nodup) (hsub : ((key, item) :: fields).Sublist whole) :
    whole.lookup key = some item := by
  have hmem : (key, item) ∈ whole := hsub.subset List.mem_cons_self
  have hget : (⟨whole, hnodup⟩ : Dict String Json).get? key = some item :=
    Dict.get?_eq_some.mpr hmem
  exact hget

mutual

/-- The walk renames, and its state says whether a name was found. -/
theorem aliasNames_eq (reserved : List String) : ∀ value found, DistinctKeys value →
    aliasNames value (walkState reserved found) =
      (renamed (walkAlias reserved) value, walkState reserved (found || findsUnsafe value))
  | .arr items, found, h => by
    rw [DistinctKeys] at h
    rw [aliasNames, aliasItems_eq reserved items found h, renamed, findsUnsafe]
  | .obj fields, found, h => by
    rw [DistinctKeys] at h
    obtain ⟨own, hown, hknown⟩ := aliasOwnProperties_eq reserved fields found h.2
    rw [aliasNames, hown]
    dsimp only
    rw [aliasFields_eq reserved fields fields own _ h.2 hknown h.1 (List.Sublist.refl _), renamed,
      findsUnsafe, Bool.or_assoc]
  | .null, found, _ | .bool _, found, _ | .int _, found, _ | .float _, found, _
  | .str _, found, _ => by
    simp [aliasNames, renamed, findsUnsafe]

theorem aliasItems_eq (reserved : List String) : ∀ (items : List Json) found,
    DistinctItems items → aliasItems items (walkState reserved found) =
      (renamedItems (walkAlias reserved) items, walkState reserved (found || findsInItems items))
  | [], found, _ => by simp [aliasItems, renamedItems, findsInItems]
  | item :: items, found, h => by
    rw [DistinctItems] at h
    rw [aliasItems, aliasNames_eq reserved item found h.1]
    dsimp only
    rw [aliasItems_eq reserved items _ h.2, renamedItems, findsInItems, Bool.or_assoc]

theorem aliasOwnProperties_eq (reserved : List String) : ∀ (fields : Fields) found,
    DistinctFields fields → ∃ own, aliasOwnProperties fields (walkState reserved found) =
      (own, walkState reserved (found || findsInOwn fields)) ∧ OwnKnown reserved fields own
  | [], found, _ => ⟨{}, by simp [aliasOwnProperties, findsInOwn], rfl, fun name => rfl⟩
  | (key, item) :: fields, found, h => by
    rw [DistinctFields] at h
    by_cases hkey : key = "properties"
    · have hlookup : List.lookup "properties" ((key, item) :: fields) = some item := by
        rw [hkey, List.lookup_cons_self]
      cases item with
      | obj properties =>
        rw [DistinctKeys] at h
        obtain ⟨localAliases, hwalk, hlocal⟩ :=
          aliasProperties_eq reserved properties found h.1.2
        refine ⟨{ properties := some (renamedProperties (walkAlias reserved) properties)
                  localAliases := localAliases }, ?_, ?_, ?_⟩
        · rw [aliasOwnProperties, if_pos hkey, hwalk, findsInOwn, if_pos hkey]
        · rw [hlookup]
        · rw [ownUnsafe, hlookup]
          exact hlocal
      | null | bool b | int n | float r | str t | arr items =>
        refine ⟨{}, by simp [aliasOwnProperties, findsInOwn, hkey], ?_, ?_⟩
        · rw [hlookup]
        · rw [ownUnsafe, hlookup]
          exact fun name => rfl
    · have hlookup : List.lookup "properties" ((key, item) :: fields) =
          fields.lookup "properties" := by
        rw [List.lookup_cons, beq_false_of_ne (Ne.symm hkey)]
      have hfinds : findsInOwn ((key, item) :: fields) = findsInOwn fields := by
        cases item <;> simp [findsInOwn, hkey]
      obtain ⟨own, hwalk, hown⟩ := aliasOwnProperties_eq reserved fields found h.2
      refine ⟨own, by rw [aliasOwnProperties_other hkey, hwalk, hfinds], ?_, ?_⟩
      · rw [hlookup]
        exact hown.properties
      · rw [ownUnsafe, hlookup]
        exact hown.localAliases

theorem aliasProperties_eq (reserved : List String) : ∀ (properties : Fields) found,
    DistinctFields properties → ∃ localAliases,
      aliasProperties properties (walkState reserved found) =
        ((renamedProperties (walkAlias reserved) properties, localAliases),
          walkState reserved (found || findsInProperties properties)) ∧
      LocalAliases reserved (hasUnsafe properties) localAliases
  | [], found, _ => ⟨.empty, by simp [aliasProperties, renamedProperties, findsInProperties],
      fun name => rfl⟩
  | (name, schema) :: properties, found, h => by
    rw [DistinctFields] at h
    rw [aliasProperties, aliasNames_eq reserved schema found h.1]
    dsimp only
    rw [renamedProperties, findsInProperties]
    by_cases hneeds : needsNimToolParameterAlias name = true
    · obtain rfl := (needs_iff name).mp hneeds
      obtain ⟨localAliases, hwalk, hlocal⟩ := aliasProperties_eq reserved properties true h.2
      refine ⟨localAliases.set "type" (walkAlias reserved), ?_, ?_⟩
      · rw [if_pos hneeds, aliasOf_walkState]
        dsimp only
        rw [hwalk]
        simp [renamedName, hneeds]
      · intro other
        by_cases hother : other = "type"
        · rw [hother, Dict.get?_set_self]
          simp [hasUnsafe, hneeds, renamedName]
        · rw [Dict.get?_set_of_ne _ _ hother, hlocal other]
          have hsafe : needsNimToolParameterAlias other = false := by
            rw [← Bool.not_eq_true, needs_iff]
            exact hother
          simp [renamedName, hsafe]
    · obtain ⟨localAliases, hwalk, hlocal⟩ :=
        aliasProperties_eq reserved properties (found || findsUnsafe schema) h.2
      rw [Bool.not_eq_true] at hneeds
      refine ⟨localAliases, ?_, ?_⟩
      · rw [hneeds]
        simp only [Bool.false_eq_true, if_false]
        rw [hwalk]
        simp [renamedName, hneeds, Bool.or_assoc]
      · simpa [hasUnsafe, hneeds] using hlocal

theorem aliasFields_eq (reserved : List String) : ∀ (fields whole : Fields) own found,
    DistinctFields fields → OwnKnown reserved whole own → (whole.map Prod.fst).Nodup →
    fields.Sublist whole →
    aliasFields own fields (walkState reserved found) =
      (renamedFields (walkAlias reserved) (ownUnsafe whole) fields,
        walkState reserved (found || findsInOthers fields))
  | [], whole, own, found, _, _, _, _ => by simp [aliasFields, renamedFields, findsInOthers]
  | (key, item) :: fields, whole, own, found, h, hown, hnodup, hsub => by
    rw [DistinctFields] at h
    have hrest := fun found => aliasFields_eq reserved fields whole own found h.2 hown hnodup
      ((List.sublist_cons_self _ _).trans hsub)
    rw [renamedFields, findsInOthers]
    by_cases hproperties : key = "properties"
    · have hplaced := hown.properties
      rw [← hproperties, lookup_of_sublist hnodup hsub] at hplaced
      rw [hproperties, aliasFields_properties, hrest]
      cases item <;> simp [hplaced, renamedField]
    · cases hlist : (key = "required" && isList item : Bool) with
      | true =>
        obtain ⟨hrequired, hitem⟩ := Bool.and_eq_true_iff.mp hlist
        cases item with
        | arr entries =>
          rw [of_decide_eq_true hrequired] at *
          rw [aliasFields_list, hrest]
          have hentries : entries.map (aliasRequired own.localAliases) =
              entries.map (renamedEntry (walkAlias reserved) (ownUnsafe whole)) :=
            List.map_congr_left fun entry _ => aliasRequired_eq hown.localAliases entry
          simp [renamedField, hentries]
        | _ => cases hitem
      | false =>
        rw [aliasFields_other own hproperties hlist, aliasNames_eq reserved item found h.1, hrest,
          renamedField_other _ _ hproperties hlist]
        simp [hproperties, Bool.or_assoc]

end

/-- The parameters with their aliases: renamed where an unsafe name was found. -/
theorem aliasNimToolParameters_eq {parameters : Fields} (h : DistinctKeys (.obj parameters)) :
    aliasNimToolParameters parameters =
      if findsUnsafe (.obj parameters) then
        (renamedFields (walkAlias (collectFields parameters)) (ownUnsafe parameters) parameters,
          Dict.empty.set (walkAlias (collectFields parameters)) "type")
      else (parameters, .empty) := by
  rw [DistinctKeys] at h
  obtain ⟨own, hown, hknown⟩ :=
    aliasOwnProperties_eq (collectFields parameters) parameters false h.2
  have hfields := aliasFields_eq (collectFields parameters) parameters parameters own
    (findsInOwn parameters) h.2 hknown h.1 (List.Sublist.refl _)
  have hstart : ({ reserved := collectPropertyNames (.obj parameters) } : AliasState) =
      walkState (collectFields parameters) false := by
    rw [collectPropertyNames]
    rfl
  rw [Bool.false_or] at hown
  unfold aliasNimToolParameters
  rw [hstart, hown]
  dsimp only
  rw [hfields, findsUnsafe]
  cases hfound : findsInOwn parameters || findsInOthers parameters with
  | false => simp [walkState, Dict.empty]
  | true =>
    have hentries : (walkState (collectFields parameters) true).aliasToOriginal =
        Dict.empty.set (walkAlias (collectFields parameters)) "type" := rfl
    have hfilled : (Dict.empty.set (walkAlias (collectFields parameters)) "type").entries ≠ [] := by
      simp [Dict.empty, Dict.set, Dict.keys]
    simp only [hentries, if_neg hfilled, if_true]

theorem makeNimToolParameterAlias_notMem (name : String) (reserved : List String) :
    makeNimToolParameterAlias name reserved ∉ reserved := by
  unfold makeNimToolParameterAlias
  dsimp only
  split_ifs with hreserved
  · exact firstFree_notMem _ _
  · exact hreserved

theorem walkAlias_ne (reserved : List String) : walkAlias reserved ≠ "type" := by
  have hlength : ∀ text : String, "type" ≠ nimToolParameterAliasPrefix ++ text := by
    intro text h
    have := congrArg (fun s : String => s.toList.head?) h
    simp [nimToolParameterAliasPrefix] at this
  intro h
  unfold walkAlias makeNimToolParameterAlias firstFree numbered at h
  dsimp only at h
  split_ifs at h
  · rw [String.append_assoc, String.append_assoc] at h
    exact hlength _ h.symm
  · exact hlength _ h.symm

end Switchboard.Providers.NimSchemas
