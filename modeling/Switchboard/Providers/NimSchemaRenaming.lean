import Mathlib
import Switchboard.Providers.NimSchemaNames

/-!
# Whether the walk renames consistently

What a visit makes of a value is the value with its names renamed just where `agrees` holds.
-/

namespace Switchboard.Providers.NimSchemas

variable {a : String}

/-! ## Fields and items one by one -/

theorem renamedFields_eq (own : Bool) (fields : Fields) : renamedFields a own fields =
    fields.filterMap fun field => (renamedField a own field.1 field.2).map (field.1, ·) := by
  induction fields with
  | nil => rfl
  | cons field fields ih =>
    obtain ⟨key, item⟩ := field
    rw [renamedFields, List.filterMap_cons, ← ih]
    cases renamedField a own key item <;> rfl

theorem renamedItems_eq (items : List Json) : renamedItems a items = items.map (renamed a) := by
  induction items with
  | nil => rfl
  | cons item items ih => rw [renamedItems, ih, List.map_cons]

theorem renamedProperties_eq (properties : Fields) : renamedProperties a properties =
    properties.map fun field => (renamedName a field.1, renamed a field.2) := by
  induction properties with
  | nil => rfl
  | cons field properties ih => rw [renamedProperties, ih, List.map_cons]

theorem schemaFields_eq (names : List String) (fields : Fields) : schemaFields a names fields =
    fields.map fun field => (field.1, schemaField a names field.1 field.2) := by
  induction fields with
  | nil => rfl
  | cons field fields ih => rw [schemaFields, ih, List.map_cons]

theorem schemaItems_eq (names : Option (List String)) (items : List Json) :
    schemaItems a names items =
      items.map fun item => renamedSchema a (names.getD (keptNames item)) item := by
  induction items with
  | nil => rfl
  | cons item items ih => rw [schemaItems, ih, List.map_cons]

theorem schemaMap_eq (names : Option (List String)) (map : Fields) : schemaMap a names map =
    map.map fun field =>
      (field.1, renamedSchema a (names.getD (keptNames field.2)) field.2) := by
  induction map with
  | nil => rfl
  | cons field map ih => rw [schemaMap, ih, List.map_cons]

theorem schemaProperties_eq (properties : Fields) : schemaProperties a properties =
    properties.map fun field =>
      (renamedName a field.1, renamedSchema a (keptNames field.2) field.2) := by
  induction properties with
  | nil => rfl
  | cons field properties ih => rw [schemaProperties, ih, List.map_cons]

theorem quietFields_eq (fields : Fields) :
    quietFields fields = fields.all fun field => quietField field.1 field.2 := by
  induction fields with
  | nil => rfl
  | cons field fields ih => rw [quietFields, ih, List.all_cons]

theorem quietItems_eq (items : List Json) : quietItems items = items.all quiet := by
  induction items with
  | nil => rfl
  | cons item items ih => rw [quietItems, ih, List.all_cons]

theorem quietProperties_eq (properties : Fields) : quietProperties properties =
    properties.all fun field => !needsNimToolParameterAlias field.1 && quiet field.2 := by
  induction properties with
  | nil => rfl
  | cons field properties ih => rw [quietProperties, ih, List.all_cons]

theorem agreesFields_eq (visit : Visit) (own : Bool) (names : List String) (fields : Fields) :
    agreesFields visit own names fields =
      fields.all fun field => agreesField visit own names field.1 field.2 := by
  induction fields with
  | nil => rfl
  | cons field fields ih => rw [agreesFields, ih, List.all_cons]

theorem agreesItems_eq (visit : Visit) (names : Option (List String)) (items : List Json) :
    agreesItems visit names items =
      items.all fun item => agrees visit (names.getD (keptNames item)) item := by
  induction items with
  | nil => rfl
  | cons item items ih => rw [agreesItems, ih, List.all_cons]

theorem agreesMap_eq (visit : Visit) (names : Option (List String)) (map : Fields) :
    agreesMap visit names map =
      map.all fun field => agrees visit (names.getD (keptNames field.2)) field.2 := by
  induction map with
  | nil => rfl
  | cons field map ih => rw [agreesMap, ih, List.all_cons]

theorem agreesWalkedMap_eq (names : Option (List String)) (map : Fields) :
    agreesWalkedMap names map = map.all fun field =>
      if field.1 = "properties" then
        agrees .properties (names.getD (keptNames field.2)) field.2
      else if field.1 = "required" && isList field.2 then
        agrees .none (names.getD (keptNames field.2)) field.2
      else agrees .schema (names.getD (keptNames field.2)) field.2 := by
  induction map with
  | nil => rfl
  | cons field map ih => rw [agreesWalkedMap, ih, List.all_cons]

theorem sizeOf_item_lt {item : Json} {items : List Json} (h : item ∈ items) :
    sizeOf item < sizeOf (Json.arr items) := by
  have := List.sizeOf_lt_of_mem h
  simp only [Json.arr.sizeOf_spec]
  omega

theorem sizeOf_field_lt {field : String × Json} {fields : Fields} (h : field ∈ fields) :
    sizeOf field.2 < sizeOf (Json.obj fields) := by
  have hmem := List.sizeOf_lt_of_mem h
  obtain ⟨key, item⟩ := field
  simp only [Json.obj.sizeOf_spec, Prod.mk.sizeOf_spec] at hmem ⊢
  omega

/-! ## Quiet values -/

/-- Renaming the fields of a mapping gives what was asked for, field by field. -/
theorem renamedFields_eq_iff {own : Bool} {fields : Fields} (g : String × Json → Json) :
    renamedFields a own fields = fields.map (fun field => (field.1, g field)) ↔
      ∀ field ∈ fields, renamedField a own field.1 field.2 = some (g field) := by
  rw [renamedFields_eq, List.filterMap_eq_map_iff_forall_eq_some]
  refine forall₂_congr fun field _ => ?_
  cases renamedField a own field.1 field.2 <;> simp

theorem ownUnsafe_mem {fields : Fields} (h : ownUnsafe fields = true) :
    ∃ properties, ("properties", Json.obj properties) ∈ fields ∧ hasUnsafe properties = true := by
  unfold ownUnsafe at h
  split at h
  · next properties hlookup =>
    have hmem : ("properties", Json.obj properties) ∈ fields := by
      induction fields with
      | nil => cases hlookup
      | cons field fields ih =>
        obtain ⟨key, item⟩ := field
        rw [List.lookup_cons] at hlookup
        split at hlookup
        · next hkey =>
          rw [beq_iff_eq] at hkey
          cases hlookup
          rw [hkey]
          exact List.mem_cons_self
        · exact List.mem_cons_of_mem _ (ih hlookup)
    exact ⟨properties, hmem, h⟩
  · cases h

theorem renamedName_eq_iff (ha : a ≠ "type") (name : String) :
    renamedName a name = name ↔ needsNimToolParameterAlias name = false := by
  unfold renamedName
  cases hneeds : needsNimToolParameterAlias name with
  | false => simp
  | true =>
    rw [(needs_iff name).mp hneeds]
    simp [ha]

theorem map_eq_self_iff {α : Type} (f : α → α) (l : List α) :
    l.map f = l ↔ ∀ x ∈ l, f x = x := by
  conv_lhs => rhs; rw [← List.map_id l]
  rw [List.map_inj_left]
  rfl

/-- Properties are left as they are where none is unsafe. -/
theorem renamedProperties_eq_self_iff (ha : a ≠ "type") {properties : Fields}
    (ih : ∀ field ∈ properties, renamed a field.2 = field.2 ↔ quiet field.2 = true) :
    renamedProperties a properties = properties ↔ quietProperties properties = true := by
  rw [renamedProperties_eq, quietProperties_eq, map_eq_self_iff, List.all_eq_true]
  refine forall₂_congr fun field hfield => ?_
  rw [Prod.ext_iff, renamedName_eq_iff ha, ih field hfield]
  simp

theorem quietProperties_safe {properties : Fields} (h : quietProperties properties = true) :
    hasUnsafe properties = false := by
  rw [quietProperties_eq, List.all_eq_true] at h
  rw [hasUnsafe, List.any_eq_false]
  intro field hfield hneeds
  simpa [hneeds] using h field hfield

/-- One field, beside properties that are safe. -/
theorem renamedField_eq_self_iff (ha : a ≠ "type") {key : String} {item : Json}
    (hself : renamed a item = item ↔ quiet item = true)
    (ih : ∀ inner, sizeOf inner < sizeOf item → (renamed a inner = inner ↔ quiet inner = true)) :
    renamedField a false key item = some item ↔ quietField key item = true := by
  cases item with
  | obj map =>
    rw [renamedField, quietField]
    split_ifs
    · rw [Option.some.injEq, Json.obj.injEq]
      exact renamedProperties_eq_self_iff ha fun field hfield => ih _ (sizeOf_field_lt hfield)
    · rw [Option.some.injEq, ← renamed, hself, quiet]
  | arr items =>
    have hentries : items.map (renamedEntry a false) = items := by
      rw [map_eq_self_iff]
      intro entry _
      cases entry <;> rfl
    rw [renamedField, quietField]
    split_ifs with hproperties hrequired
    · simp [hproperties]
    · simp [hrequired, hentries]
    · rw [Option.some.injEq, ← renamed, hself, quiet]
      simp [hproperties, hrequired]
  | null | bool b | int n | float r | str t =>
    by_cases hproperties : key = "properties" <;>
      simp [renamedField, quietField, hproperties]

/-- A value is left as it is where it is quiet. -/
theorem renamed_eq_self_iff (ha : a ≠ "type") (value : Json) :
    renamed a value = value ↔ quiet value = true := by
  induction hsize : sizeOf value using Nat.strong_induction_on generalizing value with
  | _ n ih =>
    have hinner : ∀ inner, sizeOf inner < sizeOf value →
        (renamed a inner = inner ↔ quiet inner = true) :=
      fun inner hlt => ih _ (hsize ▸ hlt) inner rfl
    cases value with
    | arr items =>
      rw [renamed, quiet, Json.arr.injEq, renamedItems_eq, quietItems_eq, map_eq_self_iff,
        List.all_eq_true]
      exact forall₂_congr fun item hitem => hinner item (sizeOf_item_lt hitem)
    | obj fields =>
      have hfields : renamedFields a (ownUnsafe fields) fields = fields.map (fun field => field) ↔
          ∀ field ∈ fields, renamedField a (ownUnsafe fields) field.1 field.2 = some field.2 :=
        renamedFields_eq_iff Prod.snd
      rw [List.map_id'] at hfields
      rw [renamed, quiet, Json.obj.injEq, hfields, quietFields_eq, List.all_eq_true]
      cases hown : ownUnsafe fields with
      | false =>
        refine forall₂_congr fun field hfield => ?_
        have hlt := sizeOf_field_lt hfield
        exact renamedField_eq_self_iff ha (hinner field.2 hlt)
          fun inner hless => hinner inner (hless.trans hlt)
      | true =>
        obtain ⟨properties, hmem, hunsafe⟩ := ownUnsafe_mem hown
        have hlt := sizeOf_field_lt hmem
        have hquiet : ¬ quietProperties properties = true := fun h => by
          rw [quietProperties_safe h] at hunsafe
          cases hunsafe
        refine iff_of_false (fun h => hquiet ?_) fun h => hquiet (h _ hmem)
        have hself := h _ hmem
        rw [renamedField, if_pos rfl, Option.some.injEq, Json.obj.injEq] at hself
        rw [← renamedProperties_eq_self_iff ha fun field hfield =>
          hinner field.2 ((sizeOf_field_lt hfield).trans hlt)]
        exact hself
    | null | bool b | int n | float r | str t => simp [renamed, quiet]

/-! ## Visits -/

/-- What a visit makes of a value; one of properties drops what is no mapping. -/
def visited (a : String) : Visit → Json → Option Json
  | .none, value => some value
  | .schema, value => some (renamed a value)
  | .properties, .obj fields => some (.obj (renamedProperties a fields))
  | .properties, _ => none

/-- A visit gives a value with its names renamed just where it agrees. -/
def VisitAgrees (a : String) (value : Json) : Prop :=
  ∀ visit names, visited a visit value = some (renamedSchema a names value) ↔
    agrees visit names value = true

theorem schemaProperties_safe {properties : Fields} (h : hasUnsafe properties = false) :
    schemaProperties a properties = schemaMap a none properties := by
  rw [schemaProperties_eq, schemaMap_eq]
  refine List.map_congr_left fun field hfield => ?_
  rw [hasUnsafe, List.any_eq_false] at h
  have hsafe := h field hfield
  rw [Bool.not_eq_true] at hsafe
  simp [renamedName, hsafe]

/-- The names of properties are kept only where none is unsafe. -/
theorem hasUnsafe_of_keys (ha : a ≠ "type") {properties : Fields} {f : String × Json → Option Json}
    {g : String × Json → Json}
    (h : properties.filterMap (fun field => (f field).map (field.1, ·)) =
      properties.map fun field => (renamedName a field.1, g field)) :
    hasUnsafe properties = false := by
  rw [List.filterMap_eq_map_iff_forall_eq_some] at h
  rw [hasUnsafe, List.any_eq_false]
  intro field hfield hneeds
  have hsame := h field hfield
  cases hvalue : f field with
  | none => simp [hvalue] at hsame
  | some value =>
    rw [hvalue, Option.map_some, Option.some.injEq, Prod.mk.injEq] at hsame
    rw [eq_comm, renamedName_eq_iff ha] at hsame
    rw [hsame.1] at hneeds
    cases hneeds

/-- A map of subschemas that is visited as a schema. -/
theorem walkedMap_iff (ha : a ≠ "type") (names : Option (List String)) {map : Fields}
    (ih : ∀ field ∈ map, VisitAgrees a field.2) :
    renamedFields a (ownUnsafe map) map = schemaMap a names map ↔
      agreesWalkedMap names map = true := by
  rw [schemaMap_eq, renamedFields_eq_iff, agreesWalkedMap_eq, List.all_eq_true]
  have hproperties : ∀ field ∈ map, field.1 = "properties" →
      (renamedField a (ownUnsafe map) field.1 field.2 =
          some (renamedSchema a (names.getD (keptNames field.2)) field.2) ↔
        agrees .properties (names.getD (keptNames field.2)) field.2 = true) := by
    intro field hfield hkey
    rw [← ih field hfield .properties]
    obtain ⟨key, item⟩ := field
    dsimp only at hkey ⊢
    cases item <;> simp [renamedField, hkey, visited]
  cases hown : ownUnsafe map with
  | false =>
    refine forall₂_congr fun field hfield => ?_
    rw [hown] at hproperties
    split_ifs with hkey hlist
    · exact hproperties field hfield hkey
    · rw [← ih field hfield .none]
      obtain ⟨key, item⟩ := field
      obtain ⟨hrequired, hitem⟩ := Bool.and_eq_true_iff.mp hlist
      cases item with
      | arr items =>
        have hentries : items.map (renamedEntry a false) = items := by
          rw [map_eq_self_iff]
          intro entry _
          cases entry <;> rfl
        rw [of_decide_eq_true hrequired]
        simp [renamedField, visited, hentries]
      | _ => cases hitem
    · rw [Bool.not_eq_true] at hlist
      rw [← ih field hfield .schema, renamedField_other a false hkey hlist, visited]
  | true =>
    obtain ⟨properties, hmem, hunsafe⟩ := ownUnsafe_mem hown
    have hdisagrees : agrees .properties (names.getD (keptNames (.obj properties)))
        (.obj properties) ≠ true := by
      rw [ne_eq, ← ih _ hmem .properties, visited, renamedSchema, Option.some.injEq,
        Json.obj.injEq, renamedProperties_eq, schemaFields_eq, List.map_inj_left]
      intro h
      rw [hasUnsafe, List.any_eq_true] at hunsafe
      obtain ⟨field, hfield, hneeds⟩ := hunsafe
      have hname := (renamedName_eq_iff ha field.1).mp (Prod.mk.inj (h field hfield)).1
      rw [hname] at hneeds
      cases hneeds
    refine iff_of_false (fun h => hdisagrees ?_) fun h => hdisagrees ?_
    · rw [hown] at hproperties
      exact (hproperties _ hmem rfl).mp (h _ hmem)
    · simpa using h _ hmem

/-- What a visit of a mapping makes of one of its fields. -/
def visitedField (a : String) (visit : Visit) (own : Bool) (key : String) (item : Json) :
    Option (String × Json) :=
  match visit with
  | .none => some (key, item)
  | .schema => (renamedField a own key item).map (key, ·)
  | .properties => some (renamedName a key, renamed a item)

theorem visited_obj (visit : Visit) (fields : Fields) :
    visited a visit (.obj fields) = some (.obj (fields.filterMap fun field =>
      visitedField a visit (ownUnsafe fields) field.1 field.2)) := by
  cases visit with
  | none => simp [visited, visitedField]
  | schema => rw [visited, renamed, renamedFields_eq]; rfl
  | properties => simp [visited, visitedField, renamedProperties_eq]

/-- Below a visit a value is renamed or not. -/
def visitedBelow (a : String) (visit : Visit) (value : Json) : Json :=
  if visit = .none then value else renamed a value

theorem visited_below (visit : Visit) (value : Json) :
    visited a visit.below value = some (visitedBelow a visit value) := by
  cases visit <;> rfl

theorem below_ne (visit : Visit) : visit.below ≠ .properties := by
  cases visit <;> simp [Visit.below]

/-- A field that is no `properties` and no list of required names. -/
theorem visitedField_other (visit : Visit) (own : Bool) {key : String} {item : Json}
    (hkey : key ≠ "properties") (hlist : (key = "required" && isList item) = false)
    (hsafe : needsNimToolParameterAlias key = false) :
    visitedField a visit own key item = some (key, visitedBelow a visit item) := by
  cases visit with
  | none => rfl
  | schema => simp [visitedField, renamedField_other a own hkey hlist, visitedBelow]
  | properties => simp [visitedField, visitedBelow, renamedName, hsafe]

theorem safe_of_place {key : String} (h : placeOf key ≠ .data) :
    needsNimToolParameterAlias key = false := by
  rw [← Bool.not_eq_true, needs_iff]
  rintro rfl
  exact h (by decide)

theorem properties_safe : needsNimToolParameterAlias "properties" = false := by decide

theorem required_safe : needsNimToolParameterAlias "required" = false := by decide

theorem ne_properties {key : String} (h : placeOf key ≠ .properties) : key ≠ "properties" := by
  rintro rfl
  exact h (by decide)

theorem ne_required {key : String} (h : placeOf key ≠ .required) : key ≠ "required" := by
  rintro rfl
  exact h (by decide)

theorem eq_properties {key : String} (h : placeOf key = .properties) : key = "properties" := by
  unfold placeOf at h
  split_ifs at h
  assumption

theorem eq_required {key : String} (h : placeOf key = .required) : key = "required" := by
  unfold placeOf at h
  split_ifs at h
  assumption

/-- A visit leaves a value that is data as it is. -/
def agreesData (visit : Visit) (key : String) (item : Json) : Bool :=
  match visit with
  | .none => true
  | .schema => quiet item
  | .properties => !needsNimToolParameterAlias key && quiet item

/-- A value that is data for a schema. -/
theorem data_iff (ha : a ≠ "type") {visit : Visit} {own : Bool} {names : List String} {key : String}
    {item : Json} (hkey : key ≠ "properties") (hlist : (key = "required" && isList item) = false)
    (hspec : schemaField a names key item = item)
    (hagrees : agreesField visit own names key item = agreesData visit key item) :
    visitedField a visit own key item = some (key, schemaField a names key item) ↔
      agreesField visit own names key item = true := by
  rw [hspec, hagrees]
  cases visit with
  | none => simp [visitedField, agreesData]
  | schema =>
    simp [visitedField, agreesData, renamedField_other a own hkey hlist, renamed_eq_self_iff ha]
  | properties =>
    simp [visitedField, agreesData, renamedName_eq_iff ha, renamed_eq_self_iff ha]

/-- Items of a list of subschemas. -/
theorem items_iff (visit : Visit) (names : Option (List String)) {items : List Json}
    (ih : ∀ item ∈ items, VisitAgrees a item) :
    items.map (visitedBelow a visit) = schemaItems a names items ↔
      agreesItems visit.below names items = true := by
  rw [schemaItems_eq, agreesItems_eq, List.map_inj_left, List.all_eq_true]
  refine forall₂_congr fun item hitem => ?_
  rw [← ih item hitem visit.below, visited_below, Option.some.injEq]

theorem visitedBelow_arr (visit : Visit) (items : List Json) :
    visitedBelow a visit (.arr items) = .arr (items.map (visitedBelow a visit)) := by
  cases visit with
  | none =>
    have hid : visitedBelow a .none = id := funext fun _ => rfl
    rw [hid, List.map_id]
    rfl
  | schema | properties =>
    have hrenamed : visitedBelow a .schema = renamed a := funext fun _ => rfl
    have hsame : visitedBelow a .properties = renamed a := funext fun _ => rfl
    simp [hrenamed, hsame, renamed, renamedItems_eq]

attribute [local simp] schemaField agreesField in
/-- A subschema under a key. -/
theorem value_iff {visit : Visit} {own inPlace : Bool} {names : List String} {key : String}
    {item : Json} (hplace : placeOf key = .value inPlace) (ih : VisitAgrees a item) :
    visitedField a visit own key item = some (key, schemaField a names key item) ↔
      agreesField visit own names key item = true := by
  have hkey : key ≠ "properties" := ne_properties (by simp [hplace])
  have hrequired : key ≠ "required" := ne_required (by simp [hplace])
  have hsafe : needsNimToolParameterAlias key = false := safe_of_place (by simp [hplace])
  have hspec : schemaField a names key item =
      renamedSchema a (if inPlace then names else keptNames item) item := by
    cases item with
    | obj map => cases inPlace <;> simp [schemaField, renamedSchema, hplace]
    | arr items => simp [schemaField, renamedSchema, hplace]
    | _ => rfl
  have hagrees : agreesField visit own names key item =
      agrees visit.below (if inPlace then names else keptNames item) item := by
    cases item with
    | obj map => cases inPlace <;> simp [agreesField, agrees, hplace]
    | arr items => simp [agreesField, agrees, hplace, below_ne]
    | _ => cases visit <;> simp [agreesField, agrees, Visit.below, hkey, hsafe]
  rw [visitedField_other visit own hkey (by simp [hrequired]) hsafe, hspec, hagrees,
    ← ih visit.below, visited_below]
  simp

/-- A list of subschemas under a key. -/
theorem list_iff {visit : Visit} {own inPlace : Bool} {names : List String} {key : String}
    {items : List Json} (hplace : placeOf key = .list inPlace)
    (ih : ∀ item ∈ items, VisitAgrees a item) :
    visitedField a visit own key (.arr items) = some (key, schemaField a names key (.arr items)) ↔
      agreesField visit own names key (.arr items) = true := by
  have hkey : key ≠ "properties" := ne_properties (by simp [hplace])
  have hrequired : key ≠ "required" := ne_required (by simp [hplace])
  have hsafe : needsNimToolParameterAlias key = false := safe_of_place (by simp [hplace])
  have hspec : schemaField a names key (.arr items) =
      .arr (schemaItems a (if inPlace then some names else none) items) := by
    cases inPlace <;> simp [schemaField, hplace]
  have hagrees : agreesField visit own names key (.arr items) =
      agreesItems visit.below (if inPlace then some names else none) items := by
    simp [agreesField, hplace]
  rw [visitedField_other visit own hkey (by simp [hrequired]) hsafe, hspec, hagrees,
    visitedBelow_arr, ← items_iff visit _ ih]
  simp

theorem agreesMap_none_iff (names : Option (List String)) {map : Fields}
    (ih : ∀ field ∈ map, VisitAgrees a field.2) :
    map = schemaMap a names map ↔ agreesMap .none names map = true := by
  rw [schemaMap_eq, agreesMap_eq, List.all_eq_true, eq_comm, map_eq_self_iff]
  refine forall₂_congr fun field hfield => ?_
  rw [← ih field hfield .none, visited, Option.some.injEq, Prod.ext_iff, eq_comm (a := field.2)]
  simp

/-- A map of subschemas under a key. -/
theorem map_iff (ha : a ≠ "type") {visit : Visit} {own inPlace : Bool} {names : List String}
    {key : String} {map : Fields} (hplace : placeOf key = .map inPlace)
    (ih : ∀ field ∈ map, VisitAgrees a field.2) :
    visitedField a visit own key (.obj map) = some (key, schemaField a names key (.obj map)) ↔
      agreesField visit own names key (.obj map) = true := by
  have hkey : key ≠ "properties" := ne_properties (by simp [hplace])
  have hrequired : key ≠ "required" := ne_required (by simp [hplace])
  have hsafe : needsNimToolParameterAlias key = false := safe_of_place (by simp [hplace])
  have hspec : schemaField a names key (.obj map) =
      .obj (schemaMap a (if inPlace then some names else none) map) := by
    cases inPlace <;> simp [schemaField, hplace]
  rw [visitedField_other visit own hkey (by simp [hrequired]) hsafe, hspec, Option.some.injEq,
    Prod.mk.injEq, and_iff_right rfl]
  cases visit with
  | none => simp [visitedBelow, agreesField, hplace, agreesMap_none_iff _ ih]
  | schema | properties =>
    simp [visitedBelow, renamed, agreesField, hplace, walkedMap_iff ha _ ih]

/-- The properties of a schema. -/
theorem properties_iff (ha : a ≠ "type") {visit : Visit} {own : Bool} {names : List String}
    {map : Fields} (ih : ∀ field ∈ map, VisitAgrees a field.2) :
    visitedField a visit own "properties" (.obj map) =
        some ("properties", schemaField a names "properties" (.obj map)) ↔
      agreesField visit own names "properties" (.obj map) = true := by
  have hplace : placeOf "properties" = .properties := by decide
  have hspec : schemaField a names "properties" (.obj map) = .obj (schemaProperties a map) := by
    simp [schemaField, hplace]
  have hfilter : map.filterMap (fun field => (some field.2).map (field.1, ·)) = map := by
    simp
  rw [hspec]
  cases visit with
  | none =>
    have hagrees : agreesField .none own names "properties" (.obj map) =
        (!hasUnsafe map && agreesMap .none none map) := by simp [agreesField, hplace]
    rw [hagrees]
    cases hunsafe : hasUnsafe map with
    | false => simp [visitedField, schemaProperties_safe hunsafe, agreesMap_none_iff none ih]
    | true =>
      refine iff_of_false (fun h => ?_) (by simp)
      have hkeys : map = schemaProperties a map := by simpa [visitedField] using h
      rw [schemaProperties_eq] at hkeys
      rw [hasUnsafe_of_keys ha (hfilter.trans hkeys)] at hunsafe
      cases hunsafe
  | schema =>
    have hagrees : agreesField .schema own names "properties" (.obj map) =
        agreesMap .schema none map := by simp [agreesField, hplace]
    rw [hagrees, agreesMap_eq, List.all_eq_true, schemaProperties_eq]
    simp only [visitedField, renamedField, if_pos, Option.map_some, Option.some.injEq,
      Prod.mk.injEq, true_and, Json.obj.injEq, renamedProperties_eq, List.map_inj_left]
    refine forall₂_congr fun field hfield => ?_
    rw [← ih field hfield .schema, visited, Option.some.injEq, Option.getD_none]
  | properties =>
    have hvisit : visitedField a .properties own "properties" (.obj map) =
        some ("properties", .obj (renamedFields a (ownUnsafe map) map)) := by
      simp [visitedField, renamed, renamedName, properties_safe]
    have hagrees : agreesField .properties own names "properties" (.obj map) =
        (!hasUnsafe map && agreesWalkedMap none map) := by simp [agreesField, hplace]
    rw [hvisit, hagrees]
    cases hunsafe : hasUnsafe map with
    | false => simp [schemaProperties_safe hunsafe, walkedMap_iff ha none ih]
    | true =>
      refine iff_of_false (fun h => ?_) (by simp)
      have hkeys : renamedFields a (ownUnsafe map) map = schemaProperties a map := by
        simpa using h
      rw [renamedFields_eq, schemaProperties_eq] at hkeys
      rw [hasUnsafe_of_keys ha hkeys] at hunsafe
      cases hunsafe

theorem renamedEntry_eq_iff (ha : a ≠ "type") (own : Bool) (names : List String) (entry : Json) :
    renamedEntry a own entry = renamedRequired a names entry ↔
      agreesEntry own names entry = true := by
  cases entry with
  | str name =>
    have hname := renamedName_eq_iff ha name
    cases hneeds : needsNimToolParameterAlias name with
    | false => simp [renamedEntry, renamedRequired, agreesEntry, renamedName, hneeds]
    | true =>
      have hne : renamedName a name ≠ name := fun h => by simp [hname.mp h] at hneeds
      by_cases hmem : name ∈ names <;> cases own <;>
        simp [renamedEntry, renamedRequired, agreesEntry, hneeds, hmem, hne, hne.symm]
  | _ => simp [renamedEntry, renamedRequired, agreesEntry]

theorem entry_eq_iff (ha : a ≠ "type") (names : List String) (entry : Json) :
    entry = renamedRequired a names entry ↔ keepsEntry names entry = true := by
  cases entry with
  | str name =>
    have hname := renamedName_eq_iff ha name
    by_cases hmem : name ∈ names <;>
      simp [renamedRequired, keepsEntry, hmem, eq_comm (a := name), hname]
  | _ => simp [renamedRequired, keepsEntry]

theorem renamed_eq_required_iff (ha : a ≠ "type") (names : List String) (entry : Json) :
    renamed a entry = renamedRequired a names entry ↔
      keepsEntry names entry = true ∧ quiet entry = true := by
  have hself := renamed_eq_self_iff ha entry
  have hkept := entry_eq_iff ha names entry
  cases entry with
  | str name => simpa [renamed, quiet] using hkept
  | _ => simpa [renamedRequired, keepsEntry] using hself

/-- A list of required names. -/
theorem required_iff (ha : a ≠ "type") {visit : Visit} {own : Bool} {names : List String}
    {items : List Json} :
    visitedField a visit own "required" (.arr items) =
        some ("required", schemaField a names "required" (.arr items)) ↔
      agreesField visit own names "required" (.arr items) = true := by
  have hplace : placeOf "required" = .required := by decide
  have hspec : schemaField a names "required" (.arr items) =
      .arr (items.map (renamedRequired a names)) := by simp [schemaField, hplace]
  rw [hspec]
  have hkept : items = items.map (renamedRequired a names) ↔
      items.all (keepsEntry names) = true := by
    rw [eq_comm, map_eq_self_iff, List.all_eq_true]
    refine forall₂_congr fun entry _ => ?_
    rw [← entry_eq_iff ha, eq_comm]
  cases visit with
  | none => simpa [visitedField, agreesField, hplace] using hkept
  | schema =>
    simp [visitedField, renamedField, agreesField, hplace, renamedEntry_eq_iff ha]
  | properties =>
    have hvisit : visitedField a .properties own "required" (.arr items) =
        some ("required", .arr (items.map (renamed a))) := by
      simp [visitedField, renamed, renamedItems_eq, renamedName, required_safe]
    have hagrees : agreesField .properties own names "required" (.arr items) =
        (items.all (keepsEntry names) && quietItems items) := by simp [agreesField, hplace]
    rw [hvisit, hagrees, quietItems_eq, Bool.and_eq_true, List.all_eq_true, List.all_eq_true]
    rw [Option.some.injEq, Prod.mk.injEq, and_iff_right rfl, Json.arr.injEq, List.map_inj_left,
      ← forall₂_and]
    exact forall₂_congr fun entry _ => renamed_eq_required_iff ha names entry

/-- `properties` that are no mapping. -/
theorem noMapping_iff (ha : a ≠ "type") {visit : Visit} {own : Bool} {names : List String}
    {item : Json} (hitem : ∀ map, item ≠ .obj map) :
    visitedField a visit own "properties" item =
        some ("properties", schemaField a names "properties" item) ↔
      agreesField visit own names "properties" item = true := by
  have hplace : placeOf "properties" = .properties := by decide
  have hsafe := properties_safe
  have hself := renamed_eq_self_iff ha item
  cases item with
  | obj map => exact absurd rfl (hitem map)
  | arr items =>
    cases visit <;>
      simp [visitedField, renamedField, schemaField, agreesField, hplace, renamedName, hsafe, hself,
        quiet]
  | _ =>
    cases visit <;>
      simp [visitedField, renamedField, schemaField, agreesField, renamedName, hsafe, renamed]

/-- What stands under a key of a mapping. -/
theorem field_iff (ha : a ≠ "type") (visit : Visit) (own : Bool) (names : List String)
    (key : String) {item : Json} (hitem : VisitAgrees a item)
    (ih : ∀ inner, sizeOf inner < sizeOf item → VisitAgrees a inner) :
    visitedField a visit own key item = some (key, schemaField a names key item) ↔
      agreesField visit own names key item = true := by
  cases hplace : placeOf key with
  | value inPlace => exact value_iff hplace hitem
  | properties =>
    obtain rfl := eq_properties hplace
    cases item with
    | obj map => exact properties_iff ha fun field hfield => ih _ (sizeOf_field_lt hfield)
    | _ => exact noMapping_iff ha (by simp)
  | list inPlace =>
    have hkey : key ≠ "properties" := ne_properties (by simp [hplace])
    have hrequired : key ≠ "required" := ne_required (by simp [hplace])
    cases item with
    | arr items => exact list_iff hplace fun item hmem => ih _ (sizeOf_item_lt hmem)
    | _ =>
      exact data_iff ha hkey (by simp [hrequired]) (by simp [schemaField, hplace])
        (by cases visit <;> simp [agreesField, agreesData, hplace, quiet, hkey])
  | map inPlace =>
    have hkey : key ≠ "properties" := ne_properties (by simp [hplace])
    have hrequired : key ≠ "required" := ne_required (by simp [hplace])
    cases item with
    | obj map => exact map_iff ha hplace fun field hfield => ih _ (sizeOf_field_lt hfield)
    | _ =>
      exact data_iff ha hkey (by simp [hrequired]) (by simp [schemaField, hplace])
        (by cases visit <;> simp [agreesField, agreesData, hplace, quiet, hkey])
  | required =>
    obtain rfl := eq_required hplace
    cases item with
    | arr items => exact required_iff ha
    | _ =>
      exact data_iff ha (by decide) (by simp [isList]) (by simp [schemaField, hplace])
        (by cases visit <;> simp [agreesField, agreesData, hplace, quiet])
  | data =>
    have hkey : key ≠ "properties" := ne_properties (by simp [hplace])
    have hrequired : key ≠ "required" := ne_required (by simp [hplace])
    exact data_iff ha hkey (by simp [hrequired]) (by cases item <;> simp [schemaField, hplace])
      (by cases item <;> cases visit <;> simp [agreesField, agreesData, hplace, quiet, hkey])

/-- A visit renames consistently just where it agrees. -/
theorem visitAgrees (ha : a ≠ "type") (value : Json) : VisitAgrees a value := by
  induction hsize : sizeOf value using Nat.strong_induction_on generalizing value with
  | _ n ih =>
    have hinner : ∀ inner, sizeOf inner < sizeOf value → VisitAgrees a inner :=
      fun inner hlt => ih _ (hsize ▸ hlt) inner rfl
    intro visit names
    cases value with
    | obj fields =>
      rw [visited_obj, renamedSchema, schemaFields_eq, agrees, agreesFields_eq, Option.some.injEq,
        Json.obj.injEq, List.filterMap_eq_map_iff_forall_eq_some, List.all_eq_true]
      refine forall₂_congr fun field hfield => ?_
      have hlt := sizeOf_field_lt hfield
      exact field_iff ha visit _ names field.1 (hinner _ hlt)
        fun inner hless => hinner inner (hless.trans hlt)
    | arr items =>
      have hitems : ∀ item ∈ items, VisitAgrees a item :=
        fun item hitem => hinner item (sizeOf_item_lt hitem)
      have hvisit := items_iff visit none hitems
      have harr : visited a visit.below (.arr items) =
          some (.arr (items.map (visitedBelow a visit))) := by
        rw [visited_below, visitedBelow_arr]
      have hnone : Visit.none.below = .none := rfl
      have hschema : Visit.schema.below = .schema := rfl
      cases visit with
      | properties => simp [visited, agrees]
      | none | schema =>
        simp only [hnone, hschema] at harr hvisit
        rw [agrees, renamedSchema, harr, Option.some.injEq, Json.arr.injEq, hvisit]
        simp
    | null | bool b | int n | float r | str t =>
      cases visit <;> simp [visited, renamed, renamedSchema, agrees]

end Switchboard.Providers.NimSchemas
