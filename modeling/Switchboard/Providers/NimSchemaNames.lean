import Mathlib
import Switchboard.Providers.NimSchemaWalk

/-!
# The names of a schema

`placeOf` says what stands under a key of a schema. `renamedSchema` renames what a schema
names: its properties, and the required names of those that are declared for the same
instance. `agrees` says where the walk does just that.
-/

namespace Switchboard.Providers.NimSchemas

/-- What a key of a schema holds. Subschemas in place speak of the same instance. -/
inductive Place where
  | properties
  | value (inPlace : Bool)
  | list (inPlace : Bool)
  | map (inPlace : Bool)
  | required
  | data
deriving DecidableEq

def placeOf (key : String) : Place :=
  if key = "properties" then .properties
  else if key ∈ schemaValueKeys then .value (key ∈ ["if", "then", "else", "not"])
  else if key ∈ schemaListKeys then .list (key ∈ ["allOf", "anyOf", "oneOf"])
  else if key ∈ schemaMapKeys then .map (key = "dependentSchemas")
  else if key = "required" then .required
  else .data

def isBoolean : Json → Bool
  | .bool _ => true
  | _ => false

/-! ## Declared names -/

section Declared

-- which subschemas count
variable (counts : Json → Bool)

mutual

/-- The properties that a schema declares for its instance. -/
def declared : Json → List String
  | .obj fields => declaredFields fields
  | _ => []

def declaredFields : Fields → List String
  | [] => []
  | (key, item) :: fields => declaredField key item ++ declaredFields fields

def declaredField (key : String) : Json → List String
  | .obj map =>
    match placeOf key with
    | .properties => (map.filter fun field => counts field.2).map Prod.fst
    | .value true => declaredFields map
    | .map true => declaredMap map
    | _ => []
  | .arr items =>
    match placeOf key with
    | .list true => declaredItems items
    | _ => []
  | _ => []

def declaredItems : List Json → List String
  | [] => []
  | item :: items => declared item ++ declaredItems items

def declaredMap : Fields → List String
  | [] => []
  | (_, item) :: map => declared item ++ declaredMap map

end

end Declared

/-- The names whose subschemas are kept. -/
def keptNames (schema : Json) : List String := declared (fun item => !isBoolean item) schema

/-- The names whose subschemas are removed. -/
def removedNames (schema : Json) : List String := declared isBoolean schema

/-! ## Renaming what a schema names -/

section Spec

variable (a : String)

def renamedRequired (names : List String) : Json → Json
  | .str name => .str (if name ∈ names then renamedName a name else name)
  | entry => entry

mutual

/-- `names` are the properties that are declared for the instance; `none` stands for those
that each subschema declares itself. -/
def renamedSchema (names : List String) : Json → Json
  | .obj fields => .obj (schemaFields names fields)
  | .arr items => .arr (schemaItems none items)
  | value => value

def schemaFields (names : List String) : Fields → Fields
  | [] => []
  | (key, item) :: fields => (key, schemaField names key item) :: schemaFields names fields

def schemaField (names : List String) (key : String) : Json → Json
  | .obj map =>
    match placeOf key with
    | .properties => .obj (schemaProperties map)
    | .value true => .obj (schemaFields names map)
    | .value false => .obj (schemaFields (keptNames (.obj map)) map)
    | .map true => .obj (schemaMap (some names) map)
    | .map false => .obj (schemaMap none map)
    | _ => .obj map
  | .arr items =>
    match placeOf key with
    | .value _ => .arr (schemaItems none items)
    | .list true => .arr (schemaItems (some names) items)
    | .list false => .arr (schemaItems none items)
    | .required => .arr (items.map (renamedRequired a names))
    | _ => .arr items
  | value => value

def schemaItems (names : Option (List String)) : List Json → List Json
  | [] => []
  | item :: items =>
    renamedSchema (names.getD (keptNames item)) item :: schemaItems names items

def schemaMap (names : Option (List String)) : Fields → Fields
  | [] => []
  | (key, item) :: map =>
    (key, renamedSchema (names.getD (keptNames item)) item) :: schemaMap names map

def schemaProperties : Fields → Fields
  | [] => []
  | (name, schema) :: properties =>
    (renamedName a name, renamedSchema (keptNames schema) schema) :: schemaProperties properties

end

end Spec

/-! ## Where the walk agrees -/

mutual

/-- The walk leaves a value as it is: no mapping in it has `properties` that are no mapping or
that have an unsafe name. -/
def quiet : Json → Bool
  | .obj fields => quietFields fields
  | .arr items => quietItems items
  | _ => true

def quietFields : Fields → Bool
  | [] => true
  | (key, item) :: fields => quietField key item && quietFields fields

def quietField (key : String) : Json → Bool
  | .obj map => if key = "properties" then quietProperties map else quietFields map
  | .arr items => key ≠ "properties" && (key = "required" || quietItems items)
  | _ => key ≠ "properties"

def quietItems : List Json → Bool
  | [] => true
  | item :: items => quiet item && quietItems items

def quietProperties : Fields → Bool
  | [] => true
  | (name, item) :: properties =>
    !needsNimToolParameterAlias name && quiet item && quietProperties properties

end

/-- How the walk visits a value: not at all, as a schema, or as the properties of one. -/
inductive Visit where
  | none
  | schema
  | properties
deriving DecidableEq

/-- How it visits what is below. -/
def Visit.below : Visit → Visit
  | .none => .none
  | _ => .schema

/-- An entry of a required list keeps its name, and shall keep it. -/
def keepsEntry (names : List String) : Json → Bool
  | .str name => !(needsNimToolParameterAlias name && names.contains name)
  | _ => true

/-- An entry is renamed just where it shall be. -/
def agreesEntry (own : Bool) (names : List String) : Json → Bool
  | .str name => !needsNimToolParameterAlias name || own == names.contains name
  | _ => true

mutual

/-- What the visit makes of a schema is the schema with its names renamed. -/
def agrees (visit : Visit) (names : List String) : Json → Bool
  | .obj fields => agreesFields visit (ownUnsafe fields) names fields
  | .arr items => visit ≠ .properties && agreesItems visit none items
  | _ => visit ≠ .properties

def agreesFields (visit : Visit) (own : Bool) (names : List String) : Fields → Bool
  | [] => true
  | (key, item) :: fields =>
    agreesField visit own names key item && agreesFields visit own names fields

def agreesField (visit : Visit) (own : Bool) (names : List String) (key : String) : Json → Bool
  | .obj map =>
    match placeOf key with
    | .properties =>
      match visit with
      | .none => !hasUnsafe map && agreesMap .none none map
      | .schema => agreesMap .schema none map
      | .properties => !hasUnsafe map && agreesWalkedMap none map
    | .value true => agreesFields visit.below (ownUnsafe map) names map
    | .value false => agreesFields visit.below (ownUnsafe map) (keptNames (.obj map)) map
    | .map inPlace =>
      let scope := if inPlace then some names else none
      match visit with
      | .none => agreesMap .none scope map
      | _ => agreesWalkedMap scope map
    | _ =>
      match visit with
      | .none => true
      | .schema => quietFields map
      | .properties => !needsNimToolParameterAlias key && quietFields map
  | .arr items =>
    match placeOf key with
    | .value _ => agreesItems visit.below none items
    | .list inPlace => agreesItems visit.below (if inPlace then some names else none) items
    | .required =>
      match visit with
      | .none => items.all (keepsEntry names)
      | .schema => items.all (agreesEntry own names)
      | .properties => items.all (keepsEntry names) && quietItems items
    | .properties =>
      match visit with
      | .none => true
      | .schema => false
      | .properties => quietItems items
    | _ =>
      match visit with
      | .none => true
      | .schema => quietItems items
      | .properties => !needsNimToolParameterAlias key && quietItems items
  | _ =>
    match visit with
    | .none => true
    | .schema => key ≠ "properties"
    | .properties => !needsNimToolParameterAlias key

def agreesItems (visit : Visit) (names : Option (List String)) : List Json → Bool
  | [] => true
  | item :: items =>
    agrees visit (names.getD (keptNames item)) item && agreesItems visit names items

def agreesMap (visit : Visit) (names : Option (List String)) : Fields → Bool
  | [] => true
  | (_, item) :: map =>
    agrees visit (names.getD (keptNames item)) item && agreesMap visit names map

/-- A map of subschemas that the walk visits as if it were a schema. -/
def agreesWalkedMap (names : Option (List String)) : Fields → Bool
  | [] => true
  | (key, item) :: map =>
    (if key = "properties" then agrees .properties (names.getD (keptNames item)) item
      else if key = "required" && isList item then
        agrees .none (names.getD (keptNames item)) item
      else agrees .schema (names.getD (keptNames item)) item) && agreesWalkedMap names map

end

end Switchboard.Providers.NimSchemas
