import Mathlib
import Switchboard.Library.Dict
import Switchboard.Library.FreshNames
import Switchboard.Library.Json

/-!
# Tool schemas for NIM

Boolean subschemas are removed from the parameters of a tool, and properties with an unsafe
name get an alias. The keys of a dictionary stay in their place: their order says nothing.
-/

namespace Switchboard.Providers.NimSchemas

open Switchboard.FreshNames

abbrev Fields := List (String × Json)

def schemaValueKeys : List String :=
  ["additionalProperties", "additionalItems", "unevaluatedProperties", "unevaluatedItems", "items",
    "contains", "propertyNames", "if", "then", "else", "not"]

def schemaListKeys : List String := ["allOf", "anyOf", "oneOf", "prefixItems"]

def schemaMapKeys : List String :=
  ["properties", "patternProperties", "$defs", "definitions", "dependentSchemas"]

def nimToolArgumentAliasesKey : String := "_fcc_nim_tool_argument_aliases"

def nimToolParameterAliasPrefix : String := "_fcc_arg_"

def nimUnsafeToolParameterNames : List String := ["type"]

/-! ## Boolean subschemas -/

mutual

/-- `_sanitize_nim_schema_node`; a boolean is not kept. -/
def sanitizeNode : Json → Option Json
  | .bool _ => none
  | .obj fields => some (.obj (sanitizeFields fields))
  | .arr items => some (.arr (sanitizeItems items))
  | value => some value

def sanitizeFields : Fields → Fields
  | [] => []
  | (key, item) :: fields =>
    match sanitizeField key item with
    | some sanitized => (key, sanitized) :: sanitizeFields fields
    | none => sanitizeFields fields

/-- What is kept under a key: of a subschema what `sanitizeNode` keeps, of a list of them
nothing when it is empty, and other values as they are. -/
def sanitizeField (key : String) : Json → Option Json
  | .bool b => if key ∈ schemaValueKeys then none else some (.bool b)
  | .arr items =>
    if key ∈ schemaValueKeys then some (.arr (sanitizeItems items))
    else if key ∈ schemaListKeys then
      match sanitizeItems items with
      | [] => none
      | kept => some (.arr kept)
    else some (.arr items)
  | .obj map =>
    if key ∈ schemaValueKeys then some (.obj (sanitizeFields map))
    else if key ∈ schemaMapKeys then some (.obj (sanitizeMap map))
    else some (.obj map)
  | value => some value

def sanitizeItems : List Json → List Json
  | [] => []
  | item :: items =>
    match sanitizeNode item with
    | some sanitized => sanitized :: sanitizeItems items
    | none => sanitizeItems items

/-- The values of a map of subschemas. -/
def sanitizeMap : Fields → Fields
  | [] => []
  | (key, item) :: fields =>
    match sanitizeNode item with
    | some sanitized => (key, sanitized) :: sanitizeMap fields
    | none => sanitizeMap fields

end

/-! ## Property names -/

mutual

def collectPropertyNames : Json → List String
  | .obj fields => collectFields fields
  | .arr items => collectItems items
  | _ => []

def collectFields : Fields → List String
  | [] => []
  | (key, item) :: fields =>
    (if key = "properties" then
      match item with
      | .obj properties => collectProperties properties
      | _ => []
    else collectPropertyNames item) ++ collectFields fields

def collectItems : List Json → List String
  | [] => []
  | item :: items => collectPropertyNames item ++ collectItems items

def collectProperties : Fields → List String
  | [] => []
  | (name, schema) :: properties =>
    name :: collectPropertyNames schema ++ collectProperties properties

end

/-! ## Aliases -/

def needsNimToolParameterAlias (name : String) : Bool := name ∈ nimUnsafeToolParameterNames

/-- The name with its characters that are neither alphanumeric nor underscores replaced; all
names that need an alias are ASCII. -/
def safeTail (name : String) : String :=
  let replaced := name.toList.map fun c => if c.isAlphanum || c = '_' then c else '_'
  let tail := ((replaced.dropWhile (· = '_')).reverse.dropWhile (· = '_')).reverse
  if tail = [] then "arg" else String.ofList tail

/-- `_make_nim_tool_parameter_alias`: the candidate, or the first one with a counter. -/
def makeNimToolParameterAlias (name : String) (reserved : List String) : String :=
  let candidate := nimToolParameterAliasPrefix ++ safeTail name
  if candidate ∈ reserved then firstFree (candidate ++ "_") reserved else candidate

/-- What a walk over a schema changes. -/
structure AliasState where
  reserved : List String
  aliasToOriginal : Dict String String := .empty
  originalToAlias : Dict String String := .empty

/-- The alias of a name, made when it has none. -/
def aliasOf (name : String) (state : AliasState) : String × AliasState :=
  match state.originalToAlias.get? name with
  | some known => (known, state)
  | none =>
    let made := makeNimToolParameterAlias name state.reserved
    (made, {
      reserved := made :: state.reserved
      aliasToOriginal := state.aliasToOriginal.set made name
      originalToAlias := state.originalToAlias.set name made })

/-- The properties of a schema with their aliases. -/
structure OwnProperties where
  properties : Option Fields := none
  localAliases : Dict String String := .empty

/-- An entry of a list of required names. -/
def aliasRequired (localAliases : Dict String String) : Json → Json
  | .str name => .str ((localAliases.get? name).getD name)
  | entry => entry

mutual

/-- `_alias_nim_schema_property_names` -/
def aliasNames : Json → AliasState → Json × AliasState
  | .arr items, state =>
    let (items, state) := aliasItems items state
    (.arr items, state)
  | .obj fields, state =>
    let (own, state) := aliasOwnProperties fields state
    let (fields, state) := aliasFields own fields state
    (.obj fields, state)
  | value, state => (value, state)

def aliasItems : List Json → AliasState → List Json × AliasState
  | [], state => ([], state)
  | item :: items, state =>
    let (item, state) := aliasNames item state
    let (items, state) := aliasItems items state
    (item :: items, state)

/-- The `properties` of a mapping, which are visited first. -/
def aliasOwnProperties : Fields → AliasState → OwnProperties × AliasState
  | [], state => ({}, state)
  | (key, item) :: fields, state =>
    if key = "properties" then
      match item with
      | .obj properties =>
        let ((properties, localAliases), state) := aliasProperties properties state
        ({ properties := some properties, localAliases := localAliases }, state)
      | _ => ({}, state)
    else aliasOwnProperties fields state

def aliasProperties :
    Fields → AliasState → (Fields × Dict String String) × AliasState
  | [], state => (([], .empty), state)
  | (name, schema) :: properties, state =>
    let (schema, state) := aliasNames schema state
    if needsNimToolParameterAlias name then
      let (made, state) := aliasOf name state
      let ((properties, localAliases), state) := aliasProperties properties state
      (((made, schema) :: properties, localAliases.set name made), state)
    else
      let ((properties, localAliases), state) := aliasProperties properties state
      (((name, schema) :: properties, localAliases), state)

/-- The other keys of a mapping, with the aliased properties in the place of `properties`. -/
def aliasFields (own : OwnProperties) : Fields → AliasState → Fields × AliasState
  | [], state => ([], state)
  | (key, item) :: fields, state =>
    if key = "properties" then
      let (fields, state) := aliasFields own fields state
      match own.properties with
      | some properties => ((key, .obj properties) :: fields, state)
      | none => (fields, state)
    else if key = "required" then
      match item with
      | .arr entries =>
        let (fields, state) := aliasFields own fields state
        ((key, .arr (entries.map (aliasRequired own.localAliases))) :: fields, state)
      | item =>
        let (item, state) := aliasNames item state
        let (fields, state) := aliasFields own fields state
        ((key, item) :: fields, state)
    else
      let (item, state) := aliasNames item state
      let (fields, state) := aliasFields own fields state
      ((key, item) :: fields, state)

end

/-- `_alias_nim_tool_parameters` -/
def aliasNimToolParameters (parameters : Fields) : Fields × Dict String String :=
  let (own, state) := aliasOwnProperties parameters
    { reserved := collectPropertyNames (.obj parameters) }
  let (aliased, state) := aliasFields own parameters state
  if state.aliasToOriginal.entries = [] then (parameters, .empty)
  else (aliased, state.aliasToOriginal)

/-! ## Requests -/

/-- The parameters that are sent for the parameters of a tool, and their aliases. -/
def sanitizeParameters (parameters : Fields) : Fields × Dict String String :=
  aliasNimToolParameters (sanitizeFields parameters)

def setField (fields : Fields) (key : String) (value : Json) : Fields :=
  fields.map fun field => if field.1 = key then (key, value) else field

/-- One tool of a request. -/
def sanitizeTool : Json → Json
  | .obj tool =>
    match tool.lookup "function" with
    | some (.obj function) =>
      match function.lookup "parameters" with
      | some (.obj parameters) => .obj (setField tool "function"
          (.obj (setField function "parameters" (.obj (sanitizeParameters parameters).1))))
      | _ => .obj tool
    | _ => .obj tool
  | tool => tool

/-- The aliases of a tool, under its name. -/
def addToolAliases (toolArgumentAliases : Dict String (Dict String String)) (tool : Json) :
    Dict String (Dict String String) :=
  match tool.getD "function" with
  | .obj function =>
    match function.lookup "parameters", function.lookup "name" with
    | some (.obj parameters), some (.str toolName) =>
      let argumentAliases := (sanitizeParameters parameters).2
      if argumentAliases.entries ≠ [] ∧ toolName ≠ "" then
        toolArgumentAliases.set toolName argumentAliases
      else toolArgumentAliases
    | _, _ => toolArgumentAliases
  | _ => toolArgumentAliases

def aliasesJson (argumentAliases : Dict String String) : Json :=
  .obj (argumentAliases.entries.map fun entry => (entry.1, .str entry.2))

def sanitizeNimToolSchemas (body : Dict String Json) : Dict String Json :=
  match body.get? "tools" with
  | some (.arr tools) =>
    let toolArgumentAliases := tools.foldl addToolAliases .empty
    let body := body.set "tools" (.arr (tools.map sanitizeTool))
    if toolArgumentAliases.entries = [] then body.erase nimToolArgumentAliasesKey
    else body.set nimToolArgumentAliasesKey (.obj (toolArgumentAliases.entries.map
      fun entry => (entry.1, aliasesJson entry.2)))
  | _ => body

end Switchboard.Providers.NimSchemas
