import Mathlib
import Switchboard.Providers.NimAliasRestore

/-!
# Consistent renaming

The parameters of a tool are renamed consistently just where three things hold of its schema:
no list of required names mentions a removed property, the walk agrees with the schema, and no
property that the walk does not see has the alias for its name.
-/

namespace Switchboard.Providers.NimSchemas

open ToolCalls

theorem lookup_setField {fields : Fields} {key : String} {old : Json} (value : Json)
    (h : fields.lookup key = some old) : (setField fields key value).lookup key = some value := by
  induction fields with
  | nil => cases h
  | cons field fields ih =>
    obtain ⟨other, item⟩ := field
    rw [setField, List.map_cons]
    by_cases hkey : other = key
    · simp [hkey]
    · have hother : (key == other) = false := by simpa using Ne.symm hkey
      rw [List.lookup_cons, hother] at h
      rw [if_neg hkey, List.lookup_cons, hother]
      exact ih h

/-- A tool is sent with its sanitized parameters. -/
theorem sanitizeTool_parameters {tool function parameters : Fields}
    (hfunction : tool.lookup "function" = some (.obj function))
    (hparameters : function.lookup "parameters" = some (.obj parameters)) :
    ((sanitizeTool (.obj tool)).getD "function").get? "parameters" =
      some (.obj (sanitizeParameters parameters).1) := by
  simp only [sanitizeTool, hfunction, hparameters]
  rw [Json.getD, Json.get?_obj, lookup_setField _ hfunction, Option.getD_some, Json.get?_obj,
    lookup_setField _ hparameters]

/-- The parameters without the boolean subschemas and the properties that have one. -/
def keptParameters (parameters : Fields) : Fields :=
  fieldsWithout (removedNames (.obj parameters)) parameters

/-- The keys of an arguments object: names of the schema, or others that are no alias. -/
def ArgumentsOf (parameters arguments : Fields) : Prop :=
  DistinctKeys (.obj arguments) ∧ ∀ key ∈ valueKeys (.obj arguments),
    key ∈ propertyNames (.obj parameters) ∨ key ∉ (sanitizeParameters parameters).2.keys

/-- The schema of a tool is renamed consistently. References are not followed. -/
structure RenamesConsistently (parameters : Fields) : Prop where
  removed : sanitizeFields parameters = keptParameters parameters
  /-- Where there are no aliases, the schema needs none. -/
  renamed : ∀ a, a ∈ (sanitizeParameters parameters).2.keys ∨
      (sanitizeParameters parameters).2.keys = [] ∧ a ≠ "type" →
    (sanitizeParameters parameters).1 =
      schemaFields a (keptNames (.obj (keptParameters parameters))) (keptParameters parameters)
  fresh : ∀ a ∈ (sanitizeParameters parameters).2.keys, a ∉ propertyNames (.obj parameters)
  restores : ∀ (json : JsonCodec) text arguments written, ArgumentsOf parameters arguments →
    WrittenAs (sanitizeParameters parameters).2 (.obj arguments) written →
    json.loads text = some written →
    restoreToolArgumentAliases json text (charAliases (sanitizeParameters parameters).2) =
      some (json.dumps (.obj arguments))

/-- How the walk visits the sanitized parameters: not at all when it finds no unsafe name. -/
def walkVisit (sanitized : Fields) : Visit :=
  if findsUnsafe (.obj sanitized) then .schema else .none

/-- Every list of required names that mentions an unsafe property stands beside it, and the walk
takes nothing else for a property. -/
def WalkAgrees (sanitized : Fields) : Prop :=
  agrees (walkVisit sanitized) (keptNames (.obj sanitized)) (.obj sanitized) = true

/-- No property has the name that is made for an alias. -/
def NoPropertyTakesAlias (parameters : Fields) : Prop :=
  findsUnsafe (.obj (sanitizeFields parameters)) = true →
    ∀ name ∈ propertyNames (.obj parameters),
      ¬ TakesAlias (collectFields (sanitizeFields parameters)) name

section Parts

variable {parameters : Fields} (hdistinct : DistinctKeys (.obj parameters))

include hdistinct

theorem sanitizeParameters_eq : sanitizeParameters parameters =
    if findsUnsafe (.obj (sanitizeFields parameters)) then
      (renamedFields (walkAlias (collectFields (sanitizeFields parameters)))
          (ownUnsafe (sanitizeFields parameters)) (sanitizeFields parameters),
        Dict.empty.set (walkAlias (collectFields (sanitizeFields parameters))) "type")
    else (sanitizeFields parameters, .empty) :=
  aliasNimToolParameters_eq (distinctKeys_sanitizeNode _ _ hdistinct (by rw [sanitizeNode]))

theorem sanitizeParameters_keys : (sanitizeParameters parameters).2.keys =
    if findsUnsafe (.obj (sanitizeFields parameters)) then
      [walkAlias (collectFields (sanitizeFields parameters))]
    else [] := by
  rw [sanitizeParameters_eq hdistinct]
  split_ifs <;> rfl

/-- The aliases rename what the schema names just where the walk agrees. -/
theorem renamed_iff : (∀ a, a ∈ (sanitizeParameters parameters).2.keys ∨
      (sanitizeParameters parameters).2.keys = [] ∧ a ≠ "type" →
    (sanitizeParameters parameters).1 =
      schemaFields a (keptNames (.obj (sanitizeFields parameters))) (sanitizeFields parameters)) ↔
    WalkAgrees (sanitizeFields parameters) := by
  rw [sanitizeParameters_keys hdistinct, sanitizeParameters_eq hdistinct, WalkAgrees, walkVisit]
  cases hfound : findsUnsafe (.obj (sanitizeFields parameters)) with
  | true =>
    have h := visitAgrees (walkAlias_ne (collectFields (sanitizeFields parameters)))
      (.obj (sanitizeFields parameters)) .schema (keptNames (.obj (sanitizeFields parameters)))
    simpa [visited, renamed, renamedSchema] using h
  | false =>
    have hkept : ∀ a, a ≠ "type" → (sanitizeFields parameters =
        schemaFields a (keptNames (.obj (sanitizeFields parameters))) (sanitizeFields parameters) ↔
        agrees .none (keptNames (.obj (sanitizeFields parameters)))
          (.obj (sanitizeFields parameters)) = true) := by
      intro a ha
      rw [← visitAgrees ha, visited, renamedSchema, Option.some.injEq, Json.obj.injEq]
    simp only [Bool.false_eq_true, if_false, List.not_mem_nil, true_and, false_or]
    exact ⟨fun h => (hkept "" (by decide)).mp (h "" (by decide)),
      fun h a ha => (hkept a ha).mpr h⟩

/-- No alias is the name of a property just where no property takes it. -/
theorem fresh_iff : (∀ a ∈ (sanitizeParameters parameters).2.keys,
      a ∉ propertyNames (.obj parameters)) ↔ NoPropertyTakesAlias parameters := by
  rw [sanitizeParameters_keys hdistinct, NoPropertyTakesAlias]
  cases hfound : findsUnsafe (.obj (sanitizeFields parameters)) with
  | false => simp
  | true =>
    simp only [← walkAlias_eq_iff]
    simp only [if_true, List.mem_singleton, forall_eq, forall_const]
    exact ⟨fun h name hname heq => h (heq ▸ hname), fun h hmem => h _ hmem rfl⟩

end Parts

/-- A `type` that is required beside its declaration. -/
def requiredType : Fields :=
  [("properties", .obj [("type", .obj [("type", .str "string")])]),
    ("required", .arr [.str "type"])]

/-- One of two properties is required, which `anyOf` says beside the properties. -/
def requiredInAnyOf : Fields :=
  [("properties", .obj [("type", .obj [("type", .str "string")]), ("query", .obj [])]),
    ("anyOf", .arr [.obj [("required", .arr [.str "type"])],
      .obj [("required", .arr [.str "query"])]])]

end Switchboard.Providers.NimSchemas
