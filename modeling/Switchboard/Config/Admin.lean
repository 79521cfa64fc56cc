import Switchboard.Config.CustomProviders
import Switchboard.Library.Dict

/-!
# Admin configuration

`config/admin`: the values in effect and where they come from, the preparation of an
update, and the managed file that it is committed to. Of the places a value can come from
only the managed file changes. The manifest, `python-dotenv` and the `Settings` model are
parameters.
-/

namespace Switchboard.Config

open Text

structure ConfigSectionSpec where
  sectionId : String
  label : String

structure ConfigFieldSpec where
  key : String
  sectionId : String
  /-- `field_input_key` -/
  inputKey : Option String
  default : String := ""
  secret : Bool := false
  restartRequired : Bool := false
  sessionSensitive : Bool := false

inductive SourceType where
  | default
  | template
  | repoEnv
  | managedEnv
  | explicitEnvFile
  | process
deriving DecidableEq, Repr

structure ValueEntry where
  value : String
  source : SourceType
deriving DecidableEq, Repr

/-- What the server is started with. `σ` stands for the `Settings`. -/
structure AdminEnvironment (σ : Type*) where
  sections : List ConfigSectionSpec
  fields : List ConfigFieldSpec
  template : Dict String String
  repoEnv : Dict String String
  explicitEnv : Dict String String
  processEnv : Dict String String
  dotenvValues : String → Dict String String
  /-- The `Settings` of keyword arguments. Its validators look at the managed file too. -/
  settings : Option String → List (String × String) → Except (List String) σ
  voiceNoteEnabled : σ → Bool
  whisperDevice : σ → String

/-- `PreparedAdminUpdate` -/
structure PreparedAdminUpdate (σ : Type*) where
  targetValues : Dict String String
  settings : Except (List String) σ
  pendingFields : List String

def maskedSecret : String := "********"

/-- `normalize_for_env` -/
def normalizeForEnv : Json → String
  | .null => ""
  | .bool b => if b then "true" else "false"
  | value => value.toStr

/-- `is_locked_source` -/
def isLockedSource (source : SourceType) : Bool :=
  source = .process || source = .explicitEnvFile

def isMaskedSecret : Json → Bool
  | .str s => s = maskedSecret
  | _ => false

namespace AdminEnvironment

variable {σ : Type*} (env : AdminEnvironment σ)

/-! ## Values -/

def fieldByKey (key : String) : Option ConfigFieldSpec :=
  env.fields.find? fun field => field.key = key

def setDefaults (values : Dict String String) : Dict String String :=
  env.fields.foldl
    (fun values field =>
      if values.contains field.key then values else values.set field.key field.default)
    values

/-- `template_values` -/
def templateValues : Dict String String := env.setDefaults env.template

/-- `dotenv_values_from_file` of the managed file. -/
def managedValues (managed : Option String) : Dict String String :=
  match managed with
  | none => ∅
  | some text => env.dotenvValues text

/-- An entry of `load_value_state`. -/
def loadValueState (managed : Option String) (key : String) : ValueEntry :=
  let template : ValueEntry := match env.templateValues.get? key with
    | some value => ⟨value, .template⟩
    | none => ⟨"", .default⟩
  [(SourceType.repoEnv, env.repoEnv), (.managedEnv, env.managedValues managed),
      (.explicitEnvFile, env.explicitEnv), (.process, env.processEnv)].foldl
    (fun entry layer => match layer.2.get? key with
      | some value => ⟨value, layer.1⟩
      | none => entry)
    template

/-! ## Preparation -/

/-- The values an update starts from: those of the managed file, or without one those
that nothing locks. -/
def seededValues (managed : Option String) : Dict String String :=
  let values := env.templateValues
  let managedValues := env.managedValues managed
  if managedValues.entries ≠ [] then
    managedValues.entries.foldl
      (fun values e => if values.contains e.1 then values.set e.1 e.2 else values) values
  else
    env.fields.foldl
      (fun values field =>
        let entry := env.loadValueState managed field.key
        if entry.source ∈ [.repoEnv, .template, .default] then values.set field.key entry.value
        else values)
      values

/-- Whether an update writes a key, and the field that it writes. -/
def writtenField (managed : Option String) (key : String) (value : Json) :
    Option ConfigFieldSpec :=
  match env.fieldByKey key with
  | none => none
  | some field =>
    if isLockedSource (env.loadValueState managed key).source then none
    else if field.secret ∧ isMaskedSecret value then none
    else some field

/-- `target_values_with_updates` -/
def targetValuesWithUpdates (managed : Option String) (updates : Dict String Json) :
    Dict String String :=
  env.setDefaults (updates.entries.foldl
    (fun values e => match env.writtenField managed e.1 e.2 with
      | none => values
      | some _ => values.set e.1 (normalizeForEnv e.2))
    (env.seededValues managed))

/-- `effective_values_for_validation` -/
def effectiveValuesForValidation (managed : Option String) (targetValues : Dict String String) :
    Dict String String :=
  env.fields.foldl
    (fun values field =>
      let entry := env.loadValueState managed field.key
      if isLockedSource entry.source then values.set field.key entry.value else values)
    targetValues

/-- `settings_from_values` -/
def settingsFromValues (managed : Option String) (values : Dict String String) :
    Except (List String) σ :=
  env.settings managed (env.fields.filterMap fun field =>
    field.inputKey.map fun inputKey => (inputKey, (values.get? field.key).getD ""))

/-- `_active_voice_credential` -/
def activeVoiceCredential (settings : σ) : Option String :=
  if env.voiceNoteEnabled settings = false then none
  else if env.whisperDevice settings = "nvidia_nim" then some "NVIDIA_NIM_API_KEY"
  else some "HUGGINGFACE_API_KEY"

/-- `changed_pending_fields` -/
def changedPendingFields (managed : Option String) (updates : Dict String Json) (settings : σ) :
    List String :=
  updates.entries.filterMap fun e => match env.writtenField managed e.1 e.2 with
    | none => none
    | some field =>
      if field.restartRequired = false ∧ field.sessionSensitive = false ∧
          env.activeVoiceCredential settings ≠ some e.1 then none
      else if normalizeForEnv e.2 = (env.loadValueState managed e.1).value then none
      else some e.1

/-- `prepare_admin_update` -/
def prepareAdminUpdate (managed : Option String) (updates : Dict String Json) :
    PreparedAdminUpdate σ :=
  let targetValues := env.targetValuesWithUpdates managed updates
  let settings := env.settingsFromValues managed
    (env.effectiveValuesForValidation managed targetValues)
  { targetValues := targetValues
    settings := settings
    pendingFields := match settings with
      | .ok settings => env.changedPendingFields managed updates settings
      | .error _ => [] }

/-! ## The managed file -/

def escapeEnvChar (c : Char) : List Char :=
  if c = '\\' then ['\\', '\\'] else if c = '"' then ['\\', '"'] else [c]

/-- `quote_env_value` -/
def quoteEnvValue (value : String) : String :=
  if value = "" then ""
  else if value.toList.any fun c => isSpace c || c ∈ ['"', '#', '=', '$'] then
    "\"" ++ String.ofList (value.toList.flatMap escapeEnvChar) ++ "\""
  else value

/-- `render_env_file` -/
def renderEnvFile (values : Dict String String) : String :=
  let header := ["# Managed by Free Claude Code /admin.", "# Edit in the server UI when possible.",
    ""]
  let lines := env.sections.flatMap fun spec =>
    let fields := env.fields.filter fun field => field.sectionId = spec.sectionId
    ["# " ++ spec.label] ++
      fields.map (fun field =>
        field.key ++ "=" ++ quoteEnvValue ((values.get? field.key).getD field.default)) ++
      [""]
  rstrip isSpace ("\n".intercalate (header ++ lines)) ++ "\n"

end AdminEnvironment

end Switchboard.Config
