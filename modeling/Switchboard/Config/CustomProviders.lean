import Switchboard.Library.Json
import Switchboard.Library.Text
import Mathlib.Data.List.Sort

/-!
# Custom providers

The managed document of `config/custom_providers.py` and its updates. What the standard
library does with JSON texts, Unicode, URLs and addresses is a parameter.
-/

namespace Switchboard.Config

open Text

/-- `urlsplit`, with the URL that `urlunsplit` makes of it. -/
structure SplitResult where
  scheme : String
  hostname : Option String
  username : Option String
  password : Option String
  port : Option ℤ
  query : String
  fragment : String
  url : String

/-- An address of `ipaddress`. -/
structure IpAddress where
  isLoopback : Bool
  isPrivate : Bool

/-- Functions of the standard library. -/
structure TextCodec where
  jsonLoads : String → Except String Json
  jsonDumps : Json → String
  casefold : String → String
  /-- NFKC normalization, without what is not ASCII then. -/
  asciiNormalized : String → String
  /-- `urlsplit` and the port, if both are well formed. -/
  urlsplit : String → Option SplitResult
  ipAddress : String → Option IpAddress

def maxCustomProviders : ℕ := 8
def maxCustomProviderIdLength : ℕ := 40
def maxCustomProviderNameLength : ℕ := 120
def maxCustomModelIdLength : ℕ := 240
def maxCustomModels : ℕ := 128
def maxCustomConfigBytes : ℕ := 128 * 1024

def customProviderKeys : List String :=
  ["id", "display_name", "base_url", "api_key", "proxy", "local", "models", "enabled"]

structure CustomProviderDescriptor where
  providerId : String
  displayName : String
  baseUrl : String
  apiKey : String := ""
  proxy : String := ""
  isLocal : Bool := false
  modelIds : List String := []
  enabled : Bool := true
deriving DecidableEq, Repr

section Codec

variable (codec : TextCodec) (builtInProviderIds : List String)

/-! ## Entries -/

/-- Every run of other characters becomes one underscore. -/
def underscored : Bool → List Char → List Char
  | _, [] => []
  | inRun, c :: cs =>
    if c.isLower || c.isDigit then c :: underscored false cs
    else if inRun then underscored true cs
    else '_' :: underscored true cs

def sanitizeProviderId (value : Json) : Except String String :=
  match value with
  | .str value =>
    let folded := codec.casefold (codec.asciiNormalized value)
    let stripped := strip (· = '_') (String.ofList (underscored false folded.toList))
    let providerId := if stripped.toList.head?.any Char.isDigit then "custom_" ++ stripped
      else stripped
    if providerId = "" then .error "Custom provider id must contain a letter or number"
    else if maxCustomProviderIdLength < providerId.length then
      .error s!"Custom provider id must be at most {maxCustomProviderIdLength} characters"
    else .ok providerId
  | _ => .error "Custom provider id must be a string"

def stringValue (value : Json) (fieldName : String) : Except String String :=
  match value with
  | .str value => .ok (strip isSpace value)
  | _ => .error s!"Custom provider {fieldName} must be a string"

def splitUrl (providerId value fieldName : String) : Except String SplitResult :=
  match codec.urlsplit (strip isSpace value) with
  | none => .error s!"Custom provider {providerId} {fieldName} is malformed"
  | some parsed =>
    if parsed.scheme ∉ ["http", "https"] ∧ fieldName = "base_url" then
      .error s!"Custom provider {providerId} base_url must use http or https"
    else if parsed.hostname.getD "" = "" ∨ parsed.username ≠ none ∨ parsed.password ≠ none then
      .error s!"Custom provider {providerId} {fieldName} must not contain URL credentials"
    else if ∃ port ∈ parsed.port, ¬ (1 ≤ port ∧ port ≤ 65535) then
      .error s!"Custom provider {providerId} {fieldName} has an invalid port"
    else if parsed.query ≠ "" ∨ parsed.fragment ≠ "" then
      .error s!"Custom provider {providerId} {fieldName} must not contain query or fragment"
    else .ok parsed

def stripBrackets (host : String) : String := strip (fun c => c = '[' || c = ']') host

def isLoopbackHost (host : Option String) : Bool :=
  match host with
  | none => false
  | some host =>
    if host = "" then false
    else
      let normalized := codec.casefold (stripBrackets host)
      normalized = "localhost" || (codec.ipAddress normalized).any (·.isLoopback)

def isPrivateIp (host : Option String) : Bool :=
  match host with
  | none => false
  | some host => host ≠ "" && (codec.ipAddress (stripBrackets host)).any (·.isPrivate)

def isLocalEndpoint (url : String) : Bool :=
  let host := (codec.urlsplit url).bind (·.hostname)
  isLoopbackHost codec host || isPrivateIp codec host

def validatedBaseUrl (providerId : String) (value : Json) : Except String String :=
  match value with
  | .str value =>
    if strip isSpace value = "" then .error s!"Custom provider {providerId} needs a base_url"
    else do
      let parsed ← splitUrl codec providerId value "base_url"
      if parsed.scheme = "http" ∧ isLoopbackHost codec parsed.hostname = false then
        .error (s!"Custom provider {providerId} base_url must use HTTPS " ++
          "unless it is loopback HTTP")
      else .ok (rstrip (· = '/') parsed.url)
  | _ => .error s!"Custom provider {providerId} needs a base_url"

def validatedProxy (providerId : String) (value : Json) : Except String String :=
  match value with
  | .null => .ok ""
  | .str "" => .ok ""
  | .str value => do
    let parsed ← splitUrl codec providerId value "proxy"
    if parsed.scheme ∉ ["http", "https", "socks5", "socks5h"] then
      .error s!"Custom provider {providerId} proxy must use http, https, socks5, or socks5h"
    else .ok parsed.url
  | _ => .error s!"Custom provider {providerId} proxy must be a string"

/-- The texts of an array of strings. -/
def stringArray? : Json → Option (List String)
  | .arr items => items.mapM fun item => match item with
    | .str s => some s
    | _ => none
  | _ => none

/-- Explicit model ids: stripped, without empty ones and repetitions. -/
def modelIds (providerId : String) (models : List String) : Except String (List String) :=
  models.foldlM
    (fun ids model =>
      let modelId := strip isSpace model
      if modelId = "" then .ok ids
      else if maxCustomModelIdLength < modelId.length then
        .error s!"Custom provider {providerId} model id is too long"
      else .ok (if modelId ∈ ids then ids else ids ++ [modelId]))
    []

/-- The keys of an object. -/
def fieldNames : Json → List String
  | .obj fields => fields.map Prod.fst
  | _ => []

def boolField (entry : Json) (key : String) (default : Bool) : Option Bool :=
  match entry.get? key with
  | none => some default
  | some (.bool b) => some b
  | some _ => none

/-- `_parse_custom_provider_entry` -/
def parseCustomProviderEntry (entry : Json) : Except String CustomProviderDescriptor := do
  match entry with
  | .obj _ => pure ()
  | _ => .error "Each custom provider must be an object"
  let unknownKeys := (fieldNames entry).filter fun key => key ∉ customProviderKeys
  if unknownKeys ≠ [] then
    .error ("Unsupported custom provider fields: " ++
      ", ".intercalate (unknownKeys.insertionSort (· ≤ ·)))
  let providerId ← sanitizeProviderId codec (entry.getD "id")
  if providerId ∈ builtInProviderIds then
    .error s!"Custom provider id collides with built-in provider: {providerId}"
  let displayName ← match entry.getD "display_name" with
    | .str name => pure (strip isSpace name)
    | _ => pure ""
  if displayName = "" then .error s!"Custom provider {providerId} needs a display_name"
  if maxCustomProviderNameLength < displayName.length then
    .error s!"Custom provider {providerId} display_name is too long"
  let baseUrl ← validatedBaseUrl codec providerId (entry.getD "base_url")
  let apiKey ← stringValue ((entry.get? "api_key").getD (.str "")) "api_key"
  let proxy ← validatedProxy codec providerId ((entry.get? "proxy").getD (.str ""))
  match boolField entry "local" false with
  | none => .error s!"Custom provider {providerId} local must be a boolean"
  | some isLocal =>
    let endpointIsLocal := isLocalEndpoint codec baseUrl
    if endpointIsLocal ≠ isLocal then
      let classification := if endpointIsLocal then "local" else "remote"
      .error (s!"Custom provider {providerId} must set local=" ++
        (Json.bool endpointIsLocal).repr ++ s!" for its {classification} endpoint")
    if isLocal = false ∧ strip isSpace apiKey = "" then
      .error s!"Custom provider {providerId} requires an API key"
    match stringArray? ((entry.get? "models").getD (.arr [])) with
    | none => .error s!"Custom provider {providerId} models must be a string array"
    | some models =>
      let modelIds ← modelIds providerId models
      if maxCustomModels < modelIds.length then
        .error s!"Custom provider {providerId} has too many explicit model ids"
      match boolField entry "enabled" true with
      | none => .error s!"Custom provider {providerId} enabled must be a boolean"
      | some enabled =>
        .ok
          { providerId := providerId, displayName := displayName, baseUrl := baseUrl
            apiKey := apiKey, proxy := proxy, isLocal := isLocal, modelIds := modelIds
            enabled := enabled }

/-! ## Documents -/

def customProvidersEnv : String := "CUSTOM_PROVIDERS_JSON"

/-- `parse_custom_provider_json` -/
def parseCustomProviderJson (raw : String) : Except String (List CustomProviderDescriptor) :=
  if maxCustomConfigBytes < raw.utf8ByteSize then .error s!"{customProvidersEnv} is too large"
  else if strip isSpace raw = "" then .ok []
  else match codec.jsonLoads raw with
    | .error message => .error s!"{customProvidersEnv} is not valid JSON: {message}"
    | .ok document =>
      if fieldNames document ≠ ["providers"] then
        .error s!"{customProvidersEnv} must contain only a providers array"
      else match document.getD "providers" with
        | .arr entries =>
          if maxCustomProviders < entries.length then
            .error s!"At most {maxCustomProviders} custom providers are allowed"
          else entries.foldlM
            (fun descriptors entry => do
              let descriptor ← parseCustomProviderEntry codec builtInProviderIds entry
              if descriptor.providerId ∈ descriptors.map (·.providerId) then
                .error s!"Duplicate custom provider id: {descriptor.providerId}"
              else .ok (descriptors ++ [descriptor]))
            []
        | _ => .error s!"{customProvidersEnv}.providers must be an array"

def providerEntry (provider : CustomProviderDescriptor) : Json :=
  .obj
    [("id", .str provider.providerId), ("display_name", .str provider.displayName),
      ("base_url", .str provider.baseUrl), ("api_key", .str provider.apiKey),
      ("proxy", .str provider.proxy), ("local", .bool provider.isLocal),
      ("models", .arr (provider.modelIds.map .str)), ("enabled", .bool provider.enabled)]

/-- `serialize_custom_providers` -/
def serializeCustomProviders (providers : List CustomProviderDescriptor) : String :=
  let sorted := providers.insertionSort fun a b => a.providerId ≤ b.providerId
  codec.jsonDumps (.obj [("providers", .arr (sorted.map providerEntry))])

/-- `update_custom_provider_json` -/
def updateCustomProviderJson (raw : String) (values : Json) (existingProviderId : Option String) :
    Except String String := do
  let current ← parseCustomProviderJson codec builtInProviderIds raw
  let providerId ← match existingProviderId with
    | some existing => do
      let normalized ← sanitizeProviderId codec (.str existing)
      sanitizeProviderId codec (.str normalized)
    | none => sanitizeProviderId codec (values.getD "id")
  let old := current.find? fun item => item.providerId = providerId
  if existingProviderId ≠ none ∧ old = none then
    .error s!"Unknown custom provider: {providerId}"
  let value (name : String) (default : Json) : Json := (values.get? name).getD default
  let apiKey := match value "api_key" .null with
    | .null => .str ((old.map (·.apiKey)).getD "")
    | apiKey => apiKey
  let descriptor ← parseCustomProviderEntry codec builtInProviderIds (.obj
    [("id", .str providerId),
      ("display_name", value "display_name" (.str ((old.map (·.displayName)).getD ""))),
      ("base_url", value "base_url" (.str ((old.map (·.baseUrl)).getD ""))),
      ("api_key", apiKey),
      ("proxy", value "proxy" (.str ((old.map (·.proxy)).getD ""))),
      ("local", value "local" (.bool ((old.map (·.isLocal)).getD false))),
      ("models", value "models" (.arr (((old.map (·.modelIds)).getD []).map .str))),
      ("enabled", value "enabled" (.bool ((old.map (·.enabled)).getD true)))])
  if old = none ∧ descriptor.providerId ∈ current.map (·.providerId) then
    .error s!"Duplicate custom provider id: {descriptor.providerId}"
  let others := match old with
    | none => current
    | some old => current.filter fun item => item.providerId ≠ old.providerId
  .ok (serializeCustomProviders codec (others ++ [descriptor]))

/-- `remove_custom_provider_json` -/
def removeCustomProviderJson (raw providerId : String) : Except String String := do
  let normalizedId ← sanitizeProviderId codec (.str providerId)
  let current ← parseCustomProviderJson codec builtInProviderIds raw
  if normalizedId ∉ current.map (·.providerId) then
    .error s!"Unknown custom provider: {normalizedId}"
  .ok (serializeCustomProviders codec (current.filter fun item => item.providerId ≠ normalizedId))

end Codec

end Switchboard.Config
