import Mathlib
import Switchboard.Application.ModelRouter

/-!
# The model catalogue

The ids that `/v1/models` lists, and what each of them is listed for. Labels are left out; the
capability fields of a model are copied from its info.
-/

namespace Switchboard.Api

open Text Config Switchboard.Core Application

structure ProviderModelInfo where
  modelId : List Char
  supportsThinking : Option Bool

structure ModelResponse where
  id : List Char
  info : Option ProviderModelInfo := none

/-- What the catalogue reads of the runtime. -/
structure RequestRuntime where
  cachedModelInfo : List Char → List Char → Option ProviderModelInfo
  /-- The discovered models, with their provider in the id. -/
  cachedPrefixedModelInfos : List ProviderModelInfo
  /-- `is_discovered_model_visible` for the settings. -/
  isDiscoveredModelVisible : List Char → List Char → Bool

def supportedClaudeModels : List ModelResponse :=
  [⟨"claude-fable-5".toList, none⟩, ⟨"claude-opus-4-20250514".toList, none⟩,
    ⟨"claude-sonnet-4-20250514".toList, none⟩, ⟨"claude-haiku-4-20250514".toList, none⟩,
    ⟨"claude-3-opus-20240229".toList, none⟩, ⟨"claude-3-5-sonnet-20241022".toList, none⟩,
    ⟨"claude-3-haiku-20240307".toList, none⟩, ⟨"claude-3-5-haiku-20241022".toList, none⟩]

def appendUniqueModel (models : List ModelResponse) (model : ModelResponse) :
    List ModelResponse :=
  if models.any fun other => other.id = model.id then models else models ++ [model]

def appendProviderModelVariants (models : List ModelResponse) (providerModelRef : List Char)
    (supportsThinking : Option Bool) (info : Option ProviderModelInfo) : List ModelResponse :=
  let models :=
    if supportsThinking = some false then models
    else appendUniqueModel
      (appendUniqueModel models ⟨gatewayModelId providerModelRef, info⟩)
      ⟨ultraGatewayModelId providerModelRef, info⟩
  appendUniqueModel models ⟨noThinkingGatewayModelId providerModelRef, info⟩

/-- `filter_cached_model_infos` -/
def filterCachedModelInfos (runtime : RequestRuntime) : List ProviderModelInfo :=
  runtime.cachedPrefixedModelInfos.filter fun info =>
    '/' ∉ info.modelId ||
      runtime.isDiscoveredModelVisible (parseProviderType info.modelId) info.modelId

/-- The cached info of a reference that has a slash. -/
def cachedInfo (runtime : RequestRuntime) (modelRef : List Char) : Option ProviderModelInfo :=
  (partitionAt '/' modelRef).bind fun parts => runtime.cachedModelInfo parts.1 parts.2

section Catalogue

variable {casefold : List Char → List Char} (lower : List Char → List Char)
  (settings : AcceptedSettings casefold) (runtime : RequestRuntime)

def configuredModels (models : List ModelResponse) : List ModelResponse :=
  settings.configuredChatModelRefs.foldl (fun models modelRef =>
    let info := cachedInfo runtime modelRef
    appendProviderModelVariants models modelRef (info.bind (·.supportsThinking)) info) models

def aliasModels (models : List ModelResponse) : List ModelResponse :=
  settings.aliases.entries.foldl (fun models entry =>
    appendUniqueModel models ⟨entry.1, cachedInfo runtime entry.2⟩) models

def discoveredModels (models : List ModelResponse) : List ModelResponse :=
  (filterCachedModelInfos runtime).foldl (fun models info =>
    appendProviderModelVariants models info.modelId info.supportsThinking (some info)) models

/-- The models of `build_models_list_response`. -/
def buildModelsListResponse : List ModelResponse :=
  supportedClaudeModels.foldl appendUniqueModel
    (discoveredModels runtime (aliasModels settings runtime (configuredModels settings runtime [])))

/-! ## What an id is listed for -/

/-- An id, the reference that it is listed for, and how that shall be resolved. -/
structure Listing where
  id : List Char
  modelRef : Except RoutingError (List Char)
  preference : ReasoningPreference
  source : RouteSource

/-- The variants of a reference. -/
def variantListings (providerModelRef : List Char) (supportsThinking : Option Bool)
    (modelRef : Except RoutingError (List Char)) : List Listing :=
  (if supportsThinking = some false then []
    else [⟨gatewayModelId providerModelRef, modelRef, settings.reasoningPolicy, .requestModel⟩,
      ⟨ultraGatewayModelId providerModelRef, modelRef, .ultracode, .requestModel⟩]) ++
    [⟨noThinkingGatewayModelId providerModelRef, modelRef, .off, .requestModel⟩]

/-- A configured reference or a target without its virtual context suffix, which is a directive
of the client and no part of a model. -/
def upstreamRef (modelRef : List Char) : Except RoutingError (List Char) :=
  (normalizeModelRef modelRef).map (·.modelRef)

/-- The listings for configured references, aliases and discovered models. -/
def listings : List Listing :=
  settings.configuredChatModelRefs.flatMap (fun modelRef => variantListings settings modelRef
    ((cachedInfo runtime modelRef).bind (·.supportsThinking)) (upstreamRef modelRef)) ++
  settings.aliases.entries.map (fun entry =>
    ⟨entry.1, upstreamRef entry.2, settings.reasoningPolicy, .modelAlias⟩) ++
  (filterCachedModelInfos runtime).flatMap fun info =>
    variantListings settings info.modelId info.supportsThinking (.ok info.modelId)

/-- A listed id is resolved to the provider and the model of its reference. -/
def Listing.Routed (listing : Listing) : Prop :=
  ∃ modelRef providerId modelName, listing.modelRef = .ok modelRef ∧
    partitionAt '/' modelRef = some (providerId, modelName) ∧
    Routes lower settings listing.id providerId modelName listing.preference listing.source

/-- All advertised models are routable: each id of the response, for all that it is listed for. -/
def AdvertisedRoutable : Prop :=
  ∀ model ∈ buildModelsListResponse settings runtime, ∀ listing ∈ listings settings runtime,
    listing.id = model.id → listing.Routed lower settings

/-! ## The listed ids -/

def ids (models : List ModelResponse) : List (List Char) := models.map (·.id)

theorem mem_ids_append (models : List ModelResponse) (model : ModelResponse) (id : List Char) :
    id ∈ ids (appendUniqueModel models model) ↔ id ∈ ids models ∨ id = model.id := by
  unfold appendUniqueModel
  split_ifs with hseen
  · obtain ⟨other, hother, heq⟩ := List.any_eq_true.mp hseen
    refine ⟨.inl, fun h => h.elim (fun h => h) ?_⟩
    rintro rfl
    exact List.mem_map.mpr ⟨other, hother, of_decide_eq_true heq⟩
  · simp [ids, List.map_append]

/-- A loop that appends models lists the ids that each round appends. -/
theorem mem_ids_foldl {α : Type} {step : List ModelResponse → α → List ModelResponse}
    {listed : α → List (List Char)}
    (hstep : ∀ models a id, id ∈ ids (step models a) ↔ id ∈ ids models ∨ id ∈ listed a)
    (l : List α) (models : List ModelResponse) (id : List Char) :
    id ∈ ids (l.foldl step models) ↔ id ∈ ids models ∨ id ∈ l.flatMap listed := by
  induction l generalizing models with
  | nil => simp
  | cons a l ih => rw [List.foldl_cons, ih, hstep, List.flatMap_cons, List.mem_append, or_assoc]

theorem mem_ids_variants (models : List ModelResponse) (providerModelRef : List Char)
    (supportsThinking : Option Bool) (info : Option ProviderModelInfo)
    (modelRef : Except RoutingError (List Char)) (id : List Char) :
    id ∈ ids (appendProviderModelVariants models providerModelRef supportsThinking info) ↔
      id ∈ ids models ∨
        id ∈ (variantListings settings providerModelRef supportsThinking modelRef).map (·.id) := by
  unfold appendProviderModelVariants variantListings
  by_cases hthinking : supportsThinking = some false
  · simp [hthinking, mem_ids_append]
  · simp [hthinking, mem_ids_append, or_assoc]

theorem mem_ids_configured (models : List ModelResponse) (id : List Char) :
    id ∈ ids (configuredModels settings runtime models) ↔ id ∈ ids models ∨
      id ∈ settings.configuredChatModelRefs.flatMap fun modelRef => (variantListings settings
        modelRef ((cachedInfo runtime modelRef).bind (·.supportsThinking))
        (upstreamRef modelRef)).map (·.id) :=
  mem_ids_foldl (fun models modelRef id => mem_ids_variants settings models modelRef
    ((cachedInfo runtime modelRef).bind (·.supportsThinking)) (cachedInfo runtime modelRef)
    (upstreamRef modelRef) id) _ _ _

theorem mem_ids_aliases (models : List ModelResponse) (id : List Char) :
    id ∈ ids (aliasModels settings runtime models) ↔ id ∈ ids models ∨
      id ∈ settings.aliases.keys := by
  rw [Dict.keys, List.map_eq_flatMap]
  exact mem_ids_foldl (fun models entry id => by rw [mem_ids_append, List.mem_singleton]) _ _ _

theorem mem_ids_discovered (models : List ModelResponse) (id : List Char) :
    id ∈ ids (discoveredModels runtime models) ↔ id ∈ ids models ∨
      id ∈ (filterCachedModelInfos runtime).flatMap fun info => (variantListings settings
        info.modelId info.supportsThinking (.ok info.modelId)).map (·.id) :=
  mem_ids_foldl (fun models info id => mem_ids_variants settings models info.modelId
    info.supportsThinking (some info) (.ok info.modelId) id) _ _ _

/-- The response has the listed ids and those of the Claude models. -/
theorem mem_ids_response (id : List Char) : id ∈ ids (buildModelsListResponse settings runtime) ↔
    id ∈ (listings settings runtime).map (·.id) ∨ id ∈ ids supportedClaudeModels := by
  have hsupported : id ∈ ids (buildModelsListResponse settings runtime) ↔
      id ∈ ids (discoveredModels runtime
        (aliasModels settings runtime (configuredModels settings runtime []))) ∨
      id ∈ ids supportedClaudeModels := by
    rw [ids, ids, ids, List.map_eq_flatMap (l := supportedClaudeModels)]
    exact mem_ids_foldl (fun models model id => by rw [mem_ids_append, List.mem_singleton]) _ _ _
  rw [hsupported, mem_ids_discovered settings, mem_ids_aliases, mem_ids_configured]
  simp only [ids, listings, List.map_append, List.map_flatMap, List.map_map, List.mem_append,
    List.map_nil, List.not_mem_nil, false_or, Function.comp_def, Dict.keys]

/-! ## When they are routable -/

/-- A reference has no whitespace at its ends and no virtual context suffix. -/
def IsNormal (modelRef : List Char) : Prop :=
  ∃ normalized, normalizeModelRef modelRef = .ok normalized ∧ normalized.modelRef = modelRef

/-- A normal reference of a known provider that names a model. -/
def Routable (modelRef : List Char) : Prop :=
  ∃ providerId modelName, partitionAt '/' modelRef = some (providerId, modelName) ∧
    modelName ≠ [] ∧ providerId ∈ settings.providerCatalog ∧ IsNormal modelRef

/-- The name of an alias is normalized to an alias whose target stands for that of the first. -/
def AliasRoutable (name target : List Char) : Prop :=
  ∃ modelRef providerId modelName, upstreamRef target = .ok modelRef ∧
    partitionAt '/' modelRef = some (providerId, modelName) ∧ modelName ≠ [] ∧
    providerId ∈ settings.providerCatalog ∧
    ∃ inbound other normalized, normalizeModelRef name = .ok inbound ∧
      settings.aliases.get? inbound.modelRef = some other ∧
      normalizeModelRef other = .ok normalized ∧ StandsFor settings normalized.modelRef modelRef

/-- The names of a configuration and of its discovered models lead where they say. -/
structure RoutableNames : Prop where
  configured : ∀ modelRef ∈ settings.configuredChatModelRefs,
    ∃ upstream, upstreamRef modelRef = .ok upstream ∧ Routable settings upstream
  aliases : ∀ name target, settings.aliases.get? name = some target →
    AliasRoutable settings name target
  discovered : ∀ info ∈ filterCachedModelInfos runtime, Routable settings info.modelId

theorem not_isSpace_of_idChar {c : Char}
    (h : (c.isLower || c.isDigit || decide (c = '_')) = true) : isSpace c = false := by
  have hrange : 48 ≤ c.toNat ∧ c.toNat ≤ 122 := by
    simp only [Char.isLower, Char.isDigit, Bool.or_eq_true, Bool.and_eq_true, decide_eq_true_eq,
      UInt32.le_iff_toNat_le] at h
    rcases h with (h | h) | rfl
    · exact ⟨le_trans (by decide) h.1, le_trans h.2 (by decide)⟩
    · exact ⟨le_trans (by decide) h.1, le_trans h.2 (by decide)⟩
    · decide
  simp only [isSpace, Bool.or_eq_false_iff, Bool.and_eq_false_iff, decide_eq_false_iff_not]
  omega

theorem plain_of_provider {modelRef providerId modelName : List Char}
    (hpart : partitionAt '/' modelRef = some (providerId, modelName))
    (hcatalog : providerId ∈ settings.providerCatalog) : BeginsPlain modelRef := by
  obtain ⟨rfl, -⟩ := partitionAt_eq_some.mp hpart
  have hid := settings.providerIds providerId hcatalog
  cases providerId with
  | nil => simp [isProviderId] at hid
  | cons c rest =>
    refine ⟨⟨c, rest ++ '/' :: modelName, rfl, ?_⟩, by simp⟩
    simp only [isProviderId, List.all_cons, Bool.and_eq_true] at hid
    exact not_isSpace_of_idChar hid.2.1

/-- Two normalizations give the listed reference, which names a model of a known provider. -/
def Reaches (providerModelRef modelRef : List Char) : Prop :=
  ∃ providerId modelName, partitionAt '/' modelRef = some (providerId, modelName) ∧
    modelName ≠ [] ∧ providerId ∈ settings.providerCatalog ∧
    ∃ once twice, normalizeModelRef providerModelRef = .ok once ∧
      normalizeModelRef once.modelRef = .ok twice ∧ twice.modelRef = modelRef

theorem prefixed_routed_iff {start providerModelRef modelRef : List Char} {off ultra : Bool}
    (hforced : forcedReasoning start = some (off, ultra)) (hplain : BeginsPlain providerModelRef)
    (hlisted : ∀ once twice, normalizeModelRef providerModelRef = .ok once →
      normalizeModelRef once.modelRef = .ok twice →
      ∃ tail, modelRef = twice.modelRef ++ tail ∧ '/' ∉ tail) :
    Listing.Routed lower settings ⟨prefixedModelId start providerModelRef, .ok modelRef,
      directPreference settings off ultra, .requestModel⟩ ↔
      Reaches settings providerModelRef modelRef := by
  constructor
  · rintro ⟨_, providerId, modelName, ⟨⟩, hpart, hroute⟩
    rw [routes_prefixed_iff lower settings hforced hplain hlisted hpart] at hroute
    exact ⟨providerId, modelName, hpart, hroute⟩
  · rintro ⟨providerId, modelName, hpart, hroute⟩
    rw [← routes_prefixed_iff lower settings hforced hplain hlisted hpart] at hroute
    exact ⟨modelRef, providerId, modelName, rfl, hpart, hroute⟩

/-- The variants of a reference are routed where one is. -/
theorem variants_routed_iff {providerModelRef modelRef : List Char}
    (supportsThinking : Option Bool) (hplain : BeginsPlain providerModelRef)
    (hlisted : ∀ once twice, normalizeModelRef providerModelRef = .ok once →
      normalizeModelRef once.modelRef = .ok twice →
      ∃ tail, modelRef = twice.modelRef ++ tail ∧ '/' ∉ tail) :
    (∀ listing ∈ variantListings settings providerModelRef supportsThinking (.ok modelRef),
      listing.Routed lower settings) ↔ Reaches settings providerModelRef modelRef := by
  have hforcedPlain : forcedReasoning gatewayModelIdPrefix = some (false, false) := by decide
  have hforcedOff : forcedReasoning noThinkingGatewayModelIdPrefix = some (true, false) := by
    decide
  have hforcedUltra : forcedReasoning ultracodeGatewayModelIdPrefix = some (false, true) := by
    decide
  have hplainIff := prefixed_routed_iff lower settings hforcedPlain hplain hlisted
  have hoffIff := prefixed_routed_iff lower settings hforcedOff hplain hlisted
  have hultraIff := prefixed_routed_iff lower settings hforcedUltra hplain hlisted
  simp only [directPreference, Bool.false_eq_true, if_false, if_true] at hplainIff hoffIff hultraIff
  rw [← gatewayModelId] at hplainIff
  rw [← noThinkingGatewayModelId] at hoffIff
  rw [← ultraGatewayModelId] at hultraIff
  unfold variantListings
  by_cases hthinking : supportsThinking = some false
  · simp [hthinking, hoffIff]
  · simp [hthinking, hplainIff, hoffIff, hultraIff]

/-- A configured reference is listed for what one normalization gives. -/
theorem reaches_upstream_iff {providerModelRef : List Char} {upstream : NormalizedModelRef}
    (hupstream : normalizeModelRef providerModelRef = .ok upstream) :
    Reaches settings providerModelRef upstream.modelRef ↔ Routable settings upstream.modelRef := by
  constructor
  · rintro ⟨providerId, modelName, hpart, hmodel, hcatalog, once, twice, honce, htwice, hsame⟩
    rw [hupstream] at honce
    cases honce
    exact ⟨providerId, modelName, hpart, hmodel, hcatalog, twice, htwice, hsame⟩
  · rintro ⟨providerId, modelName, hpart, hmodel, hcatalog, twice, htwice, hsame⟩
    exact ⟨providerId, modelName, hpart, hmodel, hcatalog, upstream, twice, hupstream, htwice,
      hsame⟩

/-- A discovered model is listed for itself. -/
theorem reaches_self_iff {modelRef : List Char} (hplain : BeginsPlain modelRef) :
    Reaches settings modelRef modelRef ↔ Routable settings modelRef := by
  constructor
  · rintro ⟨providerId, modelName, hpart, hmodel, hcatalog, once, twice, honce, htwice, hsame⟩
    refine ⟨providerId, modelName, hpart, hmodel, hcatalog, once, honce, ?_⟩
    obtain ⟨tail, hfirst, -, honcePlain⟩ := normalizeModelRef_ok hplain honce
    obtain ⟨rest, hsecond, -, -⟩ := normalizeModelRef_ok honcePlain htwice
    have hlength := congrArg List.length hfirst
    rw [hsecond, hsame, List.length_append, List.length_append] at hlength
    have hnil : rest = [] := List.eq_nil_of_length_eq_zero (by omega)
    rw [hsecond, hnil, hsame, List.append_nil]
  · rintro ⟨providerId, modelName, hpart, hmodel, hcatalog, normalized, hnormal, hsame⟩
    exact ⟨providerId, modelName, hpart, hmodel, hcatalog, normalized, normalized, hnormal,
      hsame.symm ▸ hnormal, hsame⟩

theorem configured_routed_iff {modelRef : List Char} (supportsThinking : Option Bool)
    (hmem : modelRef ∈ settings.configuredChatModelRefs) :
    (∀ listing ∈ variantListings settings modelRef supportsThinking (upstreamRef modelRef),
      listing.Routed lower settings) ↔
      ∃ upstream, upstreamRef modelRef = .ok upstream ∧ Routable settings upstream := by
  obtain ⟨hslash, hprovider⟩ := settings.configured modelRef hmem
  obtain ⟨providerId, modelName, hpart⟩ := partitionAt_of_mem hslash
  have hcatalog : providerId ∈ settings.providerCatalog := by
    obtain ⟨rfl, hnone⟩ := partitionAt_eq_some.mp hpart
    rwa [parseProviderType_append _ hnone] at hprovider
  have hplain := plain_of_provider settings hpart hcatalog
  cases hupstream : normalizeModelRef modelRef with
  | error e =>
    have herror : upstreamRef modelRef = .error e := by rw [upstreamRef, hupstream]; rfl
    rw [herror]
    constructor
    · intro h
      obtain ⟨_, _, _, ⟨⟩, -⟩ := h ⟨noThinkingGatewayModelId modelRef, .error e, .off,
        .requestModel⟩ (by simp [variantListings])
    · rintro ⟨_, ⟨⟩, -⟩
  | ok upstream =>
    have hok : upstreamRef modelRef = .ok upstream.modelRef := by rw [upstreamRef, hupstream]; rfl
    rw [hok, variants_routed_iff lower settings supportsThinking hplain,
      reaches_upstream_iff settings hupstream]
    · simp
    · intro once twice honce htwice
      rw [hupstream] at honce
      cases honce
      obtain ⟨-, -, -, honcePlain⟩ := normalizeModelRef_ok hplain hupstream
      obtain ⟨tail, htail, hnone, -⟩ := normalizeModelRef_ok honcePlain htwice
      exact ⟨tail, htail, hnone⟩

theorem alias_routed_iff {name target : List Char}
    (hget : settings.aliases.get? name = some target) :
    Listing.Routed lower settings
      ⟨name, upstreamRef target, settings.reasoningPolicy, .modelAlias⟩ ↔
      AliasRoutable settings name target := by
  have hname := (parseModelAliases_wellFormed casefold settings.parsed name target hget).1
  constructor
  · rintro ⟨modelRef, providerId, modelName, hupstream, hpart, hroute⟩
    rw [routes_alias_iff lower settings hname hpart] at hroute
    exact ⟨modelRef, providerId, modelName, hupstream, hpart, hroute⟩
  · rintro ⟨modelRef, providerId, modelName, hupstream, hpart, hroute⟩
    rw [← routes_alias_iff lower settings hname hpart] at hroute
    exact ⟨modelRef, providerId, modelName, hupstream, hpart, hroute⟩

theorem discovered_routed_iff (modelRef : List Char) (supportsThinking : Option Bool) :
    (∀ listing ∈ variantListings settings modelRef supportsThinking (.ok modelRef),
      listing.Routed lower settings) ↔ Routable settings modelRef := by
  by_cases hknown : ∃ providerId modelName,
      partitionAt '/' modelRef = some (providerId, modelName) ∧
        providerId ∈ settings.providerCatalog
  · obtain ⟨providerId, modelName, hpart, hcatalog⟩ := hknown
    have hplain := plain_of_provider settings hpart hcatalog
    rw [variants_routed_iff lower settings supportsThinking hplain,
      reaches_self_iff settings hplain]
    intro once twice honce htwice
    obtain ⟨tail, hfirst, hnone, honcePlain⟩ := normalizeModelRef_ok hplain honce
    obtain ⟨rest, hsecond, hrest, -⟩ := normalizeModelRef_ok honcePlain htwice
    refine ⟨rest ++ tail, by rw [← List.append_assoc, ← hsecond, ← hfirst], ?_⟩
    rw [List.mem_append]
    exact not_or.mpr ⟨hrest, hnone⟩
  · constructor
    · intro h
      obtain ⟨_, providerId, modelName, ⟨⟩, hpart, hroute⟩ := h
        ⟨noThinkingGatewayModelId modelRef, .ok modelRef, .off, .requestModel⟩
        (by simp [variantListings])
      obtain ⟨_, _, direct, -, -, hdirect, rfl, -⟩ :=
        (routes_iff lower settings (.inr rfl)).mp hroute
      exact absurd ⟨_, _, hpart, directProviderModel_catalog settings hdirect⟩ hknown
    · rintro ⟨providerId, modelName, hpart, -, hcatalog, -⟩
      exact absurd ⟨_, _, hpart, hcatalog⟩ hknown

theorem alias_listed {name target : List Char}
    (hget : settings.aliases.get? name = some target) :
    ⟨name, upstreamRef target, settings.reasoningPolicy, .modelAlias⟩ ∈
      listings settings runtime :=
  List.mem_append_left _ (List.mem_append_right _
    (List.mem_map.mpr ⟨(name, target), Dict.get?_eq_some.mp hget, rfl⟩))

/-- Every listing is in the response. -/
theorem advertisedRoutable_listings : AdvertisedRoutable lower settings runtime ↔
    ∀ listing ∈ listings settings runtime, listing.Routed lower settings := by
  constructor
  · intro h listing hlisting
    have hid : listing.id ∈ ids (buildModelsListResponse settings runtime) :=
      (mem_ids_response settings runtime _).mpr (.inl (List.mem_map_of_mem hlisting))
    obtain ⟨model, hmodel, hsame⟩ := List.mem_map.mp hid
    exact h model hmodel listing hlisting hsame.symm
  · exact fun h _ _ listing hlisting _ => h listing hlisting

/-- All advertised models are routable just where the names of the configuration and of the
discovered models lead where they say. -/
theorem advertisedRoutable_iff :
    AdvertisedRoutable lower settings runtime ↔ RoutableNames settings runtime := by
  rw [advertisedRoutable_listings]
  unfold listings
  rw [List.forall_mem_append, List.forall_mem_append, List.forall_mem_flatMap,
    List.forall_mem_map, List.forall_mem_flatMap]
  constructor
  · rintro ⟨⟨hconfigured, haliases⟩, hdiscovered⟩
    refine ⟨fun modelRef hmem => ?_, fun name target hget => ?_, fun info hmem => ?_⟩
    · exact (configured_routed_iff lower settings _ hmem).mp (hconfigured modelRef hmem)
    · exact (alias_routed_iff lower settings hget).mp
        (haliases (name, target) (Dict.get?_eq_some.mp hget))
    · exact (discovered_routed_iff lower settings _ _).mp (hdiscovered info hmem)
  · rintro ⟨hconfigured, haliases, hdiscovered⟩
    refine ⟨⟨fun modelRef hmem => ?_, fun entry hmem => ?_⟩, fun info hmem => ?_⟩
    · exact (configured_routed_iff lower settings _ hmem).mpr (hconfigured modelRef hmem)
    · have hget := Dict.get?_eq_some.mpr hmem
      exact (alias_routed_iff lower settings hget).mpr (haliases _ _ hget)
    · exact (discovered_routed_iff lower settings _ _).mpr (hdiscovered info hmem)

end Catalogue

def asciiFold (text : List Char) : List Char := text.map Char.toLower

/-- Settings with the alias `fast=unknown/x`; its provider is not checked. -/
def unknownTarget : AcceptedSettings asciiFold where
  model := "open_router/gpt".toList
  reasoningPolicy := .client
  modelAliases := "fast=unknown/x".toList
  providerCatalog := ["open_router".toList]
  aliases := ⟨[("fast".toList, "unknown/x".toList)], by simp⟩
  parsed := by decide
  configured := by decide
  providerIds := by decide
  rootPolicy := by decide

def noModels : RequestRuntime where
  cachedModelInfo _ _ := none
  cachedPrefixedModelInfos := []
  isDiscoveredModelVisible _ _ := true

/-- The alias is listed, but it is routed to the configured model. -/
theorem unknownTarget_not_routable :
    ¬ AdvertisedRoutable asciiFold unknownTarget noModels ∧
      Routes asciiFold unknownTarget "fast".toList "open_router".toList "gpt".toList .client
        .model := by
  constructor
  · rw [advertisedRoutable_listings]
    intro h
    have hget : unknownTarget.aliases.get? "fast".toList = some "unknown/x".toList := by decide
    have hrouted := h _ (alias_listed unknownTarget noModels hget)
    obtain ⟨modelRef, providerId, modelName, hupstream, hpart, hroute⟩ := hrouted
    have htarget : upstreamRef "unknown/x".toList = .ok "unknown/x".toList := by decide
    rw [htarget] at hupstream
    cases hupstream
    have hparts : partitionAt '/' "unknown/x".toList = some ("unknown".toList, "x".toList) := by
      decide
    rw [hparts] at hpart
    cases hpart
    obtain ⟨_, _, direct, -, -, hdirect, hid, -⟩ :=
      (routes_iff asciiFold unknownTarget (.inl rfl)).mp hroute
    have hcatalog := directProviderModel_catalog unknownTarget hdirect
    rw [hid] at hcatalog
    revert hcatalog
    decide
  · refine ⟨⟨"fast".toList, "open_router".toList, "gpt".toList, "open_router/gpt".toList, .client,
      none, .model, true⟩, ?_, rfl, rfl, rfl, rfl⟩
    decide +kernel

end Switchboard.Api
