import Mathlib
import Switchboard.Config.ModelAliases
import Switchboard.Core.GatewayModelIds

/-!
# The model router

A requested name is normalized, then an alias stands for its target. A target that names a
provider is taken as it is; other names are routed by the settings.
-/

namespace Switchboard.Application

open Text Config Switchboard.Core

/-- Names are compared by this instance throughout the module. -/
theorem lawfulBEqName : LawfulBEq (List Char) := inferInstance

attribute [local instance] lawfulBEqName

inductive ReasoningPreference where
  | inherit
  | off
  | client
  | low
  | medium
  | high
  | xhigh
  | max
  | ultracode
deriving DecidableEq

/-- The setting or the rule that a route comes from. -/
inductive RouteSource where
  | modelAlias
  | requestModel
  | parentInherited
  | model
  | modelFable
  | modelOpus
  | modelHaiku
  | modelSonnet
deriving DecidableEq

structure ResolvedModel where
  originalModel : List Char
  providerId : List Char
  providerModel : List Char
  providerModelRef : List Char
  reasoningPreference : ReasoningPreference
  virtualContextWindow : Option ℕ
  routeSource : RouteSource
  aliasApplied : Bool
deriving DecidableEq

/-- One of `_ROUTE_SETTINGS` with its values. -/
structure RouteSetting where
  word : List Char
  model : Option (List Char)
  source : RouteSource
  reasoning : ReasoningPreference

structure Settings where
  model : List Char
  modelFable : Option (List Char) := none
  modelOpus : Option (List Char) := none
  modelSonnet : Option (List Char) := none
  modelHaiku : Option (List Char) := none
  reasoningPolicy : ReasoningPreference
  reasoningFable : ReasoningPreference := .inherit
  reasoningOpus : ReasoningPreference := .inherit
  reasoningSonnet : ReasoningPreference := .inherit
  reasoningHaiku : ReasoningPreference := .inherit
  modelAliases : List Char := []
  /-- The windows of `parse_model_context_windows`. -/
  modelContextWindows : Dict (List Char) ℕ := .empty
  subagentModelInherit : Bool := true
  /-- The ids of `provider_registry_for_settings`. -/
  providerCatalog : List (List Char)

/-- `configured_chat_model_refs` -/
def Settings.configuredChatModelRefs (settings : Settings) : List (List Char) :=
  ([some settings.model, settings.modelFable, settings.modelOpus, settings.modelSonnet,
    settings.modelHaiku].filterMap id).eraseDups

def Settings.routes (settings : Settings) : List RouteSetting :=
  [⟨"fable".toList, settings.modelFable, .modelFable, settings.reasoningFable⟩,
    ⟨"opus".toList, settings.modelOpus, .modelOpus, settings.reasoningOpus⟩,
    ⟨"haiku".toList, settings.modelHaiku, .modelHaiku, settings.reasoningHaiku⟩,
    ⟨"sonnet".toList, settings.modelSonnet, .modelSonnet, settings.reasoningSonnet⟩]

/-- Provider ids have lowercase letters, digits and underscores. -/
def isProviderId (providerId : List Char) : Bool :=
  providerId ≠ [] && providerId.all fun c => c.isLower || c.isDigit || c = '_'

/-- Settings that pass their validators. -/
structure AcceptedSettings (casefold : List Char → List Char) extends Settings where
  aliases : ModelAliasMap
  parsed : parseModelAliases casefold modelAliases = .ok aliases
  configured : ∀ modelRef ∈ toSettings.configuredChatModelRefs,
    '/' ∈ modelRef ∧ parseProviderType modelRef ∈ providerCatalog
  providerIds : ∀ providerId ∈ providerCatalog, isProviderId providerId = true
  rootPolicy : reasoningPolicy ≠ .inherit

section Router

variable {casefold : List Char → List Char} (lower : List Char → List Char)
  (settings : AcceptedSettings casefold)

/-- `_direct_provider_model` -/
def directProviderModel (modelName : List Char) : Option DecodedGatewayModelId :=
  match decodeGatewayModelId modelName with
  | some decoded => if decoded.providerId ∈ settings.providerCatalog then some decoded else none
  | none =>
    match partitionAt '/' modelName with
    | none => none
    | some (providerId, providerModel) =>
      if providerId ∈ settings.providerCatalog ∧ providerModel ≠ [] then
        some { providerId := providerId, providerModel := providerModel }
      else none

def matchedRoute (modelName : List Char) : Option RouteSetting :=
  settings.routes.find? fun route => route.word <:+: lower modelName

/-- `_resolve_model_ref_with_source` -/
def resolveModelRefWithSource (modelName : List Char) : List Char × RouteSource :=
  match matchedRoute lower settings modelName with
  | some route =>
    match route.model with
    | some model => (model, route.source)
    | none => (settings.model, .model)
  | none => (settings.model, .model)

def resolveReasoningPreference (modelName : List Char) (useRouteOverride : Bool) :
    ReasoningPreference :=
  match matchedRoute lower settings modelName with
  | some route =>
    if useRouteOverride ∧ route.reasoning ≠ .inherit then route.reasoning
    else settings.reasoningPolicy
  | none => settings.reasoningPolicy

/-- What the first part of a gateway id asks for. -/
def directPreference (forceReasoningOff forceUltracode : Bool) : ReasoningPreference :=
  if forceUltracode then .ultracode
  else if forceReasoningOff then .off
  else settings.reasoningPolicy

/-- `_resolve_from_parent` -/
def resolveFromParent (modelName : List Char) (parentRoute : ResolvedModel)
    (virtualContextWindow : Option ℕ) : ResolvedModel where
  originalModel := modelName
  providerId := parentRoute.providerId
  providerModel := parentRoute.providerModel
  providerModelRef := parentRoute.providerModelRef
  reasoningPreference := parentRoute.reasoningPreference
  virtualContextWindow := virtualContextWindow.or parentRoute.virtualContextWindow
  routeSource := .parentInherited
  aliasApplied := false

/-- The route of a name that names a provider. -/
def resolveDirect (modelName : List Char) (direct : DecodedGatewayModelId)
    (virtualContextWindow : Option ℕ) (aliasApplied : Bool) : ResolvedModel :=
  let providerModelRef := direct.providerId ++ '/' :: direct.providerModel
  { originalModel := modelName
    providerId := direct.providerId
    providerModel := direct.providerModel
    providerModelRef := providerModelRef
    reasoningPreference :=
      directPreference settings direct.forceReasoningOff direct.forceUltracode
    virtualContextWindow :=
      virtualContextWindow.or (settings.modelContextWindows.get? providerModelRef)
    routeSource := if aliasApplied then .modelAlias else .requestModel
    aliasApplied := aliasApplied }

/-- The route that the settings give to a name. -/
def resolveConfigured (modelName requestedModel : List Char) (virtualContextWindow : Option ℕ)
    (aliasApplied : Bool) : Except RoutingError ResolvedModel := do
  let (configuredRef, routeSource) := resolveModelRefWithSource lower settings requestedModel
  let configured ← normalizeModelRef configuredRef
  let providerModelRef := configured.modelRef
  let providerId := parseProviderType providerModelRef
  if providerId ∉ settings.providerCatalog then throw (RoutingError.unknownProvider providerId)
  let providerModel ← parseModelName providerModelRef
  return {
    originalModel := modelName
    providerId := providerId
    providerModel := providerModel
    providerModelRef := providerModelRef
    reasoningPreference := resolveReasoningPreference lower settings modelName
      (aliasApplied || !settings.subagentModelInherit)
    virtualContextWindow := (virtualContextWindow.or configured.virtualContextWindow).or
      (settings.modelContextWindows.get? providerModelRef)
    routeSource := routeSource
    aliasApplied := aliasApplied }

/-- `ModelRouter.resolve` -/
def resolve (modelName : List Char) (parentRoute : Option ResolvedModel) :
    Except RoutingError ResolvedModel := do
  let inbound ← normalizeModelRef modelName
  let aliasTarget := settings.aliases.resolveIfConfigured inbound.modelRef
  let aliasApplied := decide (aliasTarget ≠ inbound.modelRef)
  let target ← normalizeModelRef aliasTarget
  let virtualContextWindow := inbound.virtualContextWindow.or target.virtualContextWindow
  match directProviderModel settings target.modelRef, parentRoute with
  | some direct, _ =>
    return resolveDirect settings modelName direct virtualContextWindow aliasApplied
  | none, some parent =>
    if settings.subagentModelInherit && !aliasApplied then
      return resolveFromParent modelName parent virtualContextWindow
    else
      resolveConfigured lower settings modelName target.modelRef virtualContextWindow aliasApplied
  | none, none =>
    resolveConfigured lower settings modelName target.modelRef virtualContextWindow aliasApplied

/-! ## Direct routes -/

/-- A name is resolved, without a parent route, by what it names itself. -/
def Routes (modelName providerId providerModel : List Char) (preference : ReasoningPreference)
    (source : RouteSource) : Prop :=
  ∃ resolved, resolve lower settings modelName none = .ok resolved ∧
    resolved.providerId = providerId ∧ resolved.providerModel = providerModel ∧
      resolved.reasoningPreference = preference ∧ resolved.routeSource = source

theorem matchedRoute_source {modelName : List Char} {route : RouteSetting}
    (h : matchedRoute lower settings modelName = some route) :
    route.source ≠ .modelAlias ∧ route.source ≠ .requestModel := by
  have hmem := List.mem_of_find?_eq_some h
  simp only [Settings.routes, List.mem_cons, List.not_mem_nil, or_false] at hmem
  rcases hmem with rfl | rfl | rfl | rfl <;> simp

theorem resolveModelRefWithSource_source (modelName : List Char) :
    (resolveModelRefWithSource lower settings modelName).2 ≠ .modelAlias ∧
      (resolveModelRefWithSource lower settings modelName).2 ≠ .requestModel := by
  unfold resolveModelRefWithSource
  cases hroute : matchedRoute lower settings modelName with
  | none => simp
  | some route =>
    cases hmodel : route.model with
    | none => simp [hmodel]
    | some model => simpa [hmodel] using matchedRoute_source lower settings hroute

/-- A route that the settings give has another source. -/
theorem resolveConfigured_source {modelName requestedModel : List Char} {window : Option ℕ}
    {aliasApplied : Bool} {resolved : ResolvedModel}
    (h : resolveConfigured lower settings modelName requestedModel window aliasApplied =
      .ok resolved) :
    resolved.routeSource ≠ .modelAlias ∧ resolved.routeSource ≠ .requestModel := by
  unfold resolveConfigured at h
  obtain ⟨configured, -, h⟩ := bind_eq_ok.mp h
  have hsource := resolveModelRefWithSource_source lower settings requestedModel
  obtain ⟨-, h⟩ := guard_eq_ok.mp h
  obtain ⟨providerModel, -, h⟩ := bind_eq_ok.mp h
  cases h
  exact hsource

/-- A name is taken as it is where its target names a provider. -/
theorem routes_iff {modelName providerId providerModel : List Char}
    {preference : ReasoningPreference} {source : RouteSource}
    (hsource : source = .modelAlias ∨ source = .requestModel) :
    Routes lower settings modelName providerId providerModel preference source ↔
      ∃ inbound target direct, normalizeModelRef modelName = .ok inbound ∧
        normalizeModelRef (settings.aliases.resolveIfConfigured inbound.modelRef) = .ok target ∧
        directProviderModel settings target.modelRef = some direct ∧
        direct.providerId = providerId ∧ direct.providerModel = providerModel ∧
        directPreference settings direct.forceReasoningOff direct.forceUltracode = preference ∧
        source = if settings.aliases.resolveIfConfigured inbound.modelRef ≠ inbound.modelRef
          then .modelAlias else .requestModel := by
  constructor
  · rintro ⟨resolved, h, hprovider, hmodel, hpreference, hroute⟩
    unfold resolve at h
    obtain ⟨inbound, hinbound, h⟩ := bind_eq_ok.mp h
    obtain ⟨target, htarget, h⟩ := bind_eq_ok.mp h
    cases hdirect : directProviderModel settings target.modelRef with
    | some direct =>
      rw [hdirect] at h
      cases h
      exact ⟨inbound, target, direct, hinbound, htarget, hdirect, hprovider, hmodel, hpreference,
        by simpa [resolveDirect] using hroute.symm⟩
    | none =>
      rw [hdirect] at h
      have hother := resolveConfigured_source lower settings h
      rw [hroute] at hother
      rcases hsource with rfl | rfl
      · exact absurd rfl hother.1
      · exact absurd rfl hother.2
  · rintro ⟨inbound, target, direct, hinbound, htarget, hdirect, rfl, rfl, rfl, rfl⟩
    refine ⟨resolveDirect settings modelName direct
      (inbound.virtualContextWindow.or target.virtualContextWindow)
      (decide (settings.aliases.resolveIfConfigured inbound.modelRef ≠ inbound.modelRef)),
      ?_, rfl, rfl, rfl, by simp [resolveDirect]⟩
    unfold resolve
    refine bind_eq_ok.mpr ⟨inbound, hinbound, bind_eq_ok.mpr ⟨target, htarget, ?_⟩⟩
    rw [hdirect]
    rfl

theorem directProviderModel_catalog {modelName : List Char} {direct : DecodedGatewayModelId}
    (h : directProviderModel settings modelName = some direct) :
    direct.providerId ∈ settings.providerCatalog := by
  unfold directProviderModel at h
  split at h
  · split_ifs at h with hcatalog
    cases h
    exact hcatalog
  · split at h
    · cases h
    · split_ifs at h with hcatalog
      cases h
      exact hcatalog.1

/-! ## Gateway ids -/

omit settings in
/-- A gateway id is normalized in its reference. -/
theorem normalizeModelRef_prefixed {start modelRef : List Char} {forced : Bool × Bool}
    (hforced : forcedReasoning start = some forced) (hplain : BeginsPlain modelRef) :
    normalizeModelRef (prefixedModelId start modelRef) =
      (normalizeModelRef modelRef).map fun normalized =>
        { normalized with modelRef := prefixedModelId start normalized.modelRef } := by
  have hstart : BeginsPlain (start ++ ['/']) ∧ '\n' ∉ start ++ ['/'] := by
    rcases forcedReasoning_cases hforced with rfl | rfl | rfl
    · exact ⟨⟨⟨'a', _, rfl, by decide⟩, by decide⟩, by decide⟩
    · exact ⟨⟨⟨'c', _, rfl, by decide⟩, by decide⟩, by decide⟩
    · exact ⟨⟨⟨'c', _, rfl, by decide⟩, by decide⟩, by decide⟩
  have hsplit : ∀ rest, prefixedModelId start rest = start ++ ['/'] ++ rest := by
    intro rest
    simp [prefixedModelId]
  rw [hsplit, normalizeModelRef_append hstart.1 hstart.2 hplain]
  simp only [hsplit]

omit settings in
theorem slash_mem_prefixed (start modelRef : List Char) :
    '/' ∈ prefixedModelId start modelRef := by
  simp [prefixedModelId]

/-- What a gateway id of a plain reference names. -/
theorem directProviderModel_prefixed {start modelRef providerId modelName : List Char}
    {off ultra : Bool} (hforced : forcedReasoning start = some (off, ultra))
    (hpart : partitionAt '/' modelRef = some (providerId, modelName)) :
    directProviderModel settings (prefixedModelId start modelRef) =
      if modelName = [] then
        if start ∈ settings.providerCatalog then some ⟨start, modelRef, false, false⟩ else none
      else if providerId ∈ settings.providerCatalog then some ⟨providerId, modelName, off, ultra⟩
      else none := by
  obtain ⟨rfl, hprovider⟩ := partitionAt_eq_some.mp hpart
  rw [directProviderModel, decode_prefixed hforced hprovider]
  by_cases hempty : modelName = []
  · rw [if_pos hempty, if_pos hempty, prefixedModelId,
      partitionAt_append _ (slash_notMem_of_forced hforced)]
    simp
  · rw [if_neg hempty, if_neg hempty]

omit settings in
/-- A text keeps the number of its slashes when its end without a slash goes. -/
theorem count_slash_append {text tail : List Char} (h : '/' ∉ tail) :
    (text ++ tail).count '/' = text.count '/' := by
  rw [List.count_append, List.count_eq_zero.mpr h, Nat.add_zero]

/-- The gateway ids of a reference are resolved to what is listed, the reference or what becomes
of it, just where the two normalizations give that, with a model and a known provider. -/
theorem routes_prefixed_iff {start modelRef listed providerId modelName : List Char}
    {off ultra : Bool} (hforced : forcedReasoning start = some (off, ultra))
    (hplain : BeginsPlain modelRef)
    (hlisted : ∀ once twice, normalizeModelRef modelRef = .ok once →
      normalizeModelRef once.modelRef = .ok twice →
      ∃ tail, listed = twice.modelRef ++ tail ∧ '/' ∉ tail)
    (hpart : partitionAt '/' listed = some (providerId, modelName)) :
    Routes lower settings (prefixedModelId start modelRef) providerId modelName
        (directPreference settings off ultra) .requestModel ↔
      modelName ≠ [] ∧ providerId ∈ settings.providerCatalog ∧
        ∃ once twice, normalizeModelRef modelRef = .ok once ∧
          normalizeModelRef once.modelRef = .ok twice ∧ twice.modelRef = listed := by
  obtain ⟨hsplit, hprovider⟩ := partitionAt_eq_some.mp hpart
  have hresolves : ∀ text, settings.aliases.resolveIfConfigured (prefixedModelId start text) =
      prefixedModelId start text := by
    intro text
    rw [ModelAliasMap.resolveIfConfigured, if_pos (slash_mem_prefixed start text)]
  rw [routes_iff lower settings (.inr rfl), normalizeModelRef_prefixed hforced hplain]
  constructor
  · rintro ⟨inbound, target, direct, hinbound, htarget, hdirect, hid, hmodel, -, -⟩
    cases honce : normalizeModelRef modelRef with
    | error e =>
      rw [honce] at hinbound
      cases hinbound
    | ok once =>
      rw [honce] at hinbound
      cases hinbound
      obtain ⟨-, -, -, honcePlain⟩ := normalizeModelRef_ok hplain honce
      dsimp only at htarget
      rw [hresolves, normalizeModelRef_prefixed hforced honcePlain] at htarget
      cases htwice : normalizeModelRef once.modelRef with
      | error e =>
        rw [htwice] at htarget
        cases htarget
      | ok twice =>
        rw [htwice] at htarget
        cases htarget
        obtain ⟨-, -, -, htwicePlain⟩ := normalizeModelRef_ok honcePlain htwice
        obtain ⟨foundId, foundModel, hfound⟩ := partitionAt_of_mem htwicePlain.slash
        obtain ⟨htwiceSplit, hfoundId⟩ := partitionAt_eq_some.mp hfound
        rw [directProviderModel_prefixed settings hforced hfound] at hdirect
        split_ifs at hdirect with hempty hcatalog hcatalog
        · -- the first part of the id would be the provider: the listed text has a slash more
          cases hdirect
          obtain ⟨tail, htail, hnone⟩ := hlisted once twice honce htwice
          have hcount := congrArg (List.count '/') htail
          rw [count_slash_append hnone, hsplit, ← hid, ← hmodel] at hcount
          simp only [List.count_append, List.count_cons_self] at hcount
          omega
        · cases hdirect
          dsimp only at hid hmodel
          subst hid hmodel
          exact ⟨hempty, hcatalog, once, twice, rfl, htwice, by rw [htwiceSplit, hsplit]⟩
  · rintro ⟨hmodel, hcatalog, once, twice, honce, htwice, rfl⟩
    obtain ⟨-, -, -, honcePlain⟩ := normalizeModelRef_ok hplain honce
    refine ⟨{ once with modelRef := prefixedModelId start once.modelRef },
      { twice with modelRef := prefixedModelId start twice.modelRef },
      ⟨providerId, modelName, off, ultra⟩, by rw [honce]; rfl, ?_, ?_, rfl, rfl, rfl, ?_⟩
    · dsimp only
      rw [hresolves, normalizeModelRef_prefixed hforced honcePlain, htwice]
      rfl
    · rw [directProviderModel_prefixed settings hforced hpart, if_neg hmodel, if_pos hcatalog]
    · dsimp only
      rw [hresolves]
      simp

/-! ## Aliases -/

/-- The target of an alias stands for a reference: it is that reference and no gateway id, or a
gateway id of it that asks for the reasoning of the settings. -/
def StandsFor (target modelRef : List Char) : Prop :=
  target = modelRef ∧ decodeGatewayModelId modelRef = none ∨
    ∃ start off ultra, forcedReasoning start = some (off, ultra) ∧
      directPreference settings off ultra = settings.reasoningPolicy ∧
      target = prefixedModelId start modelRef

/-- What a text names, as a provider and a model. -/
theorem direct_standsFor {target modelRef providerId modelName : List Char}
    (hpart : partitionAt '/' modelRef = some (providerId, modelName)) :
    (∃ direct, directProviderModel settings target = some direct ∧
      direct.providerId = providerId ∧ direct.providerModel = modelName ∧
      directPreference settings direct.forceReasoningOff direct.forceUltracode =
        settings.reasoningPolicy) ↔
      modelName ≠ [] ∧ providerId ∈ settings.providerCatalog ∧
        StandsFor settings target modelRef := by
  obtain ⟨hsplit, hprovider⟩ := partitionAt_eq_some.mp hpart
  constructor
  · rintro ⟨direct, hdirect, rfl, rfl, hpreference⟩
    have hcatalog := directProviderModel_catalog settings hdirect
    unfold directProviderModel at hdirect
    split at hdirect
    · next decoded hdecoded =>
      split_ifs at hdirect
      cases hdirect
      obtain ⟨start, hforced, htarget, -, hmodel⟩ := eq_prefixed_of_decode hdecoded
      rw [← hsplit] at htarget
      exact ⟨hmodel, hcatalog, .inr ⟨start, _, _, hforced, hpreference, htarget⟩⟩
    · next hnone =>
      split at hdirect
      · cases hdirect
      · next foundId foundModel hfound =>
        split_ifs at hdirect with hnames
        cases hdirect
        obtain ⟨htarget, -⟩ := partitionAt_eq_some.mp hfound
        have hsame : target = modelRef := htarget.trans hsplit.symm
        exact ⟨hnames.2, hcatalog, .inl ⟨hsame, hsame ▸ hnone⟩⟩
  · rintro ⟨hmodel, hcatalog, ⟨rfl, hnone⟩ | ⟨start, off, ultra, hforced, hpreference, rfl⟩⟩
    · refine ⟨⟨providerId, modelName, false, false⟩, ?_, rfl, rfl, rfl⟩
      simp [directProviderModel, hnone, hpart, hcatalog, hmodel]
    · refine ⟨⟨providerId, modelName, off, ultra⟩, ?_, rfl, rfl, hpreference⟩
      rw [directProviderModel_prefixed settings hforced hpart, if_neg hmodel, if_pos hcatalog]

/-- An alias is resolved to a reference just where the name that it is normalized to is an alias
whose target stands for that reference, with a model and a known provider. -/
theorem routes_alias_iff {name modelRef providerId modelName : List Char} (hname : '/' ∉ name)
    (hpart : partitionAt '/' modelRef = some (providerId, modelName)) :
    Routes lower settings name providerId modelName settings.reasoningPolicy .modelAlias ↔
      modelName ≠ [] ∧ providerId ∈ settings.providerCatalog ∧
        ∃ inbound target normalized, normalizeModelRef name = .ok inbound ∧
          settings.aliases.get? inbound.modelRef = some target ∧
          normalizeModelRef target = .ok normalized ∧
          StandsFor settings normalized.modelRef modelRef := by
  have haliases := parseModelAliases_wellFormed casefold settings.parsed
  rw [routes_iff lower settings (.inl rfl)]
  constructor
  · rintro ⟨inbound, normalized, direct, hinbound, hnormalized, hdirect, hid, hmodel, hpreference,
      hsource⟩
    have hslash : '/' ∉ inbound.modelRef := fun h => hname (mem_of_mem_normalized hinbound h)
    have hresolves : settings.aliases.resolveIfConfigured inbound.modelRef =
        (settings.aliases.get? inbound.modelRef).getD inbound.modelRef := by
      rw [ModelAliasMap.resolveIfConfigured, if_neg hslash]
    cases htarget : settings.aliases.get? inbound.modelRef with
    | none => simp [hresolves, htarget] at hsource
    | some target =>
      rw [hresolves, htarget, Option.getD_some] at hnormalized
      obtain ⟨hfilled, hcatalog, hstands⟩ :=
        (direct_standsFor settings hpart).mp ⟨direct, hdirect, hid, hmodel, hpreference⟩
      exact ⟨hfilled, hcatalog, inbound, target, normalized, hinbound, htarget, hnormalized,
        hstands⟩
  · rintro ⟨hfilled, hcatalog, inbound, target, normalized, hinbound, htarget, hnormalized, hstands⟩
    have hslash : '/' ∉ inbound.modelRef := fun h => hname (mem_of_mem_normalized hinbound h)
    have hresolves : settings.aliases.resolveIfConfigured inbound.modelRef = target := by
      rw [ModelAliasMap.resolveIfConfigured, if_neg hslash, htarget, Option.getD_some]
    have happlied : target ≠ inbound.modelRef := fun h =>
      hslash (h ▸ (haliases _ _ htarget).2.slash)
    obtain ⟨direct, hdirect, hid, hmodel, hpreference⟩ :=
      (direct_standsFor settings hpart).mpr ⟨hfilled, hcatalog, hstands⟩
    refine ⟨inbound, normalized, direct, hinbound, ?_, hdirect, hid, hmodel, hpreference, ?_⟩
    · rw [hresolves]
      exact hnormalized
    · rw [hresolves, if_pos happlied]

end Router

end Switchboard.Application
