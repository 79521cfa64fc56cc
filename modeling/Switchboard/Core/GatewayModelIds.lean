import Mathlib
import Switchboard.Library.Text

/-!
# Gateway model ids

A client finds each model under ids whose first part says how it shall reason.
-/

namespace Switchboard.Core

open Text

def gatewayModelIdPrefix : List Char := "anthropic".toList

def noThinkingGatewayModelIdPrefix : List Char := "claude-3-freecc-no-thinking".toList

def ultracodeGatewayModelIdPrefix : List Char := "claude-3-freecc-ultra".toList

structure DecodedGatewayModelId where
  providerId : List Char
  providerModel : List Char
  forceReasoningOff : Bool := false
  forceUltracode : Bool := false
deriving DecidableEq

def prefixedModelId (start providerModelRef : List Char) : List Char :=
  start ++ '/' :: providerModelRef

def gatewayModelId (providerModelRef : List Char) : List Char :=
  prefixedModelId gatewayModelIdPrefix providerModelRef

def noThinkingGatewayModelId (providerModelRef : List Char) : List Char :=
  prefixedModelId noThinkingGatewayModelIdPrefix providerModelRef

def ultraGatewayModelId (providerModelRef : List Char) : List Char :=
  prefixedModelId ultracodeGatewayModelIdPrefix providerModelRef

/-- What a first part forces: no reasoning, or the most of it. -/
def forcedReasoning (start : List Char) : Option (Bool × Bool) :=
  if start = gatewayModelIdPrefix then some (false, false)
  else if start = noThinkingGatewayModelIdPrefix then some (true, false)
  else if start = ultracodeGatewayModelIdPrefix then some (false, true)
  else none

def decodeGatewayModelId (modelName : List Char) : Option DecodedGatewayModelId :=
  match partitionAt '/' modelName with
  | none => none
  | some (start, remainder) =>
    match forcedReasoning start with
    | none => none
    | some (forceReasoningOff, forceUltracode) =>
      match partitionAt '/' remainder with
      | none => none
      | some (providerId, providerModel) =>
        if providerModel = [] then none
        else some {
          providerId := providerId
          providerModel := providerModel
          forceReasoningOff := forceReasoningOff
          forceUltracode := forceUltracode }

/-- The three first parts. -/
theorem forcedReasoning_cases {start : List Char} {forced : Bool × Bool}
    (h : forcedReasoning start = some forced) :
    start = gatewayModelIdPrefix ∨ start = noThinkingGatewayModelIdPrefix ∨
      start = ultracodeGatewayModelIdPrefix := by
  unfold forcedReasoning at h
  split_ifs at h with hplain hoff hultra
  · exact .inl hplain
  · exact .inr (.inl hoff)
  · exact .inr (.inr hultra)

theorem slash_notMem_of_forced {start : List Char} {forced : Bool × Bool}
    (h : forcedReasoning start = some forced) : '/' ∉ start := by
  rcases forcedReasoning_cases h with rfl | rfl | rfl <;> decide

/-- An encoded reference is decoded, unless it names no model. -/
theorem decode_prefixed {start providerId providerModel : List Char} {off ultra : Bool}
    (hforced : forcedReasoning start = some (off, ultra)) (hprovider : '/' ∉ providerId) :
    decodeGatewayModelId (prefixedModelId start (providerId ++ '/' :: providerModel)) =
      if providerModel = [] then none
      else some ⟨providerId, providerModel, off, ultra⟩ := by
  rw [decodeGatewayModelId, prefixedModelId,
    partitionAt_append _ (slash_notMem_of_forced hforced)]
  simp only [hforced, partitionAt_append _ hprovider]

/-- What is decoded was encoded. -/
theorem eq_prefixed_of_decode {modelName : List Char} {decoded : DecodedGatewayModelId}
    (h : decodeGatewayModelId modelName = some decoded) :
    ∃ start, forcedReasoning start = some (decoded.forceReasoningOff, decoded.forceUltracode) ∧
      modelName = prefixedModelId start (decoded.providerId ++ '/' :: decoded.providerModel) ∧
      '/' ∉ decoded.providerId ∧ decoded.providerModel ≠ [] := by
  unfold decodeGatewayModelId at h
  split at h
  · cases h
  · next start remainder hstart =>
    split at h
    · cases h
    · next off ultra hforced =>
      split at h
      · cases h
      · next providerId providerModel hremainder =>
        split_ifs at h with hempty
        cases h
        obtain ⟨rfl, -⟩ := partitionAt_eq_some.mp hstart
        obtain ⟨rfl, hprovider⟩ := partitionAt_eq_some.mp hremainder
        exact ⟨start, hforced, rfl, hprovider, hempty⟩

end Switchboard.Core
