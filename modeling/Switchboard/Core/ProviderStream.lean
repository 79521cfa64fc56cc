import Mathlib
import Switchboard.Core.ContinuationSuffix
import Switchboard.Core.StreamLedger
import Switchboard.Core.ToolNames
import Switchboard.Providers.UsageBuckets

/-!
# Responses events as an Anthropic stream

`ResponsesProviderStream` of `core/openai_responses/provider_stream.py`, with the checks that
`strict_provider_stream.py` puts before its methods. The events that a call returns are those that
it adds to the ledger's `sent`. A stream that raises is given up.
-/

namespace Switchboard.Core.ProviderStream

open AnthropicStream Recovery
open ToolNames (OpenAIToolNameCodec)
open Providers.Usage

structure ResponsesStreamFailure where
  message : String
  code : Option String := none
deriving DecidableEq

/-- What a call may raise; a tool index that the ledger does not know is a `KeyError`. -/
inductive Raised
  | failure (f : ResponsesStreamFailure)
  | keyError (toolIndex : ℕ)
deriving DecidableEq

/-- What the stream uses of other libraries. -/
structure Externals where
  /-- `json.loads`, where it does not raise -/
  loads : String → Option Json
  /-- the hex digest of a text -/
  sha256 : String → String
  estimateOutputTokens : AnthropicStreamLedger → ℤ

structure ToolState where
  toolIndex : ℕ
  callId : String
  name : String
  started : Bool := false
  receivedDelta : Bool := false
  stopped : Bool := false
  argumentParts : Option (List String) := none
  argumentsEmitted : Bool := false
  argumentsComplete : Bool := false
  validArguments : Bool := false

/-- The arguments that a call has so far. -/
def ToolState.arguments (state : ToolState) : String :=
  String.join (state.argumentParts.getD [])

def ToolState.begun (state : ToolState) : ToolState := { state with started := true }

/-- Final arguments are kept unless deltas came. -/
def ToolState.withArguments (state : ToolState) (arguments : String) : ToolState :=
  { state with
    argumentParts :=
      some (if state.receivedDelta then state.argumentParts.getD [] else [arguments])
    argumentsComplete := true }

def maxToolArgumentBytes : ℕ := 65536

def maxTokenIncompleteReasons : List String := ["max_output_tokens", "max_tokens"]

/-- The kind of a text, the item that it belongs to and its place there. -/
abbrev TextKey := String × String × ℕ

structure ResponsesProviderStream where
  ledger : AnthropicStreamLedger
  inputTokens : ℤ
  toolNames : OpenAIToolNameCodec
  reasoningOutputEnabled : Bool
  completed : Bool := false
  generatedOutput : Bool := false
  incompleteReason : Option String := none
  providerRefusal : Bool := false
  tools : Dict String ToolState := .empty
  toolItemsByCallId : Dict String String := .empty
  duplicateToolItemIds : Finset String := ∅
  encryptedReasoning : Dict String String := .empty
  outputItemIdsByIndex : Dict ℕ String := .empty
  reasoningTextByKey : Dict TextKey String := .empty
  outputTextByKey : Dict TextKey String := .empty
  refusalTextByKey : Dict TextKey String := .empty
  emittedOpaqueReasoning : Finset (String × String) := ∅

/-! ## Reading the payload -/

/-- `_string` -/
def string : Option Json → String
  | some (.str s) => s
  | _ => ""

/-- `_non_negative_integer` -/
def nonNegativeInteger : Option Json → Option ℕ
  | some (.int n) => if 0 ≤ n then some n.toNat else none
  | _ => none

/-- A value that is a text and not empty. -/
def nonEmpty : Option Json → Option String
  | some (.str s) => if s = "" then none else some s
  | _ => none

def dictField (data : Json) (key : String) : Option Json :=
  match data.get? key with
  | some (.obj fields) => some (.obj fields)
  | _ => none

def listField (data : Json) (key : String) : List Json :=
  match data.get? key with
  | some (.arr items) => items
  | _ => []

/-- `data.get("refusal", data.get("text"))` -/
def refusalField (data : Json) : Option Json := (data.get? "refusal").or (data.get? "text")

def contentIndex (data : Json) : ℕ := (nonNegativeInteger (data.get? "content_index")).getD 0

def reasoningIndex (data : Json) (summary : Bool) : ℕ :=
  (nonNegativeInteger (data.get? (if summary then "summary_index" else "content_index"))).getD 0

namespace ResponsesProviderStream

variable (s : ResponsesProviderStream)

def new (messageId model : String) (inputTokens : ℤ) (toolNames : OpenAIToolNameCodec)
    (reasoningOutputEnabled : Bool) : ResponsesProviderStream :=
  { ledger := { messageId := messageId, model := model, inputTokens := inputTokens }
    inputTokens := inputTokens, toolNames := toolNames
    reasoningOutputEnabled := reasoningOutputEnabled }

def start : ResponsesProviderStream := { s with ledger := s.ledger.messageStart }

def decodeName (name : Option Json) : String :=
  String.ofList (s.toolNames.decode (string name).toList)

def syntheticIdentity (outputIndex : ℕ) : String := "output:" ++ toString outputIndex

def outputIdentity (data : Json) : String :=
  let itemId := string (data.get? "item_id")
  let itemId := if itemId = "" then string (data.get? "id") else itemId
  if itemId = "" then
    match nonNegativeInteger (data.get? "output_index") with
    | some outputIndex =>
      (s.outputItemIdsByIndex.get? outputIndex).getD (syntheticIdentity outputIndex)
    | none => "response"
  else itemId

/-! ## Identities that become known -/

/-- One round of the loop over the entries of a store. -/
def rekeyEntry (previous current : String) (store : Dict TextKey String)
    (entry : TextKey × String) : Dict TextKey String :=
  if entry.1.2.1 = previous then
    let replacement := (entry.1.1, current, entry.1.2.2)
    (if store.contains replacement then store else store.set replacement entry.2).erase entry.1
  else store

def rekeyStore (previous current : String) (store : Dict TextKey String) : Dict TextKey String :=
  store.entries.foldl (rekeyEntry previous current) store

def rekeyEncrypted (previous current : String) (store : Dict String String) :
    Dict String String :=
  (match store.get? previous with
    | some encrypted => if store.contains current then store else store.set current encrypted
    | none => store).erase previous

def rekeyOutputIdentity (previous current : String) : ResponsesProviderStream :=
  if previous = current then s
  else
    { s with
      reasoningTextByKey := rekeyStore previous current s.reasoningTextByKey
      outputTextByKey := rekeyStore previous current s.outputTextByKey
      refusalTextByKey := rekeyStore previous current s.refusalTextByKey
      encryptedReasoning := rekeyEncrypted previous current s.encryptedReasoning
      emittedOpaqueReasoning := s.emittedOpaqueReasoning.image fun marker =>
        (if marker.1 = previous then current else marker.1, marker.2) }

/-- The identity that an output index has so far. -/
def previousIdentity (outputIndex : ℕ) : String :=
  match s.outputItemIdsByIndex.get? outputIndex with
  | some previous => if previous = "" then syntheticIdentity outputIndex else previous
  | none => syntheticIdentity outputIndex

def rememberOutputItem (itemId : String) : Option ℕ → ResponsesProviderStream
  | none => s
  | some outputIndex =>
    let previousIdentity := s.previousIdentity outputIndex
    let identity := if itemId = "" then previousIdentity else itemId
    let s := { s with outputItemIdsByIndex := s.outputItemIdsByIndex.set outputIndex identity }
    let s := if itemId ≠ "" && previousIdentity ≠ itemId then
        s.rekeyOutputIdentity previousIdentity itemId
      else s
    if itemId = "" then s.rekeyOutputIdentity "response" identity else s

/-! ## Text and reasoning -/

/-- The part of a text that was not sent yet; a final text that diverges is sent whole. -/
def emittedText (existing text : String) (final : Bool) : String :=
  if final then ((continuationSuffix existing.toList text.toList).map String.ofList).getD text
  else text

def storedText (existing text : String) (final : Bool) : String :=
  if final then text else existing ++ text

def reasoningKey (summary : Bool) (identity : String) (index : ℕ) : TextKey :=
  (if summary then "summary" else "text", identity, index)

/-- `_emit_reasoning_text` of the base class -/
def baseEmitReasoningText (text : String) (summary : Bool) (identity : String) (index : ℕ)
    (final : Bool) : ResponsesProviderStream :=
  let key := reasoningKey summary identity index
  let existing := (s.reasoningTextByKey.get? key).getD ""
  let emitted := emittedText existing text final
  let s := { s with
    reasoningTextByKey := s.reasoningTextByKey.set key (storedText existing text final) }
  if !s.reasoningOutputEnabled || emitted = "" then s
  else
    { s with
      ledger := s.ledger.ensureThinkingBlock.emitThinkingDelta emitted
      generatedOutput := true }

/-- The store of a kind of visible text. -/
def visibleStore (kind : String) : Dict TextKey String :=
  if kind = "refusal" then s.refusalTextByKey else s.outputTextByKey

/-- `_emit_visible_text` of the base class -/
def baseEmitVisibleText (text kind identity : String) (index : ℕ) (final : Bool) :
    ResponsesProviderStream :=
  let key := (kind, identity, index)
  let existing := ((s.visibleStore kind).get? key).getD ""
  let emitted := emittedText existing text final
  let store := (s.visibleStore kind).set key (storedText existing text final)
  let s := if kind = "refusal" then
      { s with refusalTextByKey := store, providerRefusal := true }
    else { s with outputTextByKey := store }
  if emitted = "" then s
  else
    { s with ledger := s.ledger.ensureTextBlock.emitTextDelta emitted, generatedOutput := true }

/-- What a final text adds to the text that was streamed, if it extends it. -/
def terminalContinuationSuffix (existing candidate : String) : Option String :=
  if candidate = "" then if existing = "" then some "" else none
  else if existing = "" then some candidate
  else if existing.toList.isPrefixOf candidate.toList then
    some (String.ofList (candidate.toList.drop existing.toList.length))
  else none

def diverged (what : String) : Raised :=
  .failure ⟨"OpenAI terminal " ++ what ++ " snapshot diverged from streamed content.",
    some "divergent_terminal_snapshot"⟩

def emitReasoningText (text : String) (summary : Bool) (identity : String) (index : ℕ)
    (final : Bool) : Except Raised ResponsesProviderStream :=
  let existing := (s.reasoningTextByKey.get? (reasoningKey summary identity index)).getD ""
  if final && (terminalContinuationSuffix existing text).isNone then .error (diverged "reasoning")
  else .ok (s.baseEmitReasoningText text summary identity index final)

def emitVisibleText (text kind identity : String) (index : ℕ) (final : Bool) :
    Except Raised ResponsesProviderStream :=
  let existing := ((s.visibleStore kind).get? (kind, identity, index)).getD ""
  if final && (terminalContinuationSuffix existing text).isNone then .error (diverged kind)
  else .ok (s.baseEmitVisibleText text kind identity index final)

/-- `_reasoning_delta` and `_reasoning_done`, for the field that holds the text. -/
def reasoningText (data : Json) (field : String) (summary final : Bool) :
    Except Raised ResponsesProviderStream :=
  match nonEmpty (data.get? field) with
  | some text =>
    s.emitReasoningText text summary (s.outputIdentity data) (reasoningIndex data summary) final
  | none => .ok s

def reasoningDelta (data : Json) (summary : Bool) : Except Raised ResponsesProviderStream :=
  s.reasoningText data "delta" summary false

def reasoningDone (data : Json) (summary : Bool) : Except Raised ResponsesProviderStream :=
  s.reasoningText data "text" summary true

def reasoningPart (data : Json) (final : Bool) : Except Raised ResponsesProviderStream :=
  let part := field data "part"
  match if hasType part "summary_text" then nonEmpty (part.get? "text") else none with
  | some text =>
    s.emitReasoningText text true (s.outputIdentity data) (reasoningIndex data true) final
  | none => .ok s

/-- `_text_delta`, `_refusal_delta`, `_text_done` and `_refusal_done`, for the text they have. -/
def visibleText (data : Json) (text : Option Json) (kind : String) (final : Bool) :
    Except Raised ResponsesProviderStream :=
  match nonEmpty text with
  | some text => s.emitVisibleText text kind (s.outputIdentity data) (contentIndex data) final
  | none => .ok s

def textDelta (data : Json) : Except Raised ResponsesProviderStream :=
  s.visibleText data (data.get? "delta") "text" false

def textDone (data : Json) : Except Raised ResponsesProviderStream :=
  s.visibleText data (data.get? "text") "text" true

def refusalDelta (data : Json) : Except Raised ResponsesProviderStream :=
  s.visibleText data (data.get? "delta") "refusal" false

def refusalDone (data : Json) : Except Raised ResponsesProviderStream :=
  s.visibleText data (refusalField data) "refusal" true

/-- The text of a part of a message, with its kind. -/
def partText (part : Json) : Option (String × String) :=
  if hasType part "output_text" then (nonEmpty (part.get? "text")).map (·, "text")
  else if hasType part "refusal" then (nonEmpty (refusalField part)).map (·, "refusal")
  else none

def contentPartDone (data : Json) : Except Raised ResponsesProviderStream :=
  match partText (field data "part") with
  | some (text, kind) =>
    s.emitVisibleText text kind (s.outputIdentity data) (contentIndex data) true
  | none => .ok s

def rememberOpaqueReasoning (itemId encrypted : String) : ResponsesProviderStream :=
  { s with encryptedReasoning := s.encryptedReasoning.set itemId encrypted }

/-- A block of redacted thinking, started and stopped. -/
def redactedBlock (ledger : AnthropicStreamLedger) (encrypted : String) : AnthropicStreamLedger :=
  let ledger := ledger.closeContentBlocks
  let index := ledger.blocks.nextIndex
  ({ ledger with blocks := { ledger.blocks with nextIndex := index + 1 } }.contentBlockStart
    index "redacted_thinking" [("data", .str encrypted)]).contentBlockStop index

variable (ext : Externals)

def emitOpaqueReasoning (itemId encrypted : String) : ResponsesProviderStream :=
  let marker := (itemId, ext.sha256 encrypted)
  if marker ∈ s.emittedOpaqueReasoning then s
  else
    let s := { s with emittedOpaqueReasoning := insert marker s.emittedOpaqueReasoning }
    if !s.reasoningOutputEnabled then s
    else { s with ledger := redactedBlock s.ledger encrypted, generatedOutput := true }

/-- A part of the content or the summary of a reasoning item. -/
def reasoningItemPart (partType : String) (summary : Bool) (identity : String)
    (s : ResponsesProviderStream) (entry : Json × ℕ) : Except Raised ResponsesProviderStream :=
  match if hasType entry.1 partType then nonEmpty (entry.1.get? "text") else none with
  | some text => s.emitReasoningText text summary identity entry.2 true
  | none => .ok s

/-- The opaque part of a reasoning item. -/
def reasoningItemOpaque (encrypted : Option String) (identity : String) (includeOpaque : Bool) :
    ResponsesProviderStream :=
  match encrypted with
  | some encrypted =>
    let s := s.rememberOpaqueReasoning identity encrypted
    if includeOpaque then s.emitOpaqueReasoning ext identity encrypted else s
  | none => s

/-- `_reasoning_item`, for an item of this type and its encrypted content. -/
def reasoningItem (item : Json) (encrypted : Option String) (identity : String)
    (includeOpaque : Bool) : Except Raised ResponsesProviderStream := do
  let s ← (listField item "content").zipIdx.foldlM
    (reasoningItemPart "reasoning_text" false identity) s
  let s ← (listField item "summary").zipIdx.foldlM
    (reasoningItemPart "summary_text" true identity) s
  return s.reasoningItemOpaque ext encrypted identity includeOpaque

/-- The parts of a message, with their places. -/
def messageParts (item : Json) : List (Json × ℕ) :=
  match item.get? "content" with
  | some (.str content) => [(.obj [("type", .str "output_text"), ("text", .str content)], 0)]
  | some (.arr content) => content.zipIdx
  | _ => []

def messagePart (identity : String) (s : ResponsesProviderStream) (entry : Json × ℕ) :
    Except Raised ResponsesProviderStream :=
  match partText entry.1 with
  | some (text, kind) => s.emitVisibleText text kind identity entry.2 true
  | none => .ok s

/-- The identity of an item at a place of the output. -/
def itemIdentity (itemId : String) (outputIndex : Option ℕ) : String :=
  s.outputIdentity <| .obj <| ("id", .str itemId) ::
    (outputIndex.map fun n => ("output_index", Json.int n)).toList

def messageItem (item : Json) (outputIndex : Option ℕ) : Except Raised ResponsesProviderStream :=
  (messageParts item).foldlM (messagePart (s.itemIdentity (string (item.get? "id")) outputIndex)) s

/-! ## Tool calls -/

def invalidArguments (message : String) : Raised :=
  .failure ⟨message, some "invalid_tool_arguments"⟩

def tooLarge : Raised :=
  .failure ⟨"OpenAI function-call arguments exceeded the safety limit.",
    some "tool_arguments_too_large"⟩

/-- The state of a call, or a new one for this call. -/
def toolState (itemId callId name : String) : ToolState :=
  (s.tools.get? itemId).getD
    { toolIndex := s.tools.entries.length, callId := callId, name := name }

def putTool (itemId : String) (state : ToolState) : ResponsesProviderStream :=
  { s with tools := s.tools.set itemId state }

def closeContentBlocks : ResponsesProviderStream :=
  { s with ledger := s.ledger.closeContentBlocks }

/-- The call that an added item names, with what an earlier delta left open. -/
def functionCallAdded (item : Json) (itemId : String) : ResponsesProviderStream :=
  let callId := string (item.get? "call_id")
  let callId := if callId = "" then itemId else callId
  let name := s.decodeName (item.get? "name")
  if (s.toolItemsByCallId.get? callId).any (· ≠ itemId) then
    { s with duplicateToolItemIds := insert itemId s.duplicateToolItemIds }
  else
    let s := { s with toolItemsByCallId := s.toolItemsByCallId.set callId itemId }
    let state := s.toolState itemId callId name
    s.putTool itemId
      { state with
        callId := if state.callId = itemId && callId ≠ itemId then callId else state.callId
        name := if state.name = "" && name ≠ "" then name else state.name }

/-- `_ensure_tool_started`; the state is `begun` then. -/
def ensureToolStarted (state : ToolState) : ResponsesProviderStream :=
  if state.started then s
  else
    { s with
      ledger := s.ledger.startToolBlock state.toolIndex state.callId.toList state.name.toList none
      generatedOutput := true }

def emitToolDelta (state : ToolState) (partialJson : String) :
    Except Raised ResponsesProviderStream :=
  match s.ledger.emitToolDelta state.toolIndex partialJson with
  | some ledger => .ok { s with ledger := ledger, generatedOutput := true }
  | none => .error (.keyError state.toolIndex)

/-- `stop_tool_block`, after which the ledger's state is not `started`. -/
def stopTool (state : ToolState) : Except Raised ResponsesProviderStream :=
  match s.ledger.stopToolBlock state.toolIndex with
  | some ledger => .ok { s with ledger := ledger.releaseTool state.toolIndex }
  | none => .error (.keyError state.toolIndex)

def validateToolArguments (state : ToolState) : Except Raised ToolState :=
  if state.arguments = "" then
    .error (invalidArguments "OpenAI function-call arguments were missing.")
  else
    match ext.loads state.arguments with
    | some (.obj _) => .ok { state with argumentsComplete := true, validArguments := true }
    | some _ =>
      .error (invalidArguments "OpenAI function-call arguments must be a JSON object.")
    | none => .error (invalidArguments "OpenAI function-call arguments were not valid JSON.")

/-- The arguments of a call, sent as a whole. -/
def emitArguments (state : ToolState) (arguments : String) :
    Except Raised (ResponsesProviderStream × ToolState) := do
  let s ← s.emitToolDelta state arguments
  return (s, { state with argumentParts := some [arguments], argumentsEmitted := true })

/-- What `_tool_delta` does for the call. -/
def toolDeltaState (state : ToolState) (delta : String) :
    Except Raised (ResponsesProviderStream × ToolState) :=
  let parts := state.argumentParts.getD []
  if delta ≠ "" &&
      maxToolArgumentBytes < (parts.map String.utf8ByteSize).sum + delta.utf8ByteSize then
    .error tooLarge
  else
    let s := s.closeContentBlocks.ensureToolStarted state
    let state := { state.begun with argumentParts := some parts }
    if delta = "" then .ok (s, state)
    else do
      let s ← s.emitToolDelta state delta
      return (s, { state with argumentParts := some (parts ++ [delta]), receivedDelta := true })

def toolDelta (data : Json) : Except Raised ResponsesProviderStream :=
  let itemId := string (data.get? "item_id")
  match data.get? "delta" with
  | some (.str delta) =>
    if itemId = "" || itemId ∈ s.duplicateToolItemIds then .ok s
    else do
      let made ← s.toolDeltaState (s.toolState itemId itemId "") delta
      return made.1.putTool itemId made.2
  | _ => .ok s

/-- Final arguments are sent unless they were before, or deltas came. -/
def sendArguments (state : ToolState) (arguments : String) :
    Except Raised (ResponsesProviderStream × ToolState) :=
  if state.argumentsEmitted then .ok (s, state)
  else
    let s := s.closeContentBlocks.ensureToolStarted state
    if arguments ≠ "" && !state.receivedDelta then s.emitArguments state.begun arguments
    else .ok (s, state.begun)

/-- What `_tool_arguments_done` does for the call. -/
def argumentsDoneState (state : ToolState) (arguments : String) :
    Except Raised (ResponsesProviderStream × ToolState) :=
  if maxToolArgumentBytes < arguments.utf8ByteSize then .error tooLarge
  else do
    let made ← s.sendArguments (state.withArguments arguments) arguments
    let state ← validateToolArguments ext made.2
    return (made.1, state)

def toolArgumentsDone (data : Json) : Except Raised ResponsesProviderStream :=
  let itemId := string (data.get? "item_id")
  match data.get? "arguments" with
  | some (.str arguments) =>
    if itemId = "" || itemId ∈ s.duplicateToolItemIds then .ok s
    else do
      let made ← s.argumentsDoneState ext (s.toolState itemId itemId "") arguments
      return made.1.putTool itemId made.2
  | _ => .ok s

/-- The arguments of an item, for a call that had none before. -/
def itemArguments (state : ToolState) (arguments : Option String) :
    Except Raised (ResponsesProviderStream × ToolState) :=
  match if state.receivedDelta || state.argumentsEmitted then none else arguments with
  | some arguments =>
    if maxToolArgumentBytes < arguments.utf8ByteSize then .error tooLarge
    else s.emitArguments state arguments
  | none => .ok (s, state)

/-- A call whose arguments are valid is stopped, once. -/
def stopCall (state : ToolState) : Except Raised (ResponsesProviderStream × ToolState) :=
  if state.stopped then .ok (s, state)
  else do
    let s ← s.stopTool state
    return (s, { state with stopped := true })

/-- What `_item_done` does for the call of an item. -/
def itemDoneState (state : ToolState) (arguments : Option String) :
    Except Raised (ResponsesProviderStream × ToolState) := do
  let made ← (s.closeContentBlocks.ensureToolStarted state).itemArguments state.begun arguments
  let state ← validateToolArguments ext made.2
  made.1.stopCall state

def functionCallDone (item : Json) (itemId : String) : Except Raised ResponsesProviderStream :=
  if itemId ∈ s.duplicateToolItemIds then .ok s
  else do
    let name := s.decodeName (item.get? "name")
    let callId := string (item.get? "call_id")
    let state := s.toolState itemId (if callId = "" then itemId else callId) name
    let state := { state with name := if state.name = "" then name else state.name }
    let made ← s.itemDoneState ext state (nonEmpty (item.get? "arguments"))
    return made.1.putTool itemId made.2

/-! ## Items -/

/-- The identity of a reasoning item that may have no id. -/
def reasoningIdentity (data : Json) (itemId : String) : String :=
  if itemId = "" then s.outputIdentity data else itemId

def itemAdded (data : Json) : Except Raised ResponsesProviderStream :=
  match dictField data "item" with
  | none => .ok s
  | some item =>
    let itemId := string (item.get? "id")
    let s := s.rememberOutputItem itemId (nonNegativeInteger (data.get? "output_index"))
    if hasType item "function_call" && itemId ≠ "" then .ok (s.functionCallAdded item itemId)
    else if hasType item "reasoning" then
      s.reasoningItem ext item (nonEmpty (item.get? "encrypted_content"))
        (s.reasoningIdentity data itemId) false
    else .ok s

def itemDone (data : Json) : Except Raised ResponsesProviderStream :=
  match dictField data "item" with
  | none => .ok s
  | some item =>
    let itemId := string (item.get? "id")
    let outputIndex := nonNegativeInteger (data.get? "output_index")
    let s := s.rememberOutputItem itemId outputIndex
    if hasType item "function_call" then s.functionCallDone ext item itemId
    else if hasType item "reasoning" then
      let identity := s.reasoningIdentity data itemId
      let encrypted := (nonEmpty (item.get? "encrypted_content")).or
        ((s.encryptedReasoning.get? identity).filter (· ≠ ""))
      s.reasoningItem ext item encrypted identity true
    else if hasType item "message" then s.messageItem item outputIndex
    else .ok s

/-- One round of the loop of `_capture_response_output`. -/
def captureItem (s : ResponsesProviderStream) (entry : Json × ℕ) :
    Except Raised ResponsesProviderStream :=
  match entry.1 with
  | .obj fields =>
    let item := Json.obj fields
    let itemId := string (item.get? "id")
    let s := s.rememberOutputItem itemId (some entry.2)
    if hasType item "reasoning" then
      s.reasoningItem ext item (nonEmpty (item.get? "encrypted_content"))
        (s.itemIdentity itemId (some entry.2)) true
    else if hasType item "message" then s.messageItem item (some entry.2)
    else .ok s
  | _ => .ok s

def captureResponseOutput (response : Json) : Except Raised ResponsesProviderStream :=
  (listField response "output").zipIdx.foldlM (captureItem ext) s

/-! ## The end of a response -/

/-- `_terminal_stop_reason` of the base class -/
def baseTerminalStopReason (incomplete : Bool) : String :=
  if s.providerRefusal then "end_turn"
  else if incomplete && s.incompleteReason.any maxTokenIncompleteReasons.contains then "max_tokens"
  else "end_turn"

def terminalStopReason (incomplete : Bool) : Except Raised String :=
  if incomplete && !s.providerRefusal &&
      !s.incompleteReason.any maxTokenIncompleteReasons.contains then
    let reason := (s.incompleteReason.filter (· ≠ "")).getD "unknown"
    .error <| .failure
      ⟨"OpenAI response was incomplete for a reason that cannot be mapped " ++
        "safely to Anthropic stop semantics: " ++ reason ++ ".", some "incomplete_response"⟩
  else .ok (s.baseTerminalStopReason incomplete)

/-- One round of the loop of `_finish` over the calls. -/
def finishTool (s : ResponsesProviderStream) (entry : String × ToolState) :
    Except Raised ResponsesProviderStream := do
  let state ← validateToolArguments ext entry.2
  if state.stopped then return s.putTool entry.1 state
  else
    throw (.failure ⟨"OpenAI completed a function call without its output-item terminal.",
      some "missing_tool_terminal"⟩)

mutual

/-- A decoded value as a usage report. -/
def usageInfo : Json → UsageInfo
  | .null => .none
  | .int n => .int n
  | .obj fields => .mapping (usageEntries fields)
  | _ => .other

def usageEntries : List (String × Json) → List (String × UsageInfo)
  | [] => []
  | (key, value) :: rest => (key, usageInfo value) :: usageEntries rest

end

/-- The uncached input, cache reads and cache writes of a report; counters of a report without a
total are kept as they are. -/
def finishedUsage (usage : UsageInfo) : Option ℤ × Option ℤ × Option ℤ :=
  match responseUsage usage with
  | some (ordinary, cacheRead, cacheWrite) => (some ordinary, cacheRead, cacheWrite)
  | none =>
    (none,
      firstUsageCounter usage
        ["cached_tokens", "cache_read_input_tokens", "prompt_cache_hit_tokens"],
      firstUsageCounter usage
        ["cache_write_tokens", "cache_creation_input_tokens", "prompt_cache_write_tokens",
          "prompt_cache_creation_tokens", "cache_creation_tokens"])

/-- The input tokens and the other fields that the client is told. -/
def reportedUsage (usage : UsageInfo) : ℤ × Dict String ℤ :=
  let finished := finishedUsage usage
  reconcileInputUsage s.inputTokens
    (fieldValues (setSome (setSome .empty "cache_read_input_tokens" finished.2.1)
      "cache_creation_input_tokens" finished.2.2))
    finished.1

def incompleteDetails (data response : Json) : Json :=
  ((dictField response "incomplete_details").or (dictField data "incomplete_details")).getD
    (.obj [])

def finish (data : Json) (incomplete : Bool) : Except Raised ResponsesProviderStream := do
  let response := (dictField data "response").getD (.obj [])
  let s := { s with
    incompleteReason := match (incompleteDetails data response).get? "reason" with
      | some (.str reason) => some reason
      | _ => none }
  let s ← s.tools.entries.foldlM (finishTool ext) s
  let s ← s.captureResponseOutput ext response
  let s := { s with ledger := s.ledger.closeAllBlocks }
  if !s.generatedOutput || !s.ledger.hasContentBlock then
    throw (.failure ⟨"OpenAI completed a Responses stream without output.",
      some "empty_completed_response"⟩)
  let usage := usageInfo ((dictField response "usage").getD (.obj []))
  let outputTokens := (usage.value "output_tokens").nonNegative?
  let reported := s.reportedUsage usage
  let stopReason ← s.terminalStopReason incomplete
  let outputTokens := outputTokens.getD (ext.estimateOutputTokens s.ledger)
  return { s with
    ledger := (s.ledger.messageDelta (s.ledger.finalStopReason stopReason) (some outputTokens)
      (some reported.1) reported.2).messageStop
    completed := true }

/-- `_stream_failure` -/
def streamFailure (data : Json) : ResponsesStreamFailure :=
  let response := (dictField data "response").getD (.obj [])
  let error := match (response.get? "error").or (data.get? "error") with
    | some (.obj fields) => Json.obj fields
    | _ => .obj []
  { message := (nonEmpty (error.get? "message")).getD "OpenAI response failed."
    code := match (error.get? "code").or (error.get? "type") with
      | some (.str code) => some code
      | _ => none }

def feed (s : ResponsesProviderStream) (event : String × Json) :
    Except Raised ResponsesProviderStream :=
  let eventType := event.1
  let data := event.2
  if s.completed then .ok s
  else if eventType = "response.output_item.added" then s.itemAdded ext data
  else if eventType = "response.reasoning_text.delta" then s.reasoningDelta data false
  else if eventType = "response.reasoning_summary_text.delta" then s.reasoningDelta data true
  else if eventType = "response.reasoning_text.done" then s.reasoningDone data false
  else if eventType = "response.reasoning_summary_text.done" then s.reasoningDone data true
  else if eventType = "response.reasoning_summary_part.added" then s.reasoningPart data false
  else if eventType = "response.reasoning_summary_part.done" then s.reasoningPart data true
  else if eventType = "response.output_text.delta" then s.textDelta data
  else if eventType = "response.output_text.done" then s.textDone data
  else if eventType = "response.refusal.delta" then s.refusalDelta data
  else if eventType = "response.refusal.done" then s.refusalDone data
  else if eventType = "response.content_part.done" then s.contentPartDone data
  else if eventType = "response.function_call_arguments.delta" then s.toolDelta data
  else if eventType = "response.function_call_arguments.done" then s.toolArgumentsDone ext data
  else if eventType = "response.output_item.done" then s.itemDone ext data
  else if eventType = "response.completed" || eventType = "response.incomplete" then
    s.finish ext data (eventType = "response.incomplete")
  else if ["response.failed", "error", "response.error"].contains eventType then
    .error (.failure (streamFailure data))
  else .ok s

end ResponsesProviderStream

end Switchboard.Core.ProviderStream
