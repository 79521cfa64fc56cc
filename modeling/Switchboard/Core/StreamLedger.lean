import Mathlib
import Switchboard.Core.StreamContract
import Switchboard.Providers.ToolCalls

/-!
# The ledger of an Anthropic stream

`AnthropicStreamLedger` of `core/anthropic/streaming/ledger.py`. An operation appends what it
serializes to `sent`, which its callers yield in this order.
-/

namespace Switchboard.Core.AnthropicStream

open Switchboard.Providers.ToolCalls (ToolBlockState)

structure StreamBlockState where
  index : ℤ
  blockType : String
  isOpen : Bool := true
  toolId : String := ""
  name : String := ""
  parts : List String := []
  extraContent : Option Json := none

def StreamBlockState.content (state : StreamBlockState) : String := String.join state.parts

def StreamBlockState.closed (state : StreamBlockState) : StreamBlockState :=
  { state with isOpen := false }

def StreamBlockState.addPart (state : StreamBlockState) (part : String) : StreamBlockState :=
  { state with parts := state.parts ++ [part] }

/-- The allocation of indexes. -/
structure StreamBlockLedger where
  nextIndex : ℤ := 0
  thinkingIndex : ℤ := -1
  textIndex : ℤ := -1
  thinkingStarted : Bool := false
  textStarted : Bool := false
  toolStates : Dict ℕ ToolBlockState := .empty

structure AnthropicStreamLedger where
  messageId : String
  model : String
  inputTokens : ℤ
  blocks : StreamBlockLedger := {}
  textParts : List String := []
  thinkingParts : List String := []
  openStack : List ℤ := []
  contentBlocks : Dict ℤ StreamBlockState := .empty
  messageStarted : Bool := false
  messageStopped : Bool := false
  stopReason : Option String := none
  /-- The events that were serialized. -/
  sent : List SSEEvent := []

namespace AnthropicStreamLedger

variable (l : AnthropicStreamLedger)

/-- The emitter's `event`; its data starts with the type of the event. -/
def emit (name : String) (fields : List (String × Json)) : AnthropicStreamLedger :=
  { l with sent := l.sent ++ [⟨name, .obj (("type", .str name) :: fields)⟩] }

def messageStart : AnthropicStreamLedger :=
  { l with messageStarted := true }.emit "message_start"
    [("message", .obj
      [("id", .str l.messageId), ("type", .str "message"), ("role", .str "assistant"),
        ("content", .arr []), ("model", .str l.model), ("stop_reason", .null),
        ("stop_sequence", .null),
        ("usage", .obj [("input_tokens", .int l.inputTokens), ("output_tokens", .int 1)])])]

/-- The usage of `message_delta`; fields of the provider come last. -/
def deltaUsage (outputTokens inputTokens : Option ℤ) (usageFields : Dict String ℤ) :
    Dict String ℤ :=
  usageFields.entries.foldl (fun usage (entry : String × ℤ) => usage.set entry.1 entry.2)
    (Dict.ofList [("input_tokens", inputTokens.getD l.inputTokens),
      ("output_tokens", outputTokens.getD 0)] : Dict String ℤ)

def messageDelta (stopReason : String) (outputTokens inputTokens : Option ℤ)
    (usageFields : Dict String ℤ) : AnthropicStreamLedger :=
  { l with stopReason := some stopReason }.emit "message_delta"
    [("delta", .obj [("stop_reason", .str stopReason), ("stop_sequence", .null)]),
      ("usage", .obj ((l.deltaUsage outputTokens inputTokens usageFields).entries.map
        fun entry : String × ℤ => (entry.1, Json.int entry.2)))]

def messageStop : AnthropicStreamLedger :=
  { l with messageStopped := true }.emit "message_stop" []

/-- `blocks.reserve_index` -/
def reserveIndex (index : ℤ) : AnthropicStreamLedger :=
  { l with blocks := { l.blocks with nextIndex := max l.blocks.nextIndex (index + 1) } }

/-- The text of a field that is a string. -/
def stringField (fields : List (String × Json)) (key : String) : String :=
  match fields.lookup key with
  | some (.str text) => text
  | _ => ""

/-- A text that is not empty, as a list of parts. -/
def startParts (text : String) : List String := if text = "" then [] else [text]

/-- The block that `_record_block_start` keeps. -/
def startedBlock (index : ℤ) (block : List (String × Json)) : StreamBlockState :=
  let blockType := fieldText (.obj block) "type"
  if blockType = "tool_use" then
    { index := index, blockType := blockType, toolId := stringField block "id",
      name := stringField block "name"
      extraContent := match block.lookup "extra_content" with
        | some (.obj fields) => some (.obj fields)
        | _ => none }
  else if blockType = "text" then
    { index := index, blockType := blockType, parts := startParts (stringField block "text") }
  else if blockType = "thinking" then
    { index := index, blockType := blockType, parts := startParts (stringField block "thinking") }
  else { index := index, blockType := blockType }

def recordBlockStart (index : ℤ) (block : List (String × Json)) : AnthropicStreamLedger :=
  let state := startedBlock index block
  let l := l.reserveIndex index
  let l :=
    if state.blockType = "text" then
      { l with
        blocks := { l.blocks with textIndex := index, textStarted := true }
        textParts := l.textParts ++ state.parts }
    else if state.blockType = "thinking" then
      { l with
        blocks := { l.blocks with thinkingIndex := index, thinkingStarted := true }
        thinkingParts := l.thinkingParts ++ state.parts }
    else l
  { l with
    contentBlocks := l.contentBlocks.set index state
    openStack := l.openStack ++ [index] }

/-- The content block that `content_block_start` sends; the keywords come as fields. -/
def contentBlock (blockType : String) (kwargs : List (String × Json)) : List (String × Json) :=
  ("type", .str blockType) ::
    if blockType = "thinking" then
      [("thinking", (kwargs.lookup "thinking").getD (.str ""))]
    else if blockType = "text" then [("text", (kwargs.lookup "text").getD (.str ""))]
    else if blockType = "tool_use" then
      [("id", (kwargs.lookup "id").getD (.str "")), ("name", (kwargs.lookup "name").getD (.str "")),
        ("input", (kwargs.lookup "input").getD (.obj []))] ++
      match kwargs.lookup "extra_content" with
      | some (.obj (entry :: entries)) => [("extra_content", .obj (entry :: entries))]
      | _ => []
    else if blockType = "redacted_thinking" then
      match kwargs.lookup "data" with
      | some (.str data) => [("data", .str data)]
      | _ => []
    else []

def contentBlockStart (index : ℤ) (blockType : String) (kwargs : List (String × Json)) :
    AnthropicStreamLedger :=
  (l.recordBlockStart index (contentBlock blockType kwargs)).emit "content_block_start"
    [("index", .int index), ("content_block", .obj (contentBlock blockType kwargs))]

/-- The field of a delta that holds its content. -/
def deltaField : List (String × String) :=
  [("thinking_delta", "thinking"), ("signature_delta", "signature"), ("text_delta", "text"),
    ("input_json_delta", "partial_json")]

def contentDelta (deltaType content : String) : List (String × Json) :=
  ("type", .str deltaType) ::
    match deltaField.lookup deltaType with
    | some key => [(key, .str content)]
    | none => []

/-- The field of a delta that a block of a type reads. -/
def partField : List (String × String) :=
  [("text", "text"), ("thinking", "thinking"), ("tool_use", "partial_json")]

/-- The part that a block of a type takes from a delta. -/
def deltaPart (blockType : String) (delta : List (String × Json)) : Option String :=
  match (partField.lookup blockType).bind fun key => delta.lookup key with
  | some (.str text) => some text
  | _ => none

def recordBlockDelta (index : ℤ) (delta : List (String × Json)) : AnthropicStreamLedger :=
  match l.contentBlocks.get? index with
  | none => l
  | some state =>
    match deltaPart state.blockType delta with
    | none => l
    | some part =>
      { l with
        contentBlocks := l.contentBlocks.set index (state.addPart part)
        textParts := if state.blockType = "text" then l.textParts ++ [part] else l.textParts
        thinkingParts :=
          if state.blockType = "thinking" then l.thinkingParts ++ [part] else l.thinkingParts }

def contentBlockDelta (index : ℤ) (deltaType content : String) : AnthropicStreamLedger :=
  (l.recordBlockDelta index (contentDelta deltaType content)).emit "content_block_delta"
    [("index", .int index), ("delta", .obj (contentDelta deltaType content))]

/-- `_clear_active_content_block` -/
def clearActiveContentBlock (state : StreamBlockState) : AnthropicStreamLedger :=
  if state.blockType = "text" && l.blocks.textIndex = state.index then
    { l with blocks := { l.blocks with textStarted := false } }
  else if state.blockType = "thinking" && l.blocks.thinkingIndex = state.index then
    { l with blocks := { l.blocks with thinkingStarted := false } }
  else l

/-- The block is no longer open. -/
def closeBlock (index : ℤ) : AnthropicStreamLedger :=
  match l.contentBlocks.get? index with
  | none => l
  | some state =>
    { l with contentBlocks := l.contentBlocks.set index state.closed }.clearActiveContentBlock state

def recordBlockStop (index : ℤ) : AnthropicStreamLedger :=
  { l with
    openStack :=
      if l.openStack.getLast? = some index then l.openStack.dropLast
      else l.openStack.erase index }.closeBlock index

def emitStop (index : ℤ) : AnthropicStreamLedger :=
  l.emit "content_block_stop" [("index", .int index)]

def contentBlockStop (index : ℤ) : AnthropicStreamLedger := (l.recordBlockStop index).emitStop index

def startThinkingBlock : AnthropicStreamLedger :=
  let index := l.blocks.nextIndex
  { l with
    blocks := { l.blocks with
      nextIndex := index + 1, thinkingIndex := index
      thinkingStarted := true } }.contentBlockStart index "thinking" []

def emitThinkingDelta (content : String) : AnthropicStreamLedger :=
  l.contentBlockDelta l.blocks.thinkingIndex "thinking_delta" content

def stopThinkingBlock : AnthropicStreamLedger :=
  { l with blocks := { l.blocks with thinkingStarted := false } }.contentBlockStop
    l.blocks.thinkingIndex

def startTextBlock : AnthropicStreamLedger :=
  let index := l.blocks.nextIndex
  { l with
    blocks := { l.blocks with
      nextIndex := index + 1, textIndex := index
      textStarted := true } }.contentBlockStart index "text" []

def emitTextDelta (content : String) : AnthropicStreamLedger :=
  l.contentBlockDelta l.blocks.textIndex "text_delta" content

def stopTextBlock : AnthropicStreamLedger :=
  { l with blocks := { l.blocks with textStarted := false } }.contentBlockStop l.blocks.textIndex

/-- The state that `start_tool_block` keeps under a tool index. -/
def startedTool (toolIndex : ℕ) (toolId name : List Char) (extraContent : Option Json) :
    ToolBlockState :=
  match l.blocks.toolStates.get? toolIndex with
  | some state =>
    { state with
      blockIndex := l.blocks.nextIndex, toolId := toolId, name := name
      extraContent := extraContent.or state.extraContent, started := true }
  | none =>
    { ToolBlockState.new name with
      blockIndex := l.blocks.nextIndex, toolId := toolId, extraContent := extraContent
      started := true }

/-- The keywords of the block of a tool call. -/
def toolFields (toolId name : List Char) (extraContent : Option Json) : List (String × Json) :=
  [("id", .str (String.ofList toolId)), ("name", .str (String.ofList name)),
    ("extra_content", extraContent.getD .null)]

def startToolBlock (toolIndex : ℕ) (toolId name : List Char) (extraContent : Option Json) :
    AnthropicStreamLedger :=
  let index := l.blocks.nextIndex
  { l with
    blocks := { l.blocks with
      nextIndex := index + 1
      toolStates := l.blocks.toolStates.set toolIndex
        (l.startedTool toolIndex toolId name extraContent) } }.contentBlockStart index "tool_use"
    (toolFields toolId name extraContent)

/-- `emit_tool_delta`; there is none where the tool index is unknown, a `KeyError`. -/
def emitToolDelta (toolIndex : ℕ) (partialJson : String) : Option AnthropicStreamLedger :=
  (l.blocks.toolStates.get? toolIndex).map fun state =>
    l.contentBlockDelta state.blockIndex "input_json_delta" partialJson

/-- `stop_tool_block`, with the same `KeyError`. -/
def stopToolBlock (toolIndex : ℕ) : Option AnthropicStreamLedger :=
  (l.blocks.toolStates.get? toolIndex).map fun state => l.contentBlockStop state.blockIndex

/-- `blocks.tool_states[tool_index].started = False` -/
def releaseTool (toolIndex : ℕ) : AnthropicStreamLedger :=
  { l with
    blocks := { l.blocks with
      toolStates := l.blocks.toolStates.modify toolIndex
        fun state => { state with started := false } } }

def stopThinkingIfStarted : AnthropicStreamLedger :=
  if l.blocks.thinkingStarted then l.stopThinkingBlock else l

def stopTextIfStarted : AnthropicStreamLedger :=
  if l.blocks.textStarted then l.stopTextBlock else l

def ensureThinkingBlock : AnthropicStreamLedger :=
  let l := l.stopTextIfStarted
  if l.blocks.thinkingStarted then l else l.startThinkingBlock

def ensureTextBlock : AnthropicStreamLedger :=
  let l := l.stopThinkingIfStarted
  if l.blocks.textStarted then l else l.startTextBlock

def closeContentBlocks : AnthropicStreamLedger := l.stopThinkingIfStarted.stopTextIfStarted

/-- A tool block of the list that `close_all_blocks` reads. -/
def closeTool (entry : ℕ × ToolBlockState) : AnthropicStreamLedger :=
  if entry.2.started then l.contentBlockStop entry.2.blockIndex else l

def closeAllBlocks : AnthropicStreamLedger :=
  let l := l.closeContentBlocks
  l.blocks.toolStates.entries.foldl closeTool l

/-- A round of `close_unclosed_blocks`. -/
def closeUnclosed (index : ℤ) : AnthropicStreamLedger := (l.closeBlock index).emitStop index

def closeUnclosedBlocks : AnthropicStreamLedger :=
  l.openStack.reverse.foldl closeUnclosed { l with openStack := [] }

def toolBlocks : List StreamBlockState :=
  l.contentBlocks.values.filter fun block => block.blockType = "tool_use"

def hasEmittedToolBlock : Bool := !l.toolBlocks.isEmpty

def hasContentBlock : Bool := !l.contentBlocks.entries.isEmpty

def finalStopReason (fallback : String) : String :=
  if l.hasEmittedToolBlock then "tool_use" else fallback

def accumulatedText : String := String.join l.textParts

def accumulatedReasoning : String := String.join l.thinkingParts

end AnthropicStreamLedger

end Switchboard.Core.AnthropicStream
