import Mathlib
import Switchboard.Core.VisualAttachments

/-!
# Anthropic messages as OpenAI chat messages

The conversion of one message: user content becomes text or parts, an assistant message
with tool calls becomes a turn whose blocks after the first call wait for the results.
-/

namespace Switchboard.Core.Anthropic

open Switchboard.Text

/-- How the reasoning of earlier answers is sent again. -/
inductive ReasoningReplayMode where
  | disabled
  | thinkTags
  | reasoningContent
  | reasoning
deriving DecidableEq, Repr

inductive Role where
  | user
  | assistant
  | system
deriving DecidableEq, Repr

inductive MessageContent where
  | str (text : String)
  | list (blocks : List ContentBlock)

/-- A validated message of a request. -/
structure Message where
  role : Role
  content : MessageContent
  reasoningContent : Option String := none

structure ToolCall where
  id : String
  name : String
  arguments : String
  extraContent : List (String × Json) := []

inductive ContentPart where
  | text (text : String)
  | imageUrl (url : String)

inductive UserContent where
  | str (text : String)
  | parts (parts : List ContentPart)

/-- A message for an OpenAI-compatible provider. -/
inductive ChatMessage where
  | user (content : UserContent)
  /-- `reasoning` is a field and its text. -/
  | assistant (content : String) (toolCalls : List ToolCall) (reasoning : Option (String × String))
  | tool (toolCallId content : String)
  /-- `_SyntheticOpenAIToolTurnBoundary`: an assistant message with a blank content. -/
  | boundary

/-- What the conversion takes from the standard library and the image library. -/
structure Externals where
  library : ImageLibrary
  /-- `json.dumps` -/
  dumps : Json → String
  /-- `json.dumps` with `ensure_ascii=False` -/
  dumpsUnicode : Json → String

variable (ext : Externals)

/-! ## Reasoning -/

def reasoningReplayField : ReasoningReplayMode → Option String
  | .reasoningContent => some "reasoning_content"
  | .reasoning => some "reasoning"
  | .disabled | .thinkTags => none

/-- `_set_replayed_reasoning` on a message without reasoning. -/
def replayedReasoning (mode : ReasoningReplayMode) (reasoning : Option String) :
    Option (String × String) :=
  match reasoningReplayField mode, reasoning with
  | some field, some text => some (field, text)
  | _, _ => none

def thinkTagContent (reasoning : String) : String := "<think>\n" ++ reasoning ++ "\n</think>"

/-! ## Assistant messages -/

def toolCallFromToolUse (id name : String) (input : List (String × Json)) (extraContent : Json) :
    ToolCall where
  id := id
  name := name
  arguments := ext.dumps (.obj input)
  extraContent := match extraContent with
    | .obj fields => fields
    | _ => []

def assertNoForbiddenAssistantBlock (block : ContentBlock) : Except Raised Unit :=
  if block.isToolSearchMetadata then .ok ()
  else
    match block with
    | .image _ => .error (.conversion
        "Assistant image blocks are not supported for OpenAI chat conversion.")
    | .serverToolUse _ | .webSearchToolResult | .webFetchToolResult =>
      .error (.conversion ("OpenAI chat conversion does not support Anthropic server tool " ++
        s!"blocks ({Json.reprString block.blockType} in an assistant message). " ++
        "Remove the unsupported block."))
    | _ => .ok ()

/-- The lists that `_convert_assistant_message` fills. -/
structure AssistantParts where
  contentParts : List String := []
  thinkingParts : List String := []
  toolCalls : List ToolCall := []

/-- One round of the loop of `_convert_assistant_message`. -/
def addAssistantBlock (mode : ReasoningReplayMode) (reasoningContent : Option String)
    (parts : AssistantParts) (block : ContentBlock) : Except Raised AssistantParts :=
  match block with
  | .text text => .ok { parts with contentParts := parts.contentParts ++ [text] }
  | .thinking thinking =>
    match mode with
    | .disabled => .ok parts
    | .thinkTags =>
      .ok { parts with contentParts := parts.contentParts ++ [thinkTagContent thinking] }
    | .reasoningContent | .reasoning =>
      if reasoningContent = none then
        .ok { parts with thinkingParts := parts.thinkingParts ++ [thinking] }
      else .ok parts
  | .redactedThinking _ => .ok parts
  | .toolUse id name input extraContent =>
    .ok { parts with
      toolCalls := parts.toolCalls ++ [toolCallFromToolUse ext id name input extraContent] }
  | block =>
    if block.isToolSearchMetadata then .ok parts
    else do
      assertNoForbiddenAssistantBlock block
      return parts

/-- The message that the filled lists give. -/
def AssistantParts.message (parts : AssistantParts) (mode : ReasoningReplayMode)
    (reasoningContent : Option String) : ChatMessage :=
  let content := "\n\n".intercalate parts.contentParts
  let content := if content = "" ∧ parts.toolCalls = [] then " " else content
  let reasoning :=
    match reasoningContent with
    | some text => some text
    | none => if parts.thinkingParts = [] then none
        else some ("\n".intercalate parts.thinkingParts)
  .assistant content parts.toolCalls (replayedReasoning mode reasoning)

def convertAssistantMessage (content : List ContentBlock) (mode : ReasoningReplayMode)
    (reasoningContent : Option String) : Except Raised ChatMessage := do
  let parts ← content.foldlM (addAssistantBlock ext mode reasoningContent) {}
  return parts.message mode reasoningContent

/-- An assistant message with tool calls, and what waits for their results. -/
structure ToolTurn where
  assistantMessage : ChatMessage
  requiredToolIds : List String
  deferredBlocks : List ContentBlock := []
  topLevelReasoning : Option String := none
  reasoningReplay : ReasoningReplayMode := .thinkTags
  assistantEmitted : Bool := false

inductive TranscriptSegment where
  | plain (messages : List ChatMessage)
  | toolTurn (turn : ToolTurn)

/-- `_tool_call_ids` leaves blank ids out. -/
def toolCallIds (toolCalls : List ToolCall) : List String :=
  (toolCalls.map ToolCall.id).filter fun id => strip isSpace id ≠ ""

def ContentBlock.isToolUse : ContentBlock → Bool
  | .toolUse .. => true
  | _ => false

def iterToolUses : List ContentBlock → List ToolCall
  | [] => []
  | .toolUse id name input extraContent :: blocks =>
    toolCallFromToolUse ext id name input extraContent :: iterToolUses blocks
  | _ :: blocks => iterToolUses blocks

/-- The first message of a turn before its calls are added. -/
def preToolMessage (pre : List ContentBlock) (mode : ReasoningReplayMode)
    (reasoningContent : Option String) : Except Raised ChatMessage :=
  if pre.isEmpty then .ok (.assistant "" [] (replayedReasoning mode reasoningContent))
  else convertAssistantMessage ext pre mode reasoningContent

/-- The calls of a turn are added to its first message. -/
def ChatMessage.withToolCalls (message : ChatMessage) (toolCalls : List ToolCall)
    (mode : ReasoningReplayMode) : ChatMessage :=
  match message with
  | .assistant content _ reasoning =>
    .assistant (if content = " " then "" else content) toolCalls
      (if mode = .reasoningContent then reasoning.orElse fun _ => some ("reasoning_content", "")
        else reasoning)
  | message => message

/-- `_convert_assistant_message_with_split`, for blocks with a first tool use. -/
def convertAssistantMessageWithSplit (content : List ContentBlock) (mode : ReasoningReplayMode)
    (reasoningContent : Option String) : Except Raised ToolTurn := do
  let pre := content.takeWhile fun block => !block.isToolUse
  let toolCalls := iterToolUses ext content
  let message ← preToolMessage ext pre mode reasoningContent
  return {
    assistantMessage := message.withToolCalls toolCalls mode
    requiredToolIds := toolCallIds toolCalls
    deferredBlocks := (content.dropWhile fun block => !block.isToolUse).filter
      fun block => !block.isToolUse
    topLevelReasoning := reasoningContent
    reasoningReplay := mode }

/-- `_deferred_post_tool_to_messages` -/
def ToolTurn.deferredMessages (turn : ToolTurn) : Except Raised (List ChatMessage) :=
  if turn.deferredBlocks.isEmpty then .ok []
  else do
    return [← convertAssistantMessage ext turn.deferredBlocks turn.reasoningReplay
      turn.topLevelReasoning]

/-! ## Tool results -/

structure ChatToolResult where
  toolCallId : String
  content : String
  observationMessages : List ChatMessage

def ChatToolResult.message (result : ChatToolResult) : ChatMessage :=
  .tool result.toolCallId result.content

/-- One round of the loop over the items of a tool result. -/
def addResultItem (toolUseId : String) (found : List ContentPart × List Json) (item : Json) :
    Except Raised (List ContentPart × List Json) := do
  if ← isToolSearchMetadataBlock item then return found
  if isText "image" (item.getD "type") then
    return (found.1 ++ [.imageUrl (← openaiUserImageUrl ext.library item)], found.2)
  if isText "document" (item.getD "type") then
    throw (.conversion ("OpenAI chat conversion cannot represent document blocks inside " ++
      s!"tool_result {Json.reprString toolUseId} without data loss."))
  let nestedMedia ← toolResultMediaBlockTypes item
  if nestedMedia ≠ [] then
    throw (.conversion ("OpenAI chat conversion cannot represent nested structured media " ++
      s!"blocks {tupleRepr nestedMedia} inside tool_result " ++
      s!"{Json.reprString toolUseId}; refusing lossy text serialization."))
  return (found.1, found.2 ++ [item])

/-- The images and the text of a tool result. -/
def convertResultContent (toolUseId : String) (content : Json) :
    Except Raised (List ContentPart × String) := do
  match content with
  | .arr items =>
    let (imageParts, textContent) ← items.foldlM (addResultItem ext toolUseId) ([], [])
    return (imageParts, ← serializeToolResultContent ext.dumpsUnicode (.arr textContent))
  | content =>
    if isText "image" (content.getD "type") then
      return ([.imageUrl (← openaiUserImageUrl ext.library content)], "")
    let nestedMedia ← toolResultMediaBlockTypes content
    if nestedMedia ≠ [] then
      throw (.conversion ("OpenAI chat conversion cannot represent structured media blocks " ++
        s!"{tupleRepr nestedMedia} inside tool_result {Json.reprString toolUseId}; refusing " ++
        "lossy text serialization."))
    return ([], ← serializeToolResultContent ext.dumpsUnicode content)

/-- `_openai_chat_tool_result` -/
def openaiChatToolResult (toolUseId : String) (content : ResultContent) :
    Except Raised ChatToolResult := do
  let content ← withoutToolSearchMetadata content.toJson
  let (imageParts, serialized) ← convertResultContent ext toolUseId content
  return {
    toolCallId := toolUseId
    content := if imageParts.isEmpty = false ∧ serialized = "" then
        "Tool result included an image observation." else serialized
    observationMessages := if imageParts.isEmpty then []
      else [.user (.parts
        (.text "[Tool result image observation preserved for vision input.]" :: imageParts))] }

/-! ## User messages -/

/-- What `_convert_user_message` has made, and the parts it has not sent off yet. -/
structure UserParts where
  result : List ChatMessage := []
  contentParts : List ContentPart := []

def partText? : ContentPart → Option String
  | .text text => some text
  | .imageUrl _ => none

/-- Parts that are all texts are one text. -/
def userContentOf (parts : List ContentPart) : UserContent :=
  match parts.mapM partText? with
  | some texts => .str ("\n".intercalate texts)
  | none => .parts parts

/-- `flush_content` -/
def UserParts.flushContent (user : UserParts) : UserParts :=
  if user.contentParts.isEmpty then user
  else { result := user.result ++ [.user (userContentOf user.contentParts)], contentParts := [] }

/-- One round of the loop of `_convert_user_message`; blocks of other types fall through. -/
def addUserBlock (user : UserParts) : ContentBlock → Except Raised UserParts
  | .text text => .ok { user with contentParts := user.contentParts ++ [.text text] }
  | .image source => do
    let url ← openaiUserImageUrl ext.library
      (.obj [("type", .str "image"), ("source", .obj source)])
    return { user with contentParts := user.contentParts ++ [.imageUrl url] }
  | .toolResult toolUseId content => do
    let user := user.flushContent
    let result ← openaiChatToolResult ext toolUseId content
    return { user with result := user.result ++ result.message :: result.observationMessages }
  | _ => .ok user

def convertUserMessage (content : List ContentBlock) : Except Raised (List ChatMessage) := do
  let user ← content.foldlM (addUserBlock ext) {}
  return user.flushContent.result

/-! ## Messages -/

/-- `_openai_system_text` of an inline system message; without blocks there is no text. -/
def openaiSystemText : MessageContent → Except Raised (Option String)
  | .str text => .ok (some text)
  | .list [] => .ok none
  | .list blocks => do
    let texts ← blocks.mapM fun block => match block with
      | .text text => (.ok text : Except Raised String)
      | block => .error (.conversion
          ("OpenAI chat conversion cannot represent an inline Anthropic system message content " ++
            s!"block {Json.reprString block.blockType} without data loss."))
    return some ("\n\n".intercalate texts)

/-- An assistant message whose content is a text. -/
def assistantTextMessage (content : String) (mode : ReasoningReplayMode)
    (reasoningContent : Option String) : ChatMessage :=
  match mode, reasoningContent with
  | .thinkTags, some reasoning =>
    if reasoning = "" then .assistant content [] none
    else .assistant ("\n\n".intercalate
      (thinkTagContent reasoning :: if content = "" then [] else [content])) [] none
  | mode, reasoning => .assistant content [] (replayedReasoning mode reasoning)

/-- `_convert_message_to_segments`, which makes one segment. -/
def convertMessageToSegment (message : Message) (mode : ReasoningReplayMode) :
    Except Raised TranscriptSegment :=
  match message.role, message.content with
  | .system, content => do
    match ← openaiSystemText content with
    | none => throw (.conversion ("OpenAI chat conversion requires an inline Anthropic system " ++
        "message to contain text."))
    | some text => return .plain [.user (.str text)]
  | .assistant, .list blocks =>
    if blocks.any ContentBlock.isToolUse then do
      let _ ← (blocks.filter fun block => !block.isToolUse).mapM assertNoForbiddenAssistantBlock
      return .toolTurn (← convertAssistantMessageWithSplit ext blocks mode
        message.reasoningContent)
    else do
      let _ ← blocks.mapM assertNoForbiddenAssistantBlock
      return .plain [← convertAssistantMessage ext blocks mode message.reasoningContent]
  | .assistant, .str text =>
    .ok (.plain [assistantTextMessage text mode message.reasoningContent])
  | .user, .list blocks => do
    return .plain (← convertUserMessage ext blocks)
  | .user, .str text => .ok (.plain [.user (.str text)])

end Switchboard.Core.Anthropic
