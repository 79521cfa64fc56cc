import Mathlib
import Switchboard.Core.ChatConversion
import Switchboard.Core.ToolNames

/-!
# Anthropic messages as Responses items

An assistant message becomes reasoning items, messages and calls, a user message becomes
messages and outputs of calls. Parts wait until a call or an output is written.
-/

namespace Switchboard.Core.Responses

open Switchboard.Text Switchboard.Core.Anthropic Switchboard.Core.ToolNames

/-- What the conversion takes from the standard library and the image library. -/
structure Externals where
  library : ImageLibrary
  /-- `json.dumps` with `ensure_ascii=False` -/
  dumpsUnicode : Json → String
  /-- `json.dumps` with `ensure_ascii=False` and no blanks after the separators -/
  dumpsCompact : Json → String

inductive ToolOutput where
  | text (text : String)
  | parts (parts : List ContentPart)

/-- An item of the `input` of a Responses request. -/
inductive ResponsesItem where
  /-- The texts of an assistant message. -/
  | assistantMessage (texts : List String)
  | userMessage (parts : List ContentPart)
  | developerMessage (text : String) (promptCacheBreakpoint : Bool)
  | reasoning (summary : List String) (encryptedContent : Option String)
  | functionCall (callId name arguments : String)
  | functionCallOutput (callId : String) (output : ToolOutput)

variable (ext : Externals)

/-! ## Images -/

/-- `_image_part`, up to the URL of the part. -/
def imagePart (block : Json) : Except Raised String :=
  let source := normalizeImageSource block
  let sourceType := source.getD "type"
  if isText "url" sourceType then
    match source.getD "url" with
    | .str url => do
      validateImageUrl ext.library url
      return url
    | _ => .error (.conversion "Image URL source requires a non-empty URL")
  else if isText "base64" sourceType then
    match source.getD "media_type", source.getD "data" with
    | .str mediaType, .str data => do
      validateBase64Source ext.library mediaType data
      return s!"data:{mediaType};base64,{data}"
    | _, _ => .error (.conversion "Base64 images require media_type and data.")
  else .error (.conversion s!"Unsupported image source type {sourceType.repr}.")

/-! ## Tool results -/

/-- The text of a block whose type is `text`. -/
def textOf (block : Json) : String := ((block.get? "text").map Json.toStr).getD ""

/-- One round of the loop over the blocks of a tool result with media. -/
def addOutputBlock (toolUseId : String) (output : List ContentPart) (block : Json) :
    Except Raised (List ContentPart) := do
  if ← isToolSearchMetadataBlock block then return output
  let blockType := block.getD "type"
  if isText "text" blockType then return output ++ [.text (textOf block)]
  if isText "image" blockType then return output ++ [.imageUrl (← imagePart ext block)]
  if isText "document" blockType then
    throw (.conversion ("OpenAI Responses cannot represent document blocks inside " ++
      s!"tool_result {Json.reprString toolUseId} without a supported file source; " ++
      "refusing lossy serialization."))
  let nestedMedia ← toolResultMediaBlockTypes block
  if nestedMedia ≠ [] then
    throw (.conversion ("OpenAI Responses cannot represent nested structured media blocks " ++
      s!"inside tool_result {Json.reprString toolUseId}; refusing lossy serialization."))
  let serialized ← serializeToolResultContent ext.dumpsUnicode block
  return if serialized = "" then output else output ++ [.text serialized]

/-- The blocks of a tool result with media. -/
def outputBlocks (toolUseId : String) (mediaTypes : List String) (content : Json) :
    Except Raised (List Json) :=
  match content with
  | .arr blocks => .ok blocks
  | content =>
    if isText "text" (content.getD "type") || isText "image" (content.getD "type") then
      .ok [content]
    else .error (.conversion ("OpenAI Responses cannot preserve structured media blocks " ++
      s!"{tupleRepr mediaTypes} inside tool_result {Json.reprString toolUseId} unless content " ++
      "is an Anthropic content-block list; refusing lossy serialization."))

/-- `_tool_result_output` -/
def toolResultOutput (content : Json) (toolUseId : String) : Except Raised ToolOutput := do
  let content ← withoutToolSearchMetadata content
  let mediaTypes ← toolResultMediaBlockTypes content
  if mediaTypes = [] then
    return .text (← serializeToolResultContent ext.dumpsUnicode content)
  let blocks ← outputBlocks toolUseId mediaTypes content
  return .parts (← blocks.foldlM (addOutputBlock ext toolUseId) [])

/-! ## Assistant messages -/

/-- The lists that `_assistant_items` fills. -/
structure AssistantItems where
  items : List ResponsesItem := []
  textParts : List String := []
  thinkingParts : List String := []
  encryptedParts : List String := []

/-- `flush_text` -/
def AssistantItems.flushText (turn : AssistantItems) : AssistantItems :=
  if turn.textParts.isEmpty then turn
  else { turn with
    items := turn.items ++ [.assistantMessage turn.textParts]
    textParts := [] }

variable (toolNames : OpenAIToolNameCodec)

/-- The call of a tool use. -/
def functionCall (id name : String) (input : List (String × Json)) : ResponsesItem :=
  .functionCall id (String.ofList (toolNames.encode name.toList)) (ext.dumpsCompact (.obj input))

/-- One round of the loop of `_assistant_items`. -/
def addAssistantBlock (turn : AssistantItems) (block : ContentBlock) :
    Except Raised AssistantItems :=
  if block.isToolSearchMetadata then .ok turn
  else
    match block with
    | .text text => .ok { turn with textParts := turn.textParts ++ [text] }
    | .thinking thinking => .ok { turn with thinkingParts := turn.thinkingParts ++ [thinking] }
    | .redactedThinking data => .ok { turn with encryptedParts := turn.encryptedParts ++ [data] }
    | .toolUse id name input _ =>
      let turn := turn.flushText
      .ok { turn with items := turn.items ++ [functionCall ext toolNames id name input] }
    | block => .error (.conversion ("OpenAI Responses cannot represent assistant content block " ++
        s!"{Json.reprString block.blockType}."))

/-- The reasoning items of a turn. The summary is in the first of them. -/
def reasoningItems (thinkingParts encryptedParts : List String) : List ResponsesItem :=
  let summary := thinkingParts.filter (· ≠ "")
  match encryptedParts with
  | [] => if thinkingParts = [] then [] else [.reasoning summary none]
  | encrypted :: others =>
    .reasoning summary (some encrypted) :: others.map fun data => .reasoning [] (some data)

/-- `_assistant_items` -/
def assistantItems (content : MessageContent) (reasoningContent : Option String) :
    Except Raised (List ResponsesItem) :=
  match content with
  | .str text => .ok ((reasoningContent.toList.map fun reasoning => .reasoning [reasoning] none) ++
      [.assistantMessage [text]])
  | .list blocks => do
    let turn ← blocks.foldlM (addAssistantBlock ext toolNames)
      { thinkingParts := reasoningContent.toList }
    let turn := { turn with
      items := reasoningItems turn.thinkingParts turn.encryptedParts ++ turn.items }
    return turn.flushText.items

/-! ## User messages -/

/-- The lists that `_user_items` fills. -/
structure UserItems where
  items : List ResponsesItem := []
  messageParts : List ContentPart := []

/-- `flush_message` -/
def UserItems.flushMessage (turn : UserItems) : UserItems :=
  if turn.messageParts.isEmpty then turn
  else { items := turn.items ++ [.userMessage turn.messageParts], messageParts := [] }

/-- The value of an image block. -/
def imageBlock (source : List (String × Json)) : Json :=
  .obj [("type", .str "image"), ("source", .obj source)]

/-- One round of the loop of `_user_items`. -/
def addUserBlock (turn : UserItems) (block : ContentBlock) : Except Raised UserItems :=
  if block.isToolSearchMetadata then .ok turn
  else
    match block with
    | .text text => .ok { turn with messageParts := turn.messageParts ++ [.text text] }
    | .image source => do
      let url ← imagePart ext (imageBlock source)
      return { turn with messageParts := turn.messageParts ++ [.imageUrl url] }
    | .toolResult toolUseId content => do
      let turn := turn.flushMessage
      let output ← toolResultOutput ext content.toJson toolUseId
      return { turn with items := turn.items ++ [.functionCallOutput toolUseId output] }
    | .document => .error (.conversion
        "OpenAI Responses provider does not support Anthropic document blocks.")
    | block => .error (.conversion ("OpenAI Responses cannot represent user content block " ++
        s!"{Json.reprString block.blockType}."))

/-- `_user_items` -/
def userItems (content : MessageContent) : Except Raised (List ResponsesItem) :=
  match content with
  | .str text => .ok [.userMessage [.text text]]
  | .list blocks => do
    let turn ← blocks.foldlM (addUserBlock ext) {}
    return turn.flushMessage.items

/-! ## System messages -/

/-- The texts of a system message, of which nothing else may be part. -/
def systemTexts (context : String) : MessageContent → Except Raised (List String)
  | .str text => .ok [text]
  | .list blocks => blocks.mapM fun block => match block with
    | .text text => .ok text
    | _ => .error (.conversion s!"{context} must contain only text.")

/-- `_message_text` -/
def messageText (content : MessageContent) (context : String) : Except Raised String := do
  return "\n\n".intercalate (← systemTexts context content)

end Switchboard.Core.Responses
