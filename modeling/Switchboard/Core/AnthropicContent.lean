import Mathlib
import Switchboard.Library.Except
import Switchboard.Library.Json
import Switchboard.Library.Text

/-!
# Content blocks of Anthropic messages

The blocks a validated request holds, the checks of images, and what the conversion to
other protocols reads of a tool result. The values inside a tool result are not
validated: they are any JSON.
-/

namespace Switchboard.Core.Anthropic

open Switchboard.Text

/-- What a conversion raises: its own error, or one that leaves it by accident. The last is
an error of the image library that is no `OSError` and no `ValueError`. -/
inductive Raised where
  | conversion (message : String)
  | keyError (key : String)
  | typeError
  | imageLibrary
deriving DecidableEq

/-- The error that a conversion is meant to raise. -/
def Raised.isConversion : Raised → Bool
  | .conversion _ => true
  | _ => false

/-- The content of a `tool_result`. -/
inductive ResultContent where
  | str (text : String)
  | list (items : List Json)
  | dict (fields : List (String × Json))

def ResultContent.toJson : ResultContent → Json
  | .str text => .str text
  | .list items => .arr items
  | .dict fields => .obj fields

/-- The content blocks of a validated message, with the fields that are read here. -/
inductive ContentBlock where
  | text (text : String)
  | image (source : List (String × Json))
  | document
  /-- `extraContent` is `null` where the client sent none. -/
  | toolUse (id name : String) (input : List (String × Json)) (extraContent : Json)
  | toolResult (toolUseId : String) (content : ResultContent)
  | toolReference
  | toolSearchToolResult
  | thinking (thinking : String)
  | redactedThinking (data : String)
  | serverToolUse (name : String)
  | webSearchToolResult
  | webFetchToolResult

def ContentBlock.blockType : ContentBlock → String
  | .text _ => "text"
  | .image _ => "image"
  | .document => "document"
  | .toolUse .. => "tool_use"
  | .toolResult .. => "tool_result"
  | .toolReference => "tool_reference"
  | .toolSearchToolResult => "tool_search_tool_result"
  | .thinking _ => "thinking"
  | .redactedThinking _ => "redacted_thinking"
  | .serverToolUse _ => "server_tool_use"
  | .webSearchToolResult => "web_search_tool_result"
  | .webFetchToolResult => "web_fetch_tool_result"

/-! ## Search metadata -/

def toolSearchMetadataBlockTypes : List String :=
  ["tool_reference", "tool_search_tool_result", "tool_search_tool_search_result",
    "tool_search_tool_result_error"]

def isToolSearchControllerName (name : String) : Bool :=
  name = "tool_search" || name.startsWith "tool_search_tool_"

/-- `is_tool_search_metadata_block` of a validated block. -/
def ContentBlock.isToolSearchMetadata (block : ContentBlock) : Bool :=
  block.blockType ∈ toolSearchMetadataBlockTypes ||
    match block with
    | .serverToolUse name => isToolSearchControllerName name
    | _ => false

/-- The text of a field that is a text. -/
def isText (text : String) : Json → Bool
  | .str s => s = text
  | _ => false

/-- Looking a list or a dictionary up in a set is an error. -/
def hashable : Json → Except Raised Unit
  | .arr _ | .obj _ => .error .typeError
  | _ => .ok ()

/-- `is_tool_search_metadata_block` of a value inside a tool result. -/
def isToolSearchMetadataBlock (block : Json) : Except Raised Bool := do
  let blockType := block.getD "type"
  hashable blockType
  return toolSearchMetadataBlockTypes.any (isText · blockType) ||
    isText "server_tool_use" blockType &&
      match block.getD "name" with
      | .str name => isToolSearchControllerName name
      | _ => false

/-! ## Envelopes of tool results -/

def mcpToolResultFields : List String :=
  ["content", "isError", "is_error", "_meta", "structuredContent"]

def mcpJsonrpcResultFields : List String := ["jsonrpc", "id", "result"]

/-- An envelope of the first kind: its `content` is a list. -/
def envelopeContent (fields : List (String × Json)) : Option Json :=
  if fields.all fun field => field.1 ∈ mcpToolResultFields then
    match fields.lookup "content" with
    | some (.arr items) => some (.arr items)
    | _ => none
  else none

mutual

/-- `_normalized_tool_result_content` -/
def normalizedToolResultContent : Json → Option Json
  | .obj fields =>
    if (fields.lookup "type").isSome then none
    else
      match envelopeContent fields with
      | some items => some items
      | none =>
        if fields.all fun field => field.1 ∈ mcpJsonrpcResultFields then
          normalizedResult fields
        else none
  | _ => none

/-- The `result` of an envelope of the second kind. -/
def normalizedResult : List (String × Json) → Option Json
  | [] => none
  | (key, value) :: fields =>
    if key = "result" then normalizedToolResultContent value else normalizedResult fields

end

def normalizeToolResultContent (content : Json) : Json :=
  (normalizedToolResultContent content).getD content

def withoutMetadata : List Json → Except Raised (List Json)
  | [] => .ok []
  | block :: blocks => do
    let isMetadata ← isToolSearchMetadataBlock block
    let others ← withoutMetadata blocks
    return if isMetadata then others else block :: others

/-- `without_tool_search_metadata`; `None` is `null`. -/
def withoutToolSearchMetadata (content : Json) : Except Raised Json := do
  let normalized := normalizeToolResultContent content
  if ← isToolSearchMetadataBlock normalized then return .null
  match normalized with
  | .arr blocks => return .arr (← withoutMetadata blocks)
  | _ => return normalized

/-! ## Tool results as text -/

def mediaBlockType (blockType : Json) : Except Raised (List String) := do
  hashable blockType
  return ["document", "image"].filter (isText · blockType)

mutual

/-- The media types of all mappings inside a value. -/
def mediaTypes : Json → Except Raised (List String)
  | .obj fields => do
    let own ← mediaBlockType ((fields.lookup "type").getD .null)
    return own ++ (← mediaTypesOfFields fields)
  | .arr items => mediaTypesOfItems items
  | _ => .ok []

def mediaTypesOfItems : List Json → Except Raised (List String)
  | [] => .ok []
  | item :: items => do
    let own ← mediaTypes item
    return own ++ (← mediaTypesOfItems items)

def mediaTypesOfFields : List (String × Json) → Except Raised (List String)
  | [] => .ok []
  | (_, value) :: fields => do
    let own ← mediaTypes value
    return own ++ (← mediaTypesOfFields fields)

end

/-- `tool_result_media_block_types` -/
def toolResultMediaBlockTypes (content : Json) : Except Raised (List String) := do
  let found ← mediaTypes (← withoutToolSearchMetadata content)
  return ["document", "image"].filter (· ∈ found)

/-- A tuple of texts, printed. -/
def tupleRepr : List String → String
  | [] => "()"
  | [text] => "(" ++ Json.reprString text ++ ",)"
  | texts => "(" ++ ", ".intercalate (texts.map Json.reprString) ++ ")"

-- `json.dumps` with `ensure_ascii=False`
variable (dumps : Json → String)

/-- One item of a list that is serialized. -/
def serializeItem (item : Json) : String :=
  match item with
  | .obj fields =>
    if isText "text" (item.getD "type") then ((fields.lookup "text").map Json.toStr).getD ""
    else dumps item
  | _ => item.toStr

def serializeItems : List Json → Except Raised (List String)
  | [] => .ok []
  | item :: items => do
    let isMetadata ← isToolSearchMetadataBlock item
    let parts ← serializeItems items
    return if isMetadata then parts else serializeItem dumps item :: parts

def serializeToolResultContent (content : Json) : Except Raised String := do
  match ← withoutToolSearchMetadata content with
  | .null => return ""
  | .str text => return text
  | .obj fields => return dumps (.obj fields)
  | .arr items => return "\n".intercalate (← serializeItems dumps items)
  | other => return other.toStr

end Switchboard.Core.Anthropic
