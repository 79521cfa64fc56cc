import Mathlib
import Switchboard.Core.ResponsesInput

/-!
# Responses requests for a provider

The request for a Responses provider is built from a validated Anthropic request. What the
protocol cannot hold is refused before any message is converted.
-/

namespace Switchboard.Core.Responses

open Switchboard.Text Switchboard.Core.Anthropic Switchboard.Core.ToolNames

abbrev Fields := List (String × Json)

/-- A list of texts, printed. -/
def listRepr (texts : List String) : String := (Json.arr (texts.map .str)).repr

/-! ## Requests -/

structure Tool where
  name : String
  type : Option String := none
  description : Option String := none
  inputSchema : Option Fields := none

inductive SystemPrompt where
  | str (text : String)
  | parts (texts : List String)

/-- The fields of a validated request that are read here; `modelExtra` are the names of the
others that the client sent. -/
structure MessagesRequest where
  model : String
  messages : List Message
  system : Option SystemPrompt := none
  maxTokens : Option ℤ := none
  stopSequences : Option (List String) := none
  temperature : Option Json := none
  topP : Option Json := none
  topK : Option ℤ := none
  metadata : Option Fields := none
  tools : Option (List Tool) := none
  toolChoice : Option Fields := none
  contextManagement : Option Fields := none
  outputConfig : Option Fields := none
  mcpServers : Option (List Fields) := none
  extraBody : Option Fields := none
  claudeSessionId : Option String := none
  promptCacheKey : Option String := none
  modelExtra : List String := []

inductive ReasoningControl where
  | default
  | off
  | on
deriving DecidableEq

/-- `effort` is the value of the effort. -/
structure ReasoningPolicy where
  control : ReasoningControl := .default
  effort : Option String := none
  budgetTokens : Option ℕ := none

def ReasoningPolicy.requestsReasoning (policy : ReasoningPolicy) : Bool :=
  policy.control ≠ .off &&
    (policy.control = .on || policy.effort.isSome || policy.budgetTokens.isSome)

/-! ## Validation -/

def isToolSearchToolName (name : String) : Bool := name.startsWith "tool_search_tool_"

def Tool.isToolSearchDefinition (tool : Tool) : Bool :=
  (tool.type.any isToolSearchToolName) || isToolSearchToolName tool.name

def reasoningSummaries : List String := ["auto", "concise", "detailed"]

def validateReasoningSummary (outputConfig : Fields) : Except Raised Unit :=
  match outputConfig.lookup "summary" with
  | none => .ok ()
  | some summary =>
    if reasoningSummaries.any (isText · summary) then .ok ()
    else .error (.conversion "output_config.summary must be one of: auto, concise, detailed.")

def isObject : Json → Bool
  | .obj _ => true
  | _ => false

def validateStructuredOutputFormat (outputConfig : Fields) : Except Raised Unit :=
  match outputConfig.lookup "format" with
  | none => .ok ()
  | some (.obj value) =>
    if ¬ (value.map Prod.fst ⊆ ["type", "schema"] ∧ ["type", "schema"] ⊆ value.map Prod.fst) then
      .error (.conversion
        "output_config.format supports exactly type and schema for Responses.")
    else if !isText "json_schema" ((value.lookup "type").getD .null) then
      .error (.conversion "output_config.format.type must be 'json_schema' for Responses.")
    else if !isObject ((value.lookup "schema").getD .null) then
      .error (.conversion "output_config.format.schema must be a JSON Schema object.")
    else .ok ()
  | some _ => .error (.conversion "output_config.format must be an object.")

def unsupportedOutputConfigPaths (outputConfig : Fields) : List String :=
  let keys := (outputConfig.map Prod.fst).insertionSort (· ≤ ·)
  (keys.filter fun key => key ∉ ["effort", "format", "summary"]).map ("output_config." ++ ·)

/-- The edit that keeps all thinking. -/
def isKeepAllEdit : Json → Bool
  | .obj fields =>
    (fields.all fun field => field.1 ∈ ["type", "keep"]) &&
      isText "clear_thinking_20251015" ((fields.lookup "type").getD .null) &&
      isText "all" ((fields.lookup "keep").getD .null)
  | _ => false

def isNoopContextManagement (contextManagement : Fields) : Bool :=
  contextManagement.isEmpty ||
    (contextManagement.all fun field => field.1 = "edits") &&
      match contextManagement.lookup "edits" with
      | some (.arr edits) => edits.all isKeepAllEdit
      | _ => false

/-- The fields that have no place in a Responses request. -/
def unsupportedFields (request : MessagesRequest) : List String :=
  (if (request.stopSequences.getD []).isEmpty then [] else ["stop_sequences"]) ++
    (if request.topK = none then [] else ["top_k"]) ++
    (if isNoopContextManagement (request.contextManagement.getD []) then []
      else ["context_management"]) ++
    unsupportedOutputConfigPaths (request.outputConfig.getD []) ++
    (if (request.mcpServers.getD []).isEmpty then [] else ["mcp_servers"]) ++
    (if (request.extraBody.getD []).isEmpty then [] else ["extra_body"])

/-- The types of tools that the provider would have to run. -/
def providerToolTypes (request : MessagesRequest) : List String :=
  let types := (request.tools.getD []).filterMap fun tool =>
    if tool.isToolSearchDefinition then none else tool.type
  types.dedup.insertionSort (· ≤ ·)

/-- `_validate_supported_request` -/
def validateSupportedRequest (request : MessagesRequest) : Except Raised Unit := do
  if !request.modelExtra.isEmpty then
    throw (.conversion ("OpenAI Responses does not support these request fields: " ++
      s!"{listRepr (request.modelExtra.insertionSort (· ≤ ·))}."))
  if !(providerToolTypes request).isEmpty then
    throw (.conversion ("OpenAI Responses cannot represent provider-managed tool types: " ++
      s!"{listRepr (providerToolTypes request)}."))
  validateReasoningSummary (request.outputConfig.getD [])
  validateStructuredOutputFormat (request.outputConfig.getD [])
  if !(unsupportedFields request).isEmpty then
    throw (.conversion ("OpenAI Responses cannot represent these fields without data loss: " ++
      s!"{listRepr (unsupportedFields request)}."))

/-! ## Bodies -/

/-- A function that is offered to the model. -/
structure FunctionTool where
  name : String
  description : Option String
  parameters : Fields
  strict : Bool := false

/-- A Responses request; lists that are empty are left out of what is sent. -/
structure ResponsesBody where
  model : String
  input : List ResponsesItem
  stream : Bool := true
  store : Bool := false
  included : List String := ["reasoning.encrypted_content"]
  promptCacheKey : Option String := none
  instructions : Option String := none
  maxOutputTokens : Option ℤ := none
  temperature : Option Json := none
  topP : Option Json := none
  metadata : Option Fields := none
  text : Option Json := none
  tools : List FunctionTool := []
  toolChoice : Option Json := none
  reasoning : List (String × String) := []

/-- What the key of the prompt cache is selected from. -/
structure CacheKeySources where
  explicit : Option String
  session : Option String
  metadata : Option Fields
  contentValues : List String

/-- `_system_text` -/
def systemText (request : MessagesRequest) : List String :=
  match request.system with
  | none => []
  | some (.str text) => if text = "" then [] else [text]
  | some (.parts texts) => texts.filter (· ≠ "")

/-- The text of a block that may not be the key of a cache. -/
def blockTextValue : ContentBlock → Option String
  | .text text => some text
  | .thinking thinking => some thinking
  | .toolResult _ (.str text) => some text
  | _ => none

def messageTextValues (message : Message) : List String :=
  (match message.content with
    | .str text => [text]
    | .list blocks => blocks.filterMap blockTextValue) ++
  message.reasoningContent.toList.filter (· ≠ "")

/-- `_request_text_values` -/
def requestTextValues (request : MessagesRequest) : List String :=
  systemText request ++ request.messages.flatMap messageTextValues

/-- `_responses_text_config` of a configuration that was validated. -/
def responsesTextConfig (outputConfig : Fields) : Option Json :=
  match outputConfig.lookup "format" with
  | some (.obj value) => some (.obj [("format", .obj [("type", .str "json_schema"),
      ("name", .str "claude_output"), ("schema", (value.lookup "schema").getD .null),
      ("strict", .bool true)])])
  | _ => none

def requestedReasoningSummary (outputConfig : Fields) : Option String :=
  match outputConfig.lookup "summary" with
  | some (.str summary) => some summary
  | _ => none

/-- `_reasoning_config` -/
def reasoningConfig (reasoning : ReasoningPolicy) (summary : Option String) :
    List (String × String) :=
  if reasoning.control = .off then [("effort", "none")]
  else
    match reasoning.effort with
    | some effort => [("summary", summary.getD "auto"), ("effort", effort)]
    | none =>
      if reasoning.requestsReasoning then [("summary", summary.getD "auto")]
      else summary.toList.map fun text => ("summary", text)

variable (ext : Externals) (toolNames : OpenAIToolNameCodec)

/-- `_tool_choice` -/
def toolChoice (choice : Fields) : Except Raised Json := do
  let choiceType := (choice.lookup "type").getD .null
  hashable choiceType
  if isText "auto" choiceType || isText "none" choiceType then .ok choiceType
  else if isText "any" choiceType then .ok (.str "required")
  else if isText "tool" choiceType then
    match choice.lookup "name" with
    | some (.str name) =>
      if name = "" then .error (.conversion "Forced tool choice requires a tool name.")
      else if isToolSearchToolName name then .ok (.str "auto")
      else .ok (.obj [("type", .str "function"),
        ("name", .str (String.ofList (toolNames.encode name.toList)))])
    | _ => .error (.conversion "Forced tool choice requires a tool name.")
  else .error (.conversion s!"Unsupported tool_choice type {choiceType.repr}.")

def functionTool (tool : Tool) : FunctionTool where
  name := String.ofList (toolNames.encode tool.name.toList)
  description := tool.description
  parameters := match tool.inputSchema with
    | some (field :: fields) => field :: fields
    | _ => [("type", .str "object"), ("properties", .obj [])]

/-- The items of the `input` that a message becomes. -/
def messageItems (message : Message) : Except Raised (List ResponsesItem) :=
  match message.role with
  | .system => .ok []
  | .assistant => assistantItems ext toolNames message.content message.reasoningContent
  | .user => userItems ext message.content

/-- What a message adds to the instructions. -/
def messageInstructions (message : Message) : Except Raised (List String) :=
  match message.role with
  | .system => do
    let text ← messageText message.content "system message"
    return if text = "" then [] else [text]
  | _ => .ok []

/-- One round of the loop over the messages. -/
def addMessage (converted : List String × List ResponsesItem) (message : Message) :
    Except Raised (List String × List ResponsesItem) := do
  let instructions ← messageInstructions message
  let items ← messageItems ext toolNames message
  return (converted.1 ++ instructions, converted.2 ++ items)

-- `select_prompt_cache_key`
variable (selectPromptCacheKey : CacheKeySources → Option String)

/-- `build_responses_provider_request`; `toolNames` is the codec of the request. -/
def buildResponsesProviderRequest (request : MessagesRequest) (reasoning : ReasoningPolicy)
    (promptCacheKey : Option String) (explicitPromptCacheBreakpoint : Bool) :
    Except Raised ResponsesBody := do
  validateSupportedRequest request
  let (instructions, inputItems) ←
    request.messages.foldlM (addMessage ext toolNames) (systemText request, [])
  if inputItems.isEmpty then
    throw (.conversion
      "OpenAI Responses conversion requires at least one user or assistant item.")
  let instructionText := "\n\n".intercalate instructions
  let toolChoice ← request.toolChoice.mapM (toolChoice toolNames)
  return {
    model := request.model
    input :=
      if explicitPromptCacheBreakpoint ∧ instructions ≠ [] then
        .developerMessage instructionText true :: inputItems
      else inputItems
    promptCacheKey := selectPromptCacheKey {
      explicit := request.promptCacheKey
      session := (promptCacheKey.filter (· ≠ "")).or request.claudeSessionId
      metadata := request.metadata
      contentValues := requestTextValues request }
    instructions :=
      if explicitPromptCacheBreakpoint ∨ instructions = [] then none else some instructionText
    maxOutputTokens := request.maxTokens
    temperature := request.temperature
    topP := request.topP
    metadata := request.metadata
    text := responsesTextConfig (request.outputConfig.getD [])
    tools := ((request.tools.getD []).filter fun tool => !tool.isToolSearchDefinition).map
      (functionTool toolNames)
    toolChoice := toolChoice
    reasoning := reasoningConfig reasoning
      (requestedReasoningSummary (request.outputConfig.getD [])) }

end Switchboard.Core.Responses
