import Switchboard.Core.AnthropicContent
import Switchboard.Library.Utf8

/-!
# The context governor

`core/anthropic/context_governor.py`: long texts of tool results are written to a file and
replaced by an excerpt that names it. What a request, a message or a block holds besides the
fields that are read here is carried along. The records leave out `reduction_ratio`, a float of
two of their numbers.
-/

namespace Switchboard.Core.ContextGovernor

open Switchboard.Core.Anthropic Switchboard.Utf8

def maxToolResultMaxBytes : ℕ := 1000000

def maxArtifactBytes : ℕ := 64 * 1024 * 1024

structure ContextGovernorConfig where
  enabled : Bool := true
  toolResultMaxBytes : ℕ := 16 * 1024
  preserveMedia : Bool := true
  bounds : 512 ≤ toolResultMaxBytes ∧ toolResultMaxBytes ≤ maxToolResultMaxBytes := by decide

structure ToolResult where
  toolUseId : String
  content : ResultContent
  extra : List (String × Json)

/-- A content block: a `tool_result`, or any other with all of its fields. -/
inductive Block where
  | toolResult (result : ToolResult)
  | other (fields : List (String × Json))

inductive MessageContent where
  | text (text : String)
  | blocks (blocks : List Block)

structure Message where
  role : String
  content : MessageContent
  reasoningContent : Option String

structure MessagesRequest (ρ : Type) where
  messages : List Message
  others : ρ

structure TokenCountRequest (τ : Type) where
  messages : List Message
  others : τ

structure ContextGovernanceRecord where
  toolUseId : String
  originalBytes : ℕ
  visibleBytes : ℕ
  originalTokens : ℕ
  visibleTokens : ℕ
  originalLines : ℕ
  visibleLines : ℕ
  artifactPath : String
  artifactSha256 : String
  pressureMode : String
  semanticVerification : String
deriving DecidableEq

structure Governed (ρ : Type) where
  request : ρ
  records : List ContextGovernanceRecord := []

/-- What the governor uses outside of this file: the redaction of secrets, the path and the digest
of the artifact of a text, and the work on the file system, whose states are `σ`. A
`ContextGovernanceError` is raised as `Raised.conversion`. -/
structure Artifacts (σ : Type) where
  redactSensitiveErrorText : String → String
  locate : String → String × String
  store : String → σ → Except Raised σ

/-! ## Texts -/

def estimatedTokens (text : String) : ℕ := max 1 ((encode text).length / 4)

def estimatedLines (text : String) : ℕ :=
  if text = "" then 0
  else text.toList.count '\n' + if text.toList.getLast? = some '\n' then 0 else 1

def clipUtf8 (text : String) (maxBytes : ℕ) (fromEnd : Bool) : String :=
  let data := encode text
  if data.length ≤ maxBytes then text
  else decodeIgnore (if fromEnd then data.drop (data.length - maxBytes) else data.take maxBytes)

/-- A number with ten digits at least. -/
def tenDigits (n : ℕ) : String := .ofList (List.replicate (10 - n.repr.length) '0') ++ n.repr

def redirectedText (text : String) (originalBytes originalTokens : ℕ)
    (artifactPath artifactSha256 : String) (maxBytes : ℕ) : Except Raised String :=
  let header :=
    "[FCC context governor: tool result redirected]\n" ++
    s!"original_bytes={originalBytes} visible_bytes=0000000000 " ++
    s!"original_tokens={originalTokens} " ++
    s!"artifact_sha256={artifactSha256} artifact_path={artifactPath}\n" ++
    "The complete redacted result is outside model context. Retrieve a " ++
    "bounded slice from artifact_path before relying on omitted content.\n" ++
    "--- excerpt begin ---\n"
  let footer := "\n--- excerpt end ---"
  let separator := "\n... omitted middle ...\n"
  let available : ℤ := maxBytes - (encode header).length - (encode footer).length
  if available ≤ (encode separator).length then
    .error (.conversion
      "FCC context-governor limit is too small for its explicit artifact locator")
  else
    let excerptBudget := available.toNat - (encode separator).length
    let headBudget := excerptBudget / 2
    let tailBudget := excerptBudget - headBudget
    let head := clipUtf8 text headBudget false
    let tail := clipUtf8 text tailBudget true
    let replacement := header ++ head ++ separator ++ tail ++ footer
    let visibleBytes := (encode replacement).length
    .ok (replace replacement "visible_bytes=0000000000"
      ("visible_bytes=" ++ tenDigits visibleBytes))

variable {σ : Type} (artifacts : Artifacts σ)

/-- The path and the digest of the artifact, which is now in place. -/
def writeArtifact (text : String) (s : σ) : Except Raised ((String × String) × σ) :=
  if (encode text).length > maxArtifactBytes then
    .error (.conversion ("tool result exceeds FCC's safe artifact limit; retrieve it in " ++
      "smaller bounded slices before retrying"))
  else (artifacts.store text s).map (artifacts.locate text, ·)

/-! ## What a tool result holds -/

/-- The text of a content that is nothing else. -/
def textOnlyItems : List Json → Option String
  | [] => some ""
  | block :: blocks =>
    if isText "text" (block.getD "type") then
      match block.getD "text" with
      | .str text => (textOnlyItems blocks).map (text ++ ·)
      | _ => none
    else none

def textOnlyContent : ResultContent → Option String
  | .str text => some text
  | .list items => textOnlyItems items
  | .dict _ => none

def isMediaBlockType (blockType : Json) : Bool :=
  ["audio", "document", "image", "video"].any (isText · blockType)

mutual

def containsMediaContent : Json → Except Raised Bool
  | .obj fields => do
    hashable ((fields.lookup "type").getD .null)
    if isMediaBlockType ((fields.lookup "type").getD .null) then return true
    containsMediaFields fields
  | .arr items => containsMediaItems items
  | _ => .ok false

def containsMediaItems : List Json → Except Raised Bool
  | [] => .ok false
  | item :: items => do
    if ← containsMediaContent item then return true
    containsMediaItems items

def containsMediaFields : List (String × Json) → Except Raised Bool
  | [] => .ok false
  | (_, value) :: fields => do
    if ← containsMediaContent value then return true
    containsMediaFields fields

end

/-- `normalize_tool_result_content` of a content. -/
def normalizedContent : ResultContent → ResultContent
  | .dict fields =>
    match normalizedToolResultContent (.obj fields) with
    | some (.arr items) => .list items
    | _ => .dict fields
  | content => content

/-- The direct texts of a content; there are none if an item is neither a text nor a media block
nor metadata of a tool search. -/
def directTexts : List Json → Except Raised (Option (List String))
  | [] => .ok (some [])
  | item :: items => do
    let itemType := item.getD "type"
    if isText "text" itemType then
      match item.getD "text" with
      | .str text => return (← directTexts items).map (text :: ·)
      | _ => return none
    else if isMediaBlockType itemType then directTexts items
    else if ← isToolSearchMetadataBlock item then directTexts items
    else return none

/-- The item of a dictionary in its place. -/
def setField (key : String) (value : Json) : List (String × Json) → List (String × Json)
  | [] => [(key, value)]
  | (k, v) :: fields =>
    if k = key then (k, value) :: fields else (k, v) :: setField key value fields

def copyTextBlock (block : Json) (text : String) : Json :=
  match block with
  | .obj fields => .obj (setField "text" (.str text) fields)
  | _ => block

/-- The first text is replaced, the later ones are dropped. -/
def replaceTexts (replacement : String) : Bool → List Json → List Json
  | _, [] => []
  | inserted, item :: items =>
    if isText "text" (item.getD "type") then
      if inserted then replaceTexts replacement true items
      else copyTextBlock item replacement :: replaceTexts replacement true items
    else item :: replaceTexts replacement inserted items

/-! ## The walk -/

variable (config : ContextGovernorConfig)

/-- The redirection of a text, with its record, which the walk and
`_govern_mixed_media_text` spell out each. -/
def redirect (toolUseId text pressureMode semanticVerification : String) (s : σ) :
    Except Raised ((String × ContextGovernanceRecord) × σ) := do
  let originalBytes := (encode text).length
  let artifactText := artifacts.redactSensitiveErrorText text
  let (artifact, s) ← writeArtifact artifacts artifactText s
  let replacement ← redirectedText artifactText originalBytes (estimatedTokens text) artifact.1
    artifact.2 config.toolResultMaxBytes
  return ((replacement,
    { toolUseId := toolUseId
      originalBytes := originalBytes
      visibleBytes := (encode replacement).length
      originalTokens := estimatedTokens text
      visibleTokens := estimatedTokens replacement
      originalLines := estimatedLines text
      visibleLines := estimatedLines replacement
      artifactPath := artifact.1
      artifactSha256 := artifact.2
      pressureMode := pressureMode
      semanticVerification := semanticVerification }), s)

def governMixedMediaText (toolUseId : String) (content : ResultContent) (s : σ) :
    Except Raised (Option (List Json × ContextGovernanceRecord) × σ) :=
  match content with
  | .list items => do
    match ← directTexts items with
    | none => return (none, s)
    | some texts =>
      let text := String.join texts
      if texts = [] ∨ (encode text).length ≤ config.toolResultMaxBytes then return (none, s)
      let (redirected, s) ← redirect artifacts config toolUseId text "mixed_media_text_redirected"
        "text_only_preserved_media" s
      return (some (replaceTexts redirected.1 false items, redirected.2), s)
  | _ => return (none, s)

-- `json.dumps` with `ensure_ascii=False` and no spaces
variable (dumps : Json → String)

def serializedSize : ResultContent → ℕ
  | .str text => (encode text).length
  | content => (encode (dumps content.toJson)).length

/-- The walk at one tool result. -/
def governToolResult (result : ToolResult) (s : σ) :
    Except Raised ((ToolResult × List ContextGovernanceRecord) × σ) := do
  let content := normalizedContent result.content
  match textOnlyContent content with
  | none =>
    if ← (if config.preserveMedia then containsMediaContent content.toJson else .ok false) then
      let (mixedMedia, s) ← governMixedMediaText artifacts config result.toolUseId content s
      match mixedMedia with
      | some (items, record) => return (({ result with content := .list items }, [record]), s)
      | none => return (({ result with content := content }, []), s)
    else if serializedSize dumps content > config.toolResultMaxBytes then
      throw (.conversion (s!"tool result for {Json.reprString result.toolUseId} exceeds the " ++
        "context-governor limit, but contains structured or media state that FCC will " ++
        "not truncate; retrieve a bounded text slice or disable the governor explicitly"))
    else return (({ result with content := content }, []), s)
  | some text =>
    if (encode text).length ≤ config.toolResultMaxBytes then
      return (({ result with content := content }, []), s)
    else
      let (redirected, s) ← redirect artifacts config result.toolUseId text
        "tool_result_redirected" "text_only" s
      return (({ result with content := .str redirected.1 }, [redirected.2]), s)

def governBlocks : List Block → σ → Except Raised ((List Block × List ContextGovernanceRecord) × σ)
  | [], s => .ok (([], []), s)
  | .other fields :: blocks, s => do
    let (governed, s) ← governBlocks blocks s
    return ((.other fields :: governed.1, governed.2), s)
  | .toolResult result :: blocks, s => do
    let (first, s) ← governToolResult artifacts config dumps result s
    let (governed, s) ← governBlocks blocks s
    return ((.toolResult first.1 :: governed.1, first.2 ++ governed.2), s)

def governMessages :
    List Message → σ → Except Raised ((List Message × List ContextGovernanceRecord) × σ)
  | [], s => .ok (([], []), s)
  | message :: messages, s =>
    match message.content with
    | .text _ => do
      let (governed, s) ← governMessages messages s
      return ((message :: governed.1, governed.2), s)
    | .blocks blocks => do
      let (first, s) ← governBlocks artifacts config dumps blocks s
      let (governed, s) ← governMessages messages s
      return (({ message with content := .blocks first.1 } :: governed.1,
        first.2 ++ governed.2), s)

variable {ρ τ : Type}

def governMessagesRequest (request : MessagesRequest ρ) (s : σ) :
    Except Raised (Governed (MessagesRequest ρ) × σ) :=
  if config.enabled then do
    let (governed, s) ← governMessages artifacts config dumps request.messages s
    return ({ request := { request with messages := governed.1 }, records := governed.2 }, s)
  else .ok ({ request := request }, s)

/-- `validate` is `MessagesRequest.model_validate` of what `model_dump` gives. -/
def governTokenCountRequest (validate : TokenCountRequest τ → Except Raised (MessagesRequest ρ))
    (request : TokenCountRequest τ) (s : σ) :
    Except Raised (Governed (TokenCountRequest τ) × σ) := do
  let messageRequest ← validate request
  let (governed, s) ← governMessagesRequest artifacts config dumps messageRequest s
  return ({ request := { request with messages := governed.request.messages },
            records := governed.records }, s)

end Switchboard.Core.ContextGovernor
