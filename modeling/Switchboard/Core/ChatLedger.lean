import Mathlib
import Switchboard.Core.ChatConversion
import Switchboard.Library.Dict

/-!
# The order of a converted history

The ledger keeps the segments of a history until the results of their tool calls are
there. `convertMessages` fills it, and then closes tool turns and joins user messages.
-/

namespace Switchboard.Core.Anthropic

open Switchboard.Text

structure Ledger where
  output : List ChatMessage := []
  segments : List TranscriptSegment := []
  toolResults : Dict String ChatToolResult := Dict.empty

def ToolTurn.emitted (turn : ToolTurn) (output : List ChatMessage) : List ChatMessage :=
  if turn.assistantEmitted then output else output ++ [turn.assistantMessage]

/-- The results of a turn are taken out one after the other. -/
def popResults (toolResults : Dict String ChatToolResult) :
    List String → Except Raised (List ChatToolResult × Dict String ChatToolResult)
  | [] => .ok ([], toolResults)
  | id :: ids =>
    match toolResults.get? id with
    | none => .error (.keyError id)
    | some result => do
      let (results, left) ← popResults (toolResults.erase id) ids
      return (result :: results, left)

def resultMessages (results : List ChatToolResult) : List ChatMessage :=
  results.map ChatToolResult.message ++ results.flatMap ChatToolResult.observationMessages

variable (ext : Externals)

/-- The loop of `_drain_ready_segments`. -/
def drainSegments (output : List ChatMessage) (toolResults : Dict String ChatToolResult) :
    List TranscriptSegment → Except Raised Ledger
  | [] => .ok ⟨output, [], toolResults⟩
  | .plain messages :: segments => drainSegments (output ++ messages) toolResults segments
  | .toolTurn turn :: segments =>
    if turn.requiredToolIds.all toolResults.contains then do
      let (results, left) ← popResults toolResults turn.requiredToolIds
      let deferred ← turn.deferredMessages ext
      drainSegments (turn.emitted output ++ resultMessages results ++ deferred) left segments
    else
      .ok ⟨turn.emitted output, .toolTurn { turn with assistantEmitted := true } :: segments,
        toolResults⟩

namespace Ledger

def drainReadySegments (ledger : Ledger) : Except Raised Ledger :=
  drainSegments ext ledger.output ledger.toolResults ledger.segments

def addSegment (ledger : Ledger) (segment : TranscriptSegment) : Except Raised Ledger :=
  drainReadySegments ext { ledger with segments := ledger.segments ++ [segment] }

/-- `add_plain` -/
def addPlain (ledger : Ledger) (messages : List ChatMessage) : Except Raised Ledger :=
  if messages.isEmpty then .ok ledger else ledger.addSegment ext (.plain messages)

/-- One segment of `convert_messages`, through `add_plain` or `add_tool_turn`. -/
def addTranscriptSegment (ledger : Ledger) : TranscriptSegment → Except Raised Ledger
  | .plain messages => ledger.addPlain ext messages
  | .toolTurn turn => ledger.addSegment ext (.toolTurn turn)

/-- `_has_pending_tool_id` -/
def hasPendingToolId (ledger : Ledger) (toolId : String) : Bool :=
  ledger.segments.any fun segment => match segment with
    | .plain _ => false
    | .toolTurn turn => toolId ∈ turn.requiredToolIds

/-- `_add_text_blocks`, which leaves the list of blocks empty. -/
def addTextBlocks (ledger : Ledger) (blocks : List ContentBlock) : Except Raised Ledger :=
  if blocks.isEmpty then .ok ledger
  else do
    let messages ← convertUserMessage ext blocks
    ledger.addPlain ext messages

/-- `_record_tool_result` -/
def recordToolResult (ledger : Ledger) (toolUseId : String) (content : ResultContent) :
    Except Raised Ledger :=
  if toolUseId = "" then do
    let messages ← convertUserMessage ext [.toolResult toolUseId content]
    ledger.addPlain ext messages
  else do
    let result ← openaiChatToolResult ext toolUseId content
    if ledger.hasPendingToolId toolUseId then
      if ledger.toolResults.contains toolUseId then
        throw (.conversion
          s!"duplicate tool_result for tool_use id {Json.reprString toolUseId}")
      return { ledger with toolResults := ledger.toolResults.set toolUseId result }
    else ledger.addPlain ext (result.message :: result.observationMessages)

/-- The loop of `add_user_blocks`, with the blocks between two results. -/
def addUserBlocksFrom (ledger : Ledger) (textBlocks : List ContentBlock) :
    List ContentBlock → Except Raised Ledger
  | [] => do
    let ledger ← ledger.addTextBlocks ext textBlocks
    ledger.drainReadySegments ext
  | .toolResult toolUseId content :: blocks => do
    let ledger ← ledger.addTextBlocks ext textBlocks
    let ledger ← ledger.recordToolResult ext toolUseId content
    ledger.addUserBlocksFrom [] blocks
  | block :: blocks => ledger.addUserBlocksFrom (textBlocks ++ [block]) blocks

def addUserBlocks (ledger : Ledger) (blocks : List ContentBlock) : Except Raised Ledger :=
  ledger.addUserBlocksFrom ext [] blocks

def missingRequiredToolIds (ledger : Ledger) : List String :=
  ledger.segments.flatMap fun segment => match segment with
    | .plain _ => []
    | .toolTurn turn => turn.requiredToolIds.filter fun id => !ledger.toolResults.contains id

/-- The results of a turn that are there, taken out. -/
def takeResults (toolResults : Dict String ChatToolResult) :
    List String → List ChatToolResult × Dict String ChatToolResult
  | [] => ([], toolResults)
  | id :: ids =>
    let (results, left) := takeResults (toolResults.erase id) ids
    ((toolResults.get? id).toList ++ results, left)

/-- The loop at the end of `finish`. -/
def emitSegments (output : List ChatMessage) (toolResults : Dict String ChatToolResult) :
    List TranscriptSegment → Except Raised (List ChatMessage)
  | [] => .ok output
  | .plain messages :: segments => emitSegments (output ++ messages) toolResults segments
  | .toolTurn turn :: segments => do
    let (results, left) := takeResults toolResults turn.requiredToolIds
    let deferred ← turn.deferredMessages ext
    emitSegments (turn.emitted output ++ resultMessages results ++ deferred) left segments

def finish (ledger : Ledger) : Except Raised (List ChatMessage) := do
  let ledger ← ledger.drainReadySegments ext
  let missing := ledger.missingRequiredToolIds
  if missing ≠ [] then
    throw (.conversion ("OpenAI chat conversion cannot replay incomplete tool history; " ++
      s!"missing tool_result blocks for tool_use ids: {(Json.arr (missing.map Json.str)).repr}"))
  emitSegments ext ledger.output ledger.toolResults ledger.segments

end Ledger

/-! ## The end of the conversion -/

/-- One round of `_close_openai_tool_result_turns`. -/
def closeTurn (result : List ChatMessage) (message : ChatMessage) : List ChatMessage :=
  match message, result.getLast? with
  | .user content, some (.tool _ _) => result ++ [.boundary, .user content]
  | message, _ => result ++ [message]

def closeOpenaiToolResultTurns (messages : List ChatMessage) : List ChatMessage :=
  messages.foldl closeTurn []

def UserContent.toParts : UserContent → List ContentPart
  | .str text => [.text text]
  | .parts items => items

/-- Two lists of parts; a text at the end of the first and one at the start of the second
become one. -/
def joinParts (first second : List ContentPart) : List ContentPart :=
  match first.getLast?, second with
  | some (.text a), .text b :: rest => first.dropLast ++ .text (a ++ "\n\n" ++ b) :: rest
  | _, _ => first ++ second

def mergeUserContent : UserContent → UserContent → UserContent
  | .str a, .str b => .str (a ++ "\n\n" ++ b)
  | first, second => .parts (joinParts first.toParts second.toParts)

/-- One round of `_coalesce_openai_user_messages`. -/
def coalesceUser (result : List ChatMessage) (message : ChatMessage) : List ChatMessage :=
  match message, result.getLast? with
  | .user content, some (.user previous) =>
    result.dropLast ++ [.user (mergeUserContent previous content)]
  | message, _ => result ++ [message]

def coalesceOpenaiUserMessages (messages : List ChatMessage) : List ChatMessage :=
  messages.foldl coalesceUser []

/-- One round of the loop of `convert_messages`. -/
def addMessage (mode : ReasoningReplayMode) (ledger : Ledger) (message : Message) :
    Except Raised Ledger :=
  match message.role, message.content with
  | .user, .list blocks => ledger.addUserBlocks ext blocks
  | _, _ => do
    let segment ← convertMessageToSegment ext message mode
    ledger.addTranscriptSegment ext segment

def convertMessages (messages : List Message) (mode : ReasoningReplayMode) :
    Except Raised (List ChatMessage) := do
  let ledger ← messages.foldlM (addMessage ext mode) {}
  let ordered ← ledger.finish ext
  return coalesceOpenaiUserMessages (closeOpenaiToolResultTurns ordered)

end Switchboard.Core.Anthropic
