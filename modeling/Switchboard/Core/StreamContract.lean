import Mathlib
import Switchboard.Library.Dict
import Switchboard.Library.Json
import Switchboard.Library.Monitor
import Switchboard.Library.Text

/-!
# The contract of an Anthropic stream

The checker of `core/anthropic/stream_contracts.py` as a monitor that reads one event at a time,
and what else that file reads off a stream.
-/

namespace Switchboard.Core.AnthropicStream

open Text

/-- An event, decoded; the raw text is left out. -/
structure SSEEvent where
  event : String
  data : Json

/-- The assertions of the checker, and the lookup that fails for a kind it does not know. -/
inductive Violation
  | noEvents
  | noMessageStart
  | notTerminal (name : String)
  | errorEvent
  | noIndex
  | noBlock
  | blockType (name : String)
  | startedTwice (index : ℤ)
  | reused (index : ℤ)
  | deltaUnopened (index : ℤ)
  | startStopOnly (index : ℤ) (kind : String)
  | noDelta
  | deltaType (index : ℤ) (kind name : String)
  | unknownKind (kind : String)
  | stopUnopened (index : ℤ)
  | unclosed
  | noBlocks
deriving DecidableEq

/-- The blocks that are open, with their kinds, and all that were started. -/
structure ContractState where
  openBlocks : Dict ℤ String := .empty
  seenBlocks : Finset ℤ := ∅

def noDeltaBlockKinds : List String :=
  ["server_tool_use", "web_search_tool_result", "web_fetch_tool_result", "text_eager",
    "redacted_thinking"]

def allowedBlockStartTypes : List String :=
  ["text", "thinking", "tool_use", "redacted_thinking", "server_tool_use",
    "web_search_tool_result", "web_fetch_tool_result"]

/-- `data.get(key, {})` -/
def field (data : Json) (key : String) : Json := (data.get? key).getD (.obj [])

/-- `str(data.get(key, ""))` -/
def fieldText (data : Json) (key : String) : String := ((data.get? key).getD (.str "")).toStr

/-- `event_index`; a boolean is an integer. -/
def eventIndex (event : SSEEvent) : Except Violation ℤ :=
  match event.data.get? "index" with
  | some (.int n) => .ok n
  | some (.bool b) => .ok (if b then 1 else 0)
  | _ => .error .noIndex

/-- How the checker keeps a block of a type. -/
def storage (blockType : String) (block : Json) : String :=
  if blockType = "text" && !(stripped isSpace (fieldText block "text").toList).isEmpty then
    "text_eager"
  else blockType

def checkStart (s : ContractState) (event : SSEEvent) : Except Violation ContractState :=
  (eventIndex event).bind fun index =>
    match field event.data "content_block" with
    | .obj fields =>
      let blockType := fieldText (.obj fields) "type"
      if !allowedBlockStartTypes.contains blockType then .error (.blockType blockType)
      else if (s.openBlocks.get? index).isSome then .error (.startedTwice index)
      else if index ∈ s.seenBlocks then .error (.reused index)
      else
        .ok ⟨s.openBlocks.set index (storage blockType (.obj fields)), insert index s.seenBlocks⟩
    | _ => .error .noBlock

/-- The deltas of the kinds that have one type of delta. -/
def expectedDelta : List (String × String) :=
  [("text", "text_delta"), ("tool_use", "input_json_delta")]

def checkDelta (s : ContractState) (event : SSEEvent) : Except Violation ContractState :=
  (eventIndex event).bind fun index =>
    match s.openBlocks.get? index with
    | none => .error (.deltaUnopened index)
    | some kind =>
      if noDeltaBlockKinds.contains kind then .error (.startStopOnly index kind)
      else
        match field event.data "delta" with
        | .obj fields =>
          let deltaType := fieldText (.obj fields) "type"
          if kind = "thinking" then
            if deltaType = "thinking_delta" || deltaType = "signature_delta" then .ok s
            else .error (.deltaType index kind deltaType)
          else
            match expectedDelta.lookup kind with
            | none => .error (.unknownKind kind)
            | some expected =>
              if deltaType = expected then .ok s else .error (.deltaType index kind deltaType)
        | _ => .error .noDelta

def checkStop (s : ContractState) (event : SSEEvent) : Except Violation ContractState :=
  (eventIndex event).bind fun index =>
    if (s.openBlocks.get? index).isSome then
      .ok ⟨s.openBlocks.erase index, s.seenBlocks⟩
    else .error (.stopUnopened index)

/-- The body of the checker's loop. -/
def checkEvent (allowError : Bool) (s : ContractState) (event : SSEEvent) :
    Except Violation ContractState :=
  if event.event = "error" && !allowError then .error .errorEvent
  else if event.event = "content_block_start" then checkStart s event
  else if event.event = "content_block_delta" then checkDelta s event
  else if event.event = "content_block_stop" then checkStop s event
  else .ok s

def checkEvents (allowError : Bool) (events : List SSEEvent) : Except Violation ContractState :=
  Monitor.watch (checkEvent allowError) {} events

def assertAnthropicStreamContract (events : List SSEEvent) (allowError : Bool := false) :
    Except Violation Unit := do
  match events.getLast? with
  | none => throw .noEvents
  | some last =>
    if !(events.map SSEEvent.event).contains "message_start" then throw .noMessageStart
    if !(last.event = "message_stop" || (allowError && last.event = "error")) then
      throw (.notTerminal last.event)
    let s ← checkEvents allowError events
    if !s.openBlocks.entries.isEmpty then throw .unclosed
    if s.seenBlocks = ∅ then throw .noBlocks

/-- A field `type` that is this text. -/
def hasType (data : Json) (name : String) : Bool :=
  match data.get? "type" with
  | some (.str s) => s = name
  | _ => false

/-- What an event gives to the text of a stream. -/
def textPiece (event : SSEEvent) : String :=
  let block := field event.data "content_block"
  let delta := field event.data "delta"
  (if event.event = "content_block_start" && hasType block "text" then fieldText block "text"
    else "") ++ if hasType delta "text_delta" then fieldText delta "text" else ""

def textContent (events : List SSEEvent) : String := String.join (events.map textPiece)

def thinkingPiece (event : SSEEvent) : String :=
  let delta := field event.data "delta"
  if hasType delta "thinking_delta" then fieldText delta "thinking" else ""

def thinkingContent (events : List SSEEvent) : String := String.join (events.map thinkingPiece)

def hasToolUse (events : List SSEEvent) : Bool :=
  events.any fun event => hasType (field event.data "content_block") "tool_use"

end Switchboard.Core.AnthropicStream
