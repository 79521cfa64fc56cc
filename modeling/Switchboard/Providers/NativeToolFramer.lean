import Switchboard.Library.Except
import Switchboard.Library.Text
import Switchboard.Library.TextSearch

/-!
# The framer of native tool calls

`providers/nvidia_nim/native_tool_stream.py`: MiniMax-M3 writes a tool call into its text, between
two markers. The framer lets the text before the markers through and keeps what is between them,
however the text is cut.
-/

namespace Switchboard.Providers.NativeToolFramer

open Switchboard.Text Switchboard.TextSearch

def markerNamespace : List Char := "]<]minimax[>[".toList

def toolBlockStart : List Char := markerNamespace ++ "<tool_call>".toList

def toolBlockEnd : List Char := markerNamespace ++ "</tool_call>".toList

def maxNativeToolBlockChars : ℕ := 4 * 1024 * 1024

/-- A `NimNativeToolProtocolError`, or a `RuntimeError`. -/
inductive FramerError
  | protocol (message : String)
  | runtime (message : String)
  deriving DecidableEq

inductive FramingMode
  | text
  | toolBlock
  | afterToolBlock
  | finished
  deriving DecidableEq

/-- The block never grows over its limit: the fragment that would is refused. -/
structure MiniMaxM3ToolFramer where
  mode : FramingMode := .text
  textTail : List Char := []
  toolTail : List Char := []
  toolParts : List (List Char) := []
  toolLength : ℕ := 0
  toolBlock : Option (List Char) := none
  bounded : toolLength ≤ maxNativeToolBlockChars := by decide

/-- The loop of `_partial_marker_suffix_length`, from the longest end that can be part of the
marker. -/
def partialSuffixFrom (text marker : List Char) : ℕ → ℕ
  | 0 => 0
  | n + 1 =>
    if (text.drop (text.length - (n + 1))).isPrefixOf marker then n + 1
    else partialSuffixFrom text marker n

def partialMarkerSuffixLength (text marker : List Char) : ℕ :=
  partialSuffixFrom text marker (min text.length (marker.length - 1))

namespace MiniMaxM3ToolFramer

variable (s : MiniMaxM3ToolFramer)

def appendToolFragment (fragment : List Char) : Except FramerError MiniMaxM3ToolFramer :=
  if fragment = [] then .ok s
  else if h : s.toolLength + fragment.length ≤ maxNativeToolBlockChars then
    .ok { s with
      toolLength := s.toolLength + fragment.length
      toolParts := s.toolParts ++ [fragment]
      bounded := h }
  else .error (.protocol "NVIDIA NIM returned an oversized native MiniMax tool call.")

def validateTrailingText (text : List Char) : Except FramerError Unit :=
  if stripped isSpace text = [] then .ok ()
  else .error (.protocol "NVIDIA NIM returned content after a native MiniMax tool call.")

def feedToolBlock (text : List Char) : Except FramerError MiniMaxM3ToolFramer :=
  let candidate := s.toolTail ++ text
  match find toolBlockEnd candidate with
  | none =>
    let heldLength := partialMarkerSuffixLength candidate toolBlockEnd
    if heldLength ≠ 0 then do
      let s ← s.appendToolFragment (candidate.take (candidate.length - heldLength))
      return { s with toolTail := candidate.drop (candidate.length - heldLength) }
    else do
      let s ← s.appendToolFragment candidate
      return { s with toolTail := [] }
  | some markerIndex => do
    let s ← s.appendToolFragment (candidate.take markerIndex)
    validateTrailingText (candidate.drop (markerIndex + toolBlockEnd.length))
    return { s with
      toolBlock := some s.toolParts.flatten
      toolParts := []
      toolTail := []
      mode := .afterToolBlock }

def feed (text : List Char) : Except FramerError (List Char × MiniMaxM3ToolFramer) :=
  if s.mode = .finished then
    .error (.runtime "MiniMax-M3 tool framer is already finished")
  else if text = [] then .ok ([], s)
  else if s.mode = .toolBlock then do
    let s ← s.feedToolBlock text
    return ([], s)
  else if s.mode = .afterToolBlock then do
    validateTrailingText text
    return ([], s)
  else
    let candidate := s.textTail ++ text
    let markerIndex := find toolBlockStart candidate
    let heldLength := partialMarkerSuffixLength candidate toolBlockStart
    let protectedNamespaceIndex :=
      match markerIndex with
      | some i => some i
      | none => if heldLength ≠ 0 then some (candidate.length - heldLength) else none
    let namespaceIndex := find markerNamespace candidate
    if namespaceIndex ≠ none ∧ namespaceIndex ≠ protectedNamespaceIndex then
      .error (.protocol "NVIDIA NIM returned malformed native MiniMax tool markup.")
    else
      match markerIndex with
      | some i => do
        let s := { s with textTail := [], mode := .toolBlock }
        let s ← s.feedToolBlock (candidate.drop (i + toolBlockStart.length))
        return (candidate.take i, s)
      | none =>
        if heldLength ≠ 0 then
          .ok (candidate.take (candidate.length - heldLength),
            { s with textTail := candidate.drop (candidate.length - heldLength) })
        else .ok (candidate, { s with textTail := [] })

def finish (requireComplete : Bool) : Except FramerError (List Char × MiniMaxM3ToolFramer) :=
  match s.mode with
  | .finished => .ok ([], s)
  | .text =>
    let finished := { s with textTail := [], mode := .finished }
    if (find markerNamespace s.textTail).isSome then
      if requireComplete then
        .error (.protocol "NVIDIA NIM returned an incomplete native MiniMax tool marker.")
      else .ok ([], finished)
    else .ok (s.textTail, finished)
  | .toolBlock =>
    if requireComplete then
      .error (.protocol "NVIDIA NIM returned an incomplete native MiniMax tool call.")
    else .ok ([], { s with toolParts := [], toolTail := [], mode := .finished })
  | .afterToolBlock => .ok ([], { s with toolParts := [], toolTail := [], mode := .finished })

/-- The chunks of a stream. -/
def feedAll : MiniMaxM3ToolFramer → List (List Char) →
    Except FramerError (List Char × MiniMaxM3ToolFramer)
  | s, [] => .ok ([], s)
  | s, chunk :: chunks => do
    let first ← s.feed chunk
    let rest ← feedAll first.2 chunks
    return (first.1 ++ rest.1, rest.2)

/-- A whole stream: the visible text and the tool block. -/
def frame (requireComplete : Bool) (chunks : List (List Char)) :
    Except FramerError (List Char × Option (List Char)) := do
  let fed ← feedAll {} chunks
  let last ← fed.2.finish requireComplete
  return (fed.1 ++ last.1, last.2.toolBlock)

end MiniMaxM3ToolFramer

end Switchboard.Providers.NativeToolFramer
