import Mathlib
import Switchboard.Core.ChatEntries

/-!
# The grammar of a converted history

A chat history in which every assistant message with calls is followed by its results, and
in which no user message follows a tool message or another user message.
-/

namespace Switchboard.Core.Anthropic

open Switchboard.Text

/-- The results of the calls of an assistant message, in their order. -/
def Answers (toolCalls : List ToolCall) (answers : List ChatMessage) : Prop :=
  List.Forall₂ (fun call answer => ∃ text, answer = .tool call.id text) toolCalls answers

/-- A message outside of a tool turn. -/
def Loose (stray : ChatMessage → Prop) : ChatMessage → Prop
  | .tool toolCallId content => stray (.tool toolCallId content)
  | .assistant _ toolCalls _ => toolCalls = []
  | .user _ | .boundary => True

/-- Tool turns and loose messages, up to the last message. -/
inductive Grammar (stray : ChatMessage → Prop) : List ChatMessage → Prop
  | nil : Grammar stray []
  | loose {chat message} : Grammar stray chat → Loose stray message →
      Grammar stray (chat ++ [message])
  | turn {chat content toolCalls reasoning answers} : Grammar stray chat → toolCalls ≠ [] →
      Answers toolCalls answers →
      Grammar stray (chat ++ .assistant content toolCalls reasoning :: answers)

def ChatMessage.isUser : ChatMessage → Bool
  | .user _ => true
  | _ => false

def ChatMessage.isTool : ChatMessage → Bool
  | .tool _ _ => true
  | _ => false

/-- A user message does not follow a tool message. -/
def AfterTool (previous message : ChatMessage) : Prop :=
  message.isUser = true → previous.isTool = false

/-- A user message follows neither a tool message nor a user message. -/
def Follows (previous message : ChatMessage) : Prop :=
  message.isUser = true → previous.isTool = false ∧ previous.isUser = false

variable {stray : ChatMessage → Prop} {chat : List ChatMessage}

theorem Grammar.append (h : Grammar stray chat) {messages : List ChatMessage}
    (hmessages : ∀ message ∈ messages, Loose stray message) : Grammar stray (chat ++ messages) := by
  induction messages generalizing chat with
  | nil => simpa using h
  | cons message messages ih =>
    rw [List.append_cons]
    exact ih (h.loose (hmessages message List.mem_cons_self))
      fun other hother => hmessages other (List.mem_cons_of_mem _ hother)

theorem Loose.user {message : ChatMessage} (h : message.isUser = true) : Loose stray message := by
  cases message with
  | user content => trivial
  | _ => cases h

theorem Answers.isTool {toolCalls : List ToolCall} {answers : List ChatMessage}
    (h : Answers toolCalls answers) : ∀ answer ∈ answers, answer.isTool = true := by
  induction h with
  | nil => simp
  | cons hhead _ ih =>
    obtain ⟨text, rfl⟩ := hhead
    exact List.forall_mem_cons.mpr ⟨rfl, ih⟩

/-- A turn ends in a tool message. -/
theorem Answers.last {toolCalls : List ToolCall} {answers : List ChatMessage}
    (h : Answers toolCalls answers) (hcalls : toolCalls ≠ []) :
    ∃ others last, answers = others ++ [last] ∧ last.isTool = true := by
  have hlength := List.Forall₂.length_eq h
  rcases List.eq_nil_or_concat answers with rfl | ⟨others, last, rfl⟩
  · exact absurd (List.length_eq_zero_iff.mp hlength) hcalls
  · exact ⟨others, last, List.concat_eq_append, h.isTool last (by simp)⟩

/-- A user message at the end is no part of a turn. -/
theorem Grammar.of_user {content : UserContent} (h : Grammar stray (chat ++ [.user content])) :
    Grammar stray chat := by
  generalize hlong : chat ++ [.user content] = long at h
  cases h with
  | nil => simp at hlong
  | loose hchat hmessage =>
    obtain ⟨rfl, -⟩ := List.append_inj' hlong rfl
    exact hchat
  | @turn before content' toolCalls reasoning answers hchat hcalls hanswers =>
    obtain ⟨others, last, rfl, hlast⟩ := hanswers.last hcalls
    rw [← List.cons_append, ← List.append_assoc] at hlong
    obtain ⟨-, hsame⟩ := List.append_inj' hlong rfl
    rw [← List.singleton_inj.mp hsame] at hlast
    cases hlast

/-- A tool message alone is stray. -/
theorem Grammar.stray_of_tool {toolCallId text : String}
    (h : Grammar stray [.tool toolCallId text]) : stray (.tool toolCallId text) := by
  generalize hsingle : [ChatMessage.tool toolCallId text] = chat at h
  cases h with
  | nil => cases hsingle
  | @loose before message hchat hmessage =>
    rw [← List.nil_append [ChatMessage.tool toolCallId text]] at hsingle
    obtain ⟨-, hsame⟩ := List.append_inj' hsingle rfl
    rw [← List.singleton_inj.mp hsame] at hmessage
    exact hmessage
  | @turn before content toolCalls reasoning answers hchat hcalls hanswers =>
    obtain ⟨others, last, rfl, -⟩ := hanswers.last hcalls
    have hlength := congrArg List.length hsingle
    simp at hlength
    omega

/-! ## The end of the conversion -/

def endsInTool (chat : List ChatMessage) : Bool := chat.getLast?.any ChatMessage.isTool

theorem endsInTool_append (chat : List ChatMessage) (message : ChatMessage) :
    endsInTool (chat ++ [message]) = message.isTool := by
  simp [endsInTool]

theorem endsInTool_of_afterTool {content : UserContent}
    (h : (chat ++ [ChatMessage.user content]).IsChain AfterTool) : endsInTool chat = false := by
  unfold endsInTool
  cases hlast : chat.getLast? with
  | none => rfl
  | some last => exact (List.isChain_append.mp h).2.2 last hlast _ rfl rfl

/-- One message more, if it may follow the last one. -/
theorem isChain_append_singleton {R : ChatMessage → ChatMessage → Prop} {message : ChatMessage}
    (h : chat.IsChain R) (hlast : ∀ last ∈ chat.getLast?, R last message) :
    (chat ++ [message]).IsChain R :=
  h.append (.singleton message) fun last hmem other hother => by
    obtain rfl := Option.some.inj hother
    exact hlast last hmem

/-- A turn may follow anything, and nothing in it is from the user. -/
theorem isChain_append_turn {R : ChatMessage → ChatMessage → Prop}
    (hR : ∀ a b, b.isUser = false → R a b) {messages : List ChatMessage}
    (hmessages : ∀ message ∈ messages, message.isUser = false) (h : chat.IsChain R) :
    (chat ++ messages).IsChain R := by
  induction messages generalizing chat with
  | nil => simpa using h
  | cons message messages ih =>
    rw [List.append_cons]
    refine ih (fun other hother => hmessages other (List.mem_cons_of_mem _ hother)) ?_
    exact isChain_append_singleton h fun last _ =>
      hR last message (hmessages message List.mem_cons_self)

theorem turn_notUser {content : String} {toolCalls : List ToolCall}
    {reasoning : Option (String × String)} {answers : List ChatMessage}
    (h : Answers toolCalls answers) :
    ∀ message ∈ ChatMessage.assistant content toolCalls reasoning :: answers,
      message.isUser = false := by
  refine List.forall_mem_cons.mpr ⟨rfl, fun answer hanswer => ?_⟩
  have htool := h.isTool answer hanswer
  cases answer with
  | tool toolCallId text => rfl
  | _ => cases htool

theorem closeTurn_of_notUser {message : ChatMessage} (h : message.isUser = false) :
    closeTurn chat message = chat ++ [message] := by
  cases message with
  | user content => cases h
  | _ => rfl

theorem coalesceUser_of_notUser {message : ChatMessage} (h : message.isUser = false) :
    coalesceUser chat message = chat ++ [message] := by
  cases message with
  | user content => cases h
  | _ => rfl

theorem foldl_of_notUser {f : List ChatMessage → ChatMessage → List ChatMessage}
    (hf : ∀ chat message, message.isUser = false → f chat message = chat ++ [message])
    {messages : List ChatMessage} (h : ∀ message ∈ messages, message.isUser = false)
    (chat : List ChatMessage) : messages.foldl f chat = chat ++ messages := by
  induction messages generalizing chat with
  | nil => simp
  | cons message messages ih =>
    rw [List.foldl_cons, hf chat message (h message List.mem_cons_self),
      List.append_cons chat message messages]
    exact ih (fun other hother => h other (List.mem_cons_of_mem _ hother)) _

/-- A user message after a tool message gets a boundary before it. -/
theorem closeTurn_user (content : UserContent) :
    closeTurn chat (.user content) =
      chat ++ if endsInTool chat then [.boundary, .user content] else [.user content] := by
  unfold closeTurn endsInTool
  cases chat.getLast? with
  | none => rfl
  | some last => cases last <;> rfl

theorem close_grammar (h : Grammar stray chat) :
    Grammar stray (closeOpenaiToolResultTurns chat) ∧
      (closeOpenaiToolResultTurns chat).IsChain AfterTool := by
  unfold closeOpenaiToolResultTurns
  induction h with
  | nil => exact ⟨.nil, .nil⟩
  | @loose chat message _ hmessage ih =>
    rw [List.foldl_append, List.foldl_cons, List.foldl_nil]
    by_cases huser : message.isUser = true
    · cases message with
      | user content =>
        rw [closeTurn_user]
        split_ifs with htool
        · have hboundary : Grammar stray (chat.foldl closeTurn [] ++ [.boundary]) :=
            ih.1.loose trivial
          have hchain : (chat.foldl closeTurn [] ++ [ChatMessage.boundary]).IsChain AfterTool :=
            isChain_append_singleton ih.2 fun last _ h => by cases h
          rw [List.append_cons]
          exact ⟨hboundary.loose trivial,
            isChain_append_singleton hchain (by simp [AfterTool, ChatMessage.isTool])⟩
        · refine ⟨ih.1.loose trivial, isChain_append_singleton ih.2 fun last hlast _ => ?_⟩
          unfold endsInTool at htool
          rw [Option.mem_def.mp hlast] at htool
          simpa using htool
      | _ => cases huser
    · rw [Bool.not_eq_true] at huser
      rw [closeTurn_of_notUser huser]
      refine ⟨ih.1.loose hmessage, isChain_append_singleton ih.2 fun last _ h => ?_⟩
      rw [huser] at h
      cases h
  | @turn chat content toolCalls reasoning answers _ hcalls hanswers ih =>
    have hplain := @turn_notUser content _ reasoning _ hanswers
    rw [List.foldl_append, foldl_of_notUser (fun _ _ h => closeTurn_of_notUser h) hplain]
    refine ⟨ih.1.turn hcalls hanswers, isChain_append_turn ?_ hplain ih.2⟩
    intro a b hb h
    rw [hb] at h
    cases h

/-- A user message joins the one before it. -/
theorem coalesceUser_user (content : UserContent) :
    (∃ before previous, chat = before ++ [.user previous] ∧
        coalesceUser chat (.user content) = before ++ [.user (mergeUserContent previous content)]) ∨
      (∀ last ∈ chat.getLast?, last.isUser = false) ∧
        coalesceUser chat (.user content) = chat ++ [.user content] := by
  unfold coalesceUser
  rcases List.eq_nil_or_concat chat with rfl | ⟨before, last, rfl⟩
  · exact .inr ⟨by simp, rfl⟩
  · rw [List.concat_eq_append, List.getLast?_concat, List.dropLast_concat]
    cases last with
    | user previous => exact .inl ⟨before, previous, rfl, rfl⟩
    | _ => exact .inr ⟨by simp [ChatMessage.isUser], rfl⟩

theorem coalesce_grammar (h : Grammar stray chat) (hchain : chat.IsChain AfterTool) :
    Grammar stray (coalesceOpenaiUserMessages chat) ∧
      (coalesceOpenaiUserMessages chat).IsChain Follows ∧
      endsInTool (coalesceOpenaiUserMessages chat) = endsInTool chat := by
  unfold coalesceOpenaiUserMessages
  induction h with
  | nil => exact ⟨.nil, .nil, rfl⟩
  | @loose chat message _ hmessage ih =>
    obtain ⟨hgrammar, hfollows, hends⟩ := ih hchain.left_of_append
    rw [List.foldl_append, List.foldl_cons, List.foldl_nil, endsInTool_append]
    by_cases huser : message.isUser = true
    · cases message with
      | user content =>
        rcases @coalesceUser_user (chat.foldl coalesceUser []) content with
          ⟨before, previous, hbefore, heq⟩ | ⟨hlast, heq⟩
        · rw [hbefore] at hgrammar hfollows
          rw [heq, endsInTool_append]
          refine ⟨hgrammar.of_user.loose trivial,
            isChain_append_singleton hfollows.left_of_append fun last hmem _ => ?_, rfl⟩
          exact (List.isChain_append.mp hfollows).2.2 last hmem _ rfl rfl
        · have hnot : endsInTool (chat.foldl coalesceUser []) = false := by
            rw [hends]
            exact endsInTool_of_afterTool hchain
          have hfollow : ∀ last ∈ (chat.foldl coalesceUser []).getLast?,
              Follows last (.user content) := by
            intro last hmem _
            unfold endsInTool at hnot
            rw [Option.mem_def.mp hmem] at hnot
            exact ⟨hnot, hlast last hmem⟩
          rw [heq, endsInTool_append]
          exact ⟨hgrammar.loose trivial, isChain_append_singleton hfollows hfollow, rfl⟩
      | _ => cases huser
    · rw [Bool.not_eq_true] at huser
      rw [coalesceUser_of_notUser huser, endsInTool_append]
      refine ⟨hgrammar.loose hmessage, isChain_append_singleton hfollows fun last _ h => ?_, rfl⟩
      rw [huser] at h
      cases h
  | @turn chat content toolCalls reasoning answers _ hcalls hanswers ih =>
    obtain ⟨hgrammar, hfollows, -⟩ := ih hchain.left_of_append
    have hplain := @turn_notUser content _ reasoning _ hanswers
    rw [List.foldl_append, foldl_of_notUser (fun _ _ h => coalesceUser_of_notUser h) hplain]
    obtain ⟨others, last, rfl, hlast⟩ := hanswers.last hcalls
    refine ⟨hgrammar.turn hcalls hanswers, isChain_append_turn ?_ hplain hfollows, ?_⟩
    · intro a b hb h
      rw [hb] at h
      cases h
    · rw [← List.cons_append, ← List.append_assoc, ← List.append_assoc, endsInTool_append,
        endsInTool_append]

/-! ## The ledger -/

variable {ext : Externals} {mode : ReasoningReplayMode}

/-- A turn is an assistant message with calls, and what is deferred is loose. -/
structure ToolTurn.WellFormed (ext : Externals) (stray : ChatMessage → Prop) (turn : ToolTurn) :
    Prop where
  called : ∃ content toolCalls reasoning,
    turn.assistantMessage = .assistant content toolCalls reasoning ∧ toolCalls ≠ [] ∧
      turn.requiredToolIds = toolCalls.map ToolCall.id
  deferred : ∀ messages, turn.deferredMessages ext = .ok messages →
    ∀ message ∈ messages, Loose stray message

/-- A result of the call, with observations from the user. -/
structure ChatToolResult.For (result : ChatToolResult) (id : String) : Prop where
  toolCallId : result.toolCallId = id
  observations : ∀ message ∈ result.observationMessages, message.isUser = true

/-- The output, up to the assistant message of a turn that waits for its results. -/
def Written (stray : ChatMessage → Prop) (output : List ChatMessage) :
    List TranscriptSegment → Prop
  | .toolTurn turn :: _ => ∃ before, Grammar stray before ∧
      turn.emitted output = before ++ [turn.assistantMessage]
  | _ => Grammar stray output

/-- What every entry keeps. -/
structure Orderly (ext : Externals) (stray : ChatMessage → Prop) (output : List ChatMessage)
    (segments : List TranscriptSegment) (toolResults : Dict String ChatToolResult) : Prop where
  turns : ∀ turn, .toolTurn turn ∈ segments → turn.WellFormed ext stray
  plain : ∀ messages, .plain messages ∈ segments → ∀ message ∈ messages, Loose stray message
  later : ∀ turn, .toolTurn turn ∈ segments.tail → turn.assistantEmitted = false
  written : Written stray output segments
  results : ∀ id result, toolResults.get? id = some result → result.For id

theorem answers_of_results {toolResults : Dict String ChatToolResult}
    (hresults : ∀ id result, toolResults.get? id = some result → result.For id)
    {toolCalls : List ToolCall}
    (hall : (toolCalls.map ToolCall.id).all toolResults.contains = true) :
    Answers toolCalls
      ((resultsOf toolResults (toolCalls.map ToolCall.id)).map ChatToolResult.message) := by
  induction toolCalls with
  | nil => exact .nil
  | cons call toolCalls ih =>
    rw [List.map_cons, List.all_cons, Bool.and_eq_true] at hall
    obtain ⟨result, hresult⟩ := Option.isSome_iff_exists.mp hall.1
    have hmessage : result.message = .tool call.id result.content := by
      rw [ChatToolResult.message, (hresults _ _ hresult).toolCallId]
    rw [List.map_cons, resultsOf, List.filterMap_cons_some hresult, List.map_cons]
    exact .cons ⟨_, hmessage⟩ (ih hall.2)

theorem observations_of_results {toolResults : Dict String ChatToolResult}
    (hresults : ∀ id result, toolResults.get? id = some result → result.For id)
    (ids : List String) : ∀ message ∈
      (resultsOf toolResults ids).flatMap ChatToolResult.observationMessages,
      Loose stray message := by
  intro message hmessage
  obtain ⟨result, hresult, hmessage⟩ := List.mem_flatMap.mp hmessage
  obtain ⟨id, -, hid⟩ := List.mem_filterMap.mp hresult
  exact .user ((hresults id result hid).observations message hmessage)

/-- A segment that has not been written yet follows anything. -/
theorem written_of_grammar {output : List ChatMessage} {segments : List TranscriptSegment}
    (h : Grammar stray output)
    (hfirst : ∀ turn, .toolTurn turn ∈ segments → turn.assistantEmitted = false) :
    Written stray output segments := by
  cases segments with
  | nil => exact h
  | cons segment segments =>
    cases segment with
    | plain messages => exact h
    | toolTurn turn =>
      refine ⟨output, h, ?_⟩
      rw [ToolTurn.emitted, hfirst turn List.mem_cons_self]
      rfl

theorem Orderly.drain {output : List ChatMessage} {segments : List TranscriptSegment}
    {toolResults : Dict String ChatToolResult} {drained : Ledger}
    (h : Orderly ext stray output segments toolResults)
    (hdrain : drainSegments ext output toolResults segments = .ok drained) :
    Orderly ext stray drained.output drained.segments drained.toolResults := by
  induction segments generalizing output toolResults with
  | nil =>
    cases hdrain
    exact h
  | cons segment segments ih =>
    have hlater : ∀ turn, .toolTurn turn ∈ segments → turn.assistantEmitted = false := h.later
    cases segment with
    | plain messages =>
      have hgrammar : Grammar stray (output ++ messages) :=
        Grammar.append h.written (h.plain messages List.mem_cons_self)
      exact ih
        { turns := fun turn hturn => h.turns turn (List.mem_cons_of_mem _ hturn)
          plain := fun others hothers => h.plain others (List.mem_cons_of_mem _ hothers)
          later := fun turn hturn => hlater turn (List.mem_of_mem_tail hturn)
          written := written_of_grammar hgrammar hlater
          results := h.results } hdrain
    | toolTurn turn =>
      obtain ⟨before, hbefore, hemitted⟩ := h.written
      have hturn := h.turns turn List.mem_cons_self
      rcases drainSegments_turn hdrain with ⟨-, rfl⟩ | ⟨hready, -, deferred, hdeferred, hdrain⟩
      · have hsame : ∀ other, .toolTurn other ∈
            TranscriptSegment.toolTurn { turn with assistantEmitted := true } :: segments →
            other.WellFormed ext stray := by
          intro other hother
          rcases List.mem_cons.mp hother with hother | hother
          · cases hother
            exact ⟨hturn.called, hturn.deferred⟩
          · exact h.turns other (List.mem_cons_of_mem _ hother)
        exact
          { turns := hsame
            plain := fun others hothers => by
              rcases List.mem_cons.mp hothers with hothers | hothers
              · cases hothers
              · exact h.plain others (List.mem_cons_of_mem _ hothers)
            later := hlater
            written := ⟨before, hbefore, hemitted⟩
            results := h.results }
      · obtain ⟨content, toolCalls, reasoning, hmessage, hcalls, hids⟩ := hturn.called
        rw [hids] at hready
        have hanswers := answers_of_results h.results hready
        have hanswered : Grammar stray (before ++ .assistant content toolCalls reasoning :: _) :=
          hbefore.turn hcalls hanswers
        have hobserved := hanswered.append (observations_of_results h.results
          (toolCalls.map ToolCall.id))
        have hdone := hobserved.append (hturn.deferred deferred hdeferred)
        rw [hemitted, hmessage, hids] at hdrain
        refine ih ?_ hdrain
        exact
          { turns := fun other hother => h.turns other (List.mem_cons_of_mem _ hother)
            plain := fun others hothers => h.plain others (List.mem_cons_of_mem _ hothers)
            later := fun other hother => hlater other (List.mem_of_mem_tail hother)
            written := written_of_grammar (by simpa [resultMessages] using hdone) hlater
            results := fun id result hid => by
              rw [get?_withoutResults] at hid
              split_ifs at hid
              exact h.results id result hid }

/-! ## Segments -/

/-- A segment of one entry fits into the ledger. -/
def Fits (ext : Externals) (stray : ChatMessage → Prop) : TranscriptSegment → Prop
  | .plain messages => ∀ message ∈ messages, Loose stray message
  | .toolTurn turn => turn.WellFormed ext stray ∧ turn.assistantEmitted = false

/-- The calls of a message have ids that are not blank. -/
def Message.NonBlankIds (message : Message) : Prop :=
  ∀ blocks, message.content = .list blocks → ∀ id name input extraContent,
    .toolUse id name input extraContent ∈ blocks → strip isSpace id ≠ ""

theorem addAssistantBlock_toolCalls {reasoning : Option String} {parts next : AssistantParts}
    {block : ContentBlock} (hblock : block.isToolUse = false)
    (h : addAssistantBlock ext mode reasoning parts block = .ok next) :
    next.toolCalls = parts.toolCalls := by
  cases block with
  | toolUse id name input extraContent => cases hblock
  | thinking thinking =>
    unfold addAssistantBlock at h
    cases mode with
    | disabled | thinkTags =>
      cases h
      rfl
    | reasoningContent | reasoning =>
      dsimp only at h
      split_ifs at h <;>
      · cases h
        rfl
  | text text | redactedThinking data =>
    cases h
    rfl
  | _ =>
    unfold addAssistantBlock at h
    dsimp only at h
    split_ifs at h
    · cases h
      rfl
    · obtain ⟨-, -, h⟩ := bind_eq_ok.mp h
      cases h
      rfl

/-- Without tool uses the message of an assistant has no calls. -/
theorem convertAssistantMessage_loose {content : List ContentBlock} {reasoning : Option String}
    {message : ChatMessage} (hcontent : ∀ block ∈ content, block.isToolUse = false)
    (h : convertAssistantMessage ext content mode reasoning = .ok message) :
    ∃ text replayed, message = .assistant text [] replayed := by
  obtain ⟨parts, hparts, h⟩ := bind_eq_ok.mp h
  cases h
  have hcalls : ∀ (blocks : List ContentBlock) (start : AssistantParts),
      (∀ block ∈ blocks, block.isToolUse = false) → start.toolCalls = [] →
      blocks.foldlM (addAssistantBlock ext mode reasoning) start = .ok parts →
      parts.toolCalls = [] := by
    intro blocks
    induction blocks with
    | nil =>
      intro start _ hstart hfold
      cases hfold
      exact hstart
    | cons block blocks ih =>
      intro start hblocks hstart hfold
      rw [List.foldlM_cons] at hfold
      obtain ⟨next, hnext, hfold⟩ := bind_eq_ok.mp hfold
      have hkept := addAssistantBlock_toolCalls (hblocks block List.mem_cons_self) hnext
      exact ih next (fun other hother => hblocks other (List.mem_cons_of_mem _ hother))
        (hkept.trans hstart) hfold
  have hnone := hcalls content {} hcontent rfl hparts
  unfold AssistantParts.message
  rw [hnone]
  exact ⟨_, _, rfl⟩

theorem iterToolUses_ne_nil {blocks : List ContentBlock}
    (h : blocks.any ContentBlock.isToolUse = true) : iterToolUses ext blocks ≠ [] := by
  induction blocks with
  | nil => cases h
  | cons block blocks ih =>
    cases block with
    | toolUse id name input extraContent => simp [iterToolUses]
    | _ => exact ih h

theorem iterToolUses_ids {blocks : List ContentBlock} {call : ToolCall}
    (h : call ∈ iterToolUses ext blocks) :
    ∃ name input extraContent, .toolUse call.id name input extraContent ∈ blocks := by
  induction blocks with
  | nil => cases h
  | cons block blocks ih =>
    have hrest : call ∈ iterToolUses ext blocks →
        ∃ name input extraContent, .toolUse call.id name input extraContent ∈ block :: blocks := by
      intro hmem
      obtain ⟨name, input, extraContent, hfound⟩ := ih hmem
      exact ⟨name, input, extraContent, List.mem_cons_of_mem _ hfound⟩
    cases block with
    | toolUse id name input extraContent =>
      rcases List.mem_cons.mp h with rfl | hmem
      · exact ⟨name, input, extraContent, List.mem_cons_self⟩
      · exact hrest hmem
    | _ => exact hrest h

theorem preToolMessage_assistant {pre : List ContentBlock} {reasoning : Option String}
    {message : ChatMessage} (h : preToolMessage ext pre mode reasoning = .ok message) :
    ∃ text toolCalls replayed, message = .assistant text toolCalls replayed := by
  unfold preToolMessage at h
  split_ifs at h
  · cases h
    exact ⟨_, _, _, rfl⟩
  · obtain ⟨parts, -, h⟩ := bind_eq_ok.mp h
    cases h
    exact ⟨_, _, _, rfl⟩

theorem convertWithSplit_wellFormed {blocks : List ContentBlock} {reasoning : Option String}
    {turn : ToolTurn} (hany : blocks.any ContentBlock.isToolUse = true)
    (hids : ∀ id name input extraContent, .toolUse id name input extraContent ∈ blocks →
      strip isSpace id ≠ "")
    (h : convertAssistantMessageWithSplit ext blocks mode reasoning = .ok turn) :
    turn.WellFormed ext stray ∧ turn.assistantEmitted = false := by
  obtain ⟨first, hfirst, h⟩ := bind_eq_ok.mp h
  cases h
  obtain ⟨text, toolCalls, replayed, rfl⟩ := preToolMessage_assistant hfirst
  refine ⟨⟨⟨_, iterToolUses ext blocks, _, rfl, iterToolUses_ne_nil hany, ?_⟩, ?_⟩, rfl⟩
  · refine List.filter_eq_self.mpr fun id hid => ?_
    obtain ⟨call, hcall, rfl⟩ := List.mem_map.mp hid
    obtain ⟨name, input, extraContent, hmem⟩ := iterToolUses_ids hcall
    exact decide_eq_true (hids _ name input extraContent hmem)
  · intro messages hmessages
    unfold ToolTurn.deferredMessages at hmessages
    split_ifs at hmessages
    · cases hmessages
      simp
    · obtain ⟨message, hmessage, hmessages⟩ := bind_eq_ok.mp hmessages
      cases hmessages
      have hplain : ∀ block ∈ (blocks.dropWhile fun block => !block.isToolUse).filter
          (fun block => !block.isToolUse), block.isToolUse = false := by
        intro block hblock
        simpa using (List.mem_filter.mp hblock).2
      obtain ⟨_, _, rfl⟩ := convertAssistantMessage_loose hplain hmessage
      intro other hother
      rw [List.mem_singleton.mp hother]
      rfl

theorem convertMessageToSegment_fits {message : Message} {segment : TranscriptSegment}
    (hids : message.NonBlankIds)
    (hproper : ∀ blocks, ¬ (message.role = .user ∧ message.content = .list blocks))
    (h : convertMessageToSegment ext message mode = .ok segment) : Fits ext stray segment := by
  have hsingle : ∀ made : ChatMessage, (∃ text replayed, made = .assistant text [] replayed) →
      Fits ext stray (.plain [made]) := by
    rintro made ⟨text, replayed, rfl⟩ other hother
    rw [List.mem_singleton.mp hother]
    rfl
  have huser : ∀ text, Fits ext stray (.plain [.user (.str text)]) := by
    intro text other hother
    rw [List.mem_singleton.mp hother]
    trivial
  obtain ⟨role, content, reasoningContent⟩ := message
  unfold convertMessageToSegment at h
  cases role with
  | user =>
    cases content with
    | str text =>
      cases h
      exact huser text
    | list blocks => exact absurd ⟨rfl, rfl⟩ (hproper blocks)
  | system =>
    obtain ⟨text, -, h⟩ := bind_eq_ok.mp h
    cases text with
    | none => cases h
    | some text =>
      cases h
      exact huser text
  | assistant =>
    cases content with
    | str text =>
      cases h
      refine hsingle _ ?_
      unfold assistantTextMessage
      split
      · split_ifs <;> exact ⟨_, _, rfl⟩
      · exact ⟨_, _, rfl⟩
    | list blocks =>
      dsimp only at h
      split_ifs at h with hany
      · obtain ⟨_, -, h⟩ := bind_eq_ok.mp h
        obtain ⟨turn, hturn, h⟩ := bind_eq_ok.mp h
        cases h
        exact convertWithSplit_wellFormed hany (hids blocks rfl) hturn
      · obtain ⟨_, -, h⟩ := bind_eq_ok.mp h
        obtain ⟨made, hmade, h⟩ := bind_eq_ok.mp h
        cases h
        refine hsingle made (convertAssistantMessage_loose (fun block hblock => ?_) hmade)
        rw [List.any_eq_true, not_exists] at hany
        exact Bool.eq_false_iff.mpr fun hblock' => hany block ⟨hblock, hblock'⟩

/-- Blocks without a tool result become user messages. -/
theorem convertUserMessage_users {blocks : List ContentBlock} {messages : List ChatMessage}
    (hblocks : ∀ block ∈ blocks, block.isToolResult = false)
    (h : convertUserMessage ext blocks = .ok messages) :
    ∀ message ∈ messages, message.isUser = true := by
  have hflush : ∀ user : UserParts, (∀ message ∈ user.result, message.isUser = true) →
      ∀ message ∈ user.flushContent.result, message.isUser = true := by
    intro user huser
    unfold UserParts.flushContent
    split_ifs
    · exact huser
    · intro message hmessage
      rcases List.mem_append.mp hmessage with hmessage | hmessage
      · exact huser message hmessage
      · rw [List.mem_singleton.mp hmessage]
        rfl
  have hstep : ∀ (user next : UserParts) (block : ContentBlock), block.isToolResult = false →
      addUserBlock ext user block = .ok next → next.result = user.result := by
    intro user next block hblock hnext
    cases block with
    | toolResult toolUseId content => cases hblock
    | image source =>
      obtain ⟨url, -, hnext⟩ := bind_eq_ok.mp hnext
      cases hnext
      rfl
    | _ =>
      cases hnext
      rfl
  obtain ⟨user, huser, h⟩ := bind_eq_ok.mp h
  cases h
  refine hflush user ?_
  have hnone : ∀ (rest : List ContentBlock) (start : UserParts),
      (∀ block ∈ rest, block.isToolResult = false) → start.result = [] →
      rest.foldlM (addUserBlock ext) start = .ok user → user.result = [] := by
    intro rest
    induction rest with
    | nil =>
      intro start _ hstart hfold
      cases hfold
      exact hstart
    | cons block rest ih =>
      intro start hrest hstart hfold
      rw [List.foldlM_cons] at hfold
      obtain ⟨next, hnext, hfold⟩ := bind_eq_ok.mp hfold
      have hkept := hstep start next block (hrest block List.mem_cons_self) hnext
      exact ih next (fun other hother => hrest other (List.mem_cons_of_mem _ hother))
        (hkept.trans hstart) hfold
  rw [hnone blocks {} hblocks rfl huser]
  simp

theorem openaiChatToolResult_for {toolUseId : String} {content : ResultContent}
    {result : ChatToolResult} (h : openaiChatToolResult ext toolUseId content = .ok result) :
    result.For toolUseId := by
  obtain ⟨real, -, h⟩ := bind_eq_ok.mp h
  obtain ⟨parts, -, h⟩ := bind_eq_ok.mp h
  cases h
  refine ⟨rfl, ?_⟩
  dsimp only
  split_ifs
  · simp
  · simp [ChatMessage.isUser]

/-! ## Runs -/

theorem Orderly.addSegment {ledger next : Ledger} {segment : TranscriptSegment}
    (h : Orderly ext stray ledger.output ledger.segments ledger.toolResults)
    (hsegment : Fits ext stray segment) (hnext : ledger.addSegment ext segment = .ok next) :
    Orderly ext stray next.output next.segments next.toolResults := by
  refine Orderly.drain ?_ hnext
  have hlast : ∀ turn, .toolTurn turn ∈ [segment] →
      turn.WellFormed ext stray ∧ turn.assistantEmitted = false := by
    intro turn hturn
    rw [← List.mem_singleton.mp hturn] at hsegment
    exact hsegment
  exact
    { turns := fun turn hturn => by
        rcases List.mem_append.mp hturn with hturn | hturn
        · exact h.turns turn hturn
        · exact (hlast turn hturn).1
      plain := fun messages hmessages => by
        rcases List.mem_append.mp hmessages with hmessages | hmessages
        · exact h.plain messages hmessages
        · rw [← List.mem_singleton.mp hmessages] at hsegment
          exact hsegment
      later := fun turn hturn => by
        cases hsegments : ledger.segments with
        | nil =>
          rw [hsegments] at hturn
          cases hturn
        | cons first others =>
          rw [hsegments] at hturn
          rcases List.mem_append.mp hturn with hturn | hturn
          · exact h.later turn (by rw [hsegments]; exact hturn)
          · exact (hlast turn hturn).2
      written := by
        have hwritten := h.written
        cases hsegments : ledger.segments with
        | nil =>
          rw [hsegments] at hwritten
          exact written_of_grammar hwritten fun turn hturn => (hlast turn hturn).2
        | cons first others =>
          rw [hsegments] at hwritten
          cases first <;> exact hwritten
      results := h.results }

theorem Orderly.addPlain {ledger next : Ledger} {messages : List ChatMessage}
    (h : Orderly ext stray ledger.output ledger.segments ledger.toolResults)
    (hmessages : ∀ message ∈ messages, Loose stray message)
    (hnext : ledger.addPlain ext messages = .ok next) :
    Orderly ext stray next.output next.segments next.toolResults := by
  unfold Ledger.addPlain at hnext
  split_ifs at hnext
  · cases hnext
    exact h
  · exact h.addSegment (show Fits ext stray (.plain messages) from hmessages) hnext

/-- The message of a tool result that answers no pending call: it is passed on where it
stands. -/
def PassedOn (ext : Externals) (mode : ReasoningReplayMode) (entries : List Entry)
    (message : ChatMessage) : Prop :=
  ∃ pre toolUseId content post ledger result,
    entries = pre ++ .toolResult toolUseId content :: post ∧
      pre.foldlM (Ledger.feed ext mode) {} = .ok ledger ∧
      (toolUseId = "" ∨ ledger.hasPendingToolId toolUseId = false) ∧
      openaiChatToolResult ext toolUseId content = .ok result ∧ message = result.message

/-- The calls of an entry have ids that are not blank. -/
def Entry.NonBlankIds : Entry → Prop
  | .message m => m.NonBlankIds
  | _ => True

/-- The step lemma. -/
theorem Orderly.feed {ledger next : Ledger} {entry : Entry}
    (h : Orderly ext stray ledger.output ledger.segments ledger.toolResults)
    (hproper : entry.Proper) (hids : entry.NonBlankIds)
    (hstray : ∀ toolUseId content result, entry = .toolResult toolUseId content →
      (toolUseId = "" ∨ ledger.hasPendingToolId toolUseId = false) →
      openaiChatToolResult ext toolUseId content = .ok result → stray result.message)
    (hnext : ledger.feed ext mode entry = .ok next) :
    Orderly ext stray next.output next.segments next.toolResults := by
  cases entry with
  | message message =>
    obtain ⟨segment, hsegment, hnext⟩ := bind_eq_ok.mp hnext
    have hfits : Fits ext stray segment := convertMessageToSegment_fits hids hproper hsegment
    cases segment with
    | plain messages => exact h.addPlain hfits hnext
    | toolTurn turn => exact h.addSegment hfits hnext
  | textBlocks blocks =>
    simp only [Ledger.feed, Ledger.addTextBlocks] at hnext
    split_ifs at hnext
    · cases hnext
      exact h
    · obtain ⟨messages, hmessages, hnext⟩ := bind_eq_ok.mp hnext
      exact h.addPlain
        (fun message hmem => .user (convertUserMessage_users hproper hmessages message hmem)) hnext
  | toolResult toolUseId content =>
    rcases recordToolResult_cases hnext with ⟨hfree, result, hresult, hplain⟩ |
      ⟨-, -, -, result, hresult, rfl⟩
    · refine h.addPlain (List.forall_mem_cons.mpr ⟨?_, fun message hmem => ?_⟩) hplain
      · exact hstray toolUseId content result rfl hfree hresult
      · exact .user ((openaiChatToolResult_for hresult).observations message hmem)
    · refine ⟨h.turns, h.plain, h.later, h.written, fun id other hother => ?_⟩
      rw [Dict.get?_set] at hother
      split_ifs at hother with hid
      · obtain rfl := Option.some.inj hother
        rw [hid]
        exact openaiChatToolResult_for hresult
      · exact h.results id other hother
  | drain => exact Orderly.drain h hnext

/-- The run lemma. -/
theorem orderly_run {entries : List Entry} {ledger : Ledger}
    (hproper : ∀ entry ∈ entries, entry.Proper) (hids : ∀ entry ∈ entries, entry.NonBlankIds)
    (h : entries.foldlM (Ledger.feed ext mode) {} = .ok ledger) :
    Orderly ext (PassedOn ext mode entries) ledger.output ledger.segments ledger.toolResults := by
  have hrun : entries <+: entries → entries.foldlM (Ledger.feed ext mode) {} = .ok ledger ∧
      Orderly ext (PassedOn ext mode entries) ledger.output ledger.segments
        ledger.toolResults := by
    refine foldlM_ok_invariant (P := fun (done : List Entry) (reached : Ledger) =>
      done <+: entries → done.foldlM (Ledger.feed ext mode) {} = .ok reached ∧
        Orderly ext (PassedOn ext mode entries) reached.output reached.segments
          reached.toolResults) ?_ ?_ h
    · intro done entry before after hbefore hnext hprefix
      obtain ⟨rest, hrest⟩ := hprefix
      have hentries : entries = done ++ entry :: rest := by rw [← hrest]; simp
      obtain ⟨hdone, horderly⟩ := hbefore ⟨entry :: rest, hentries.symm⟩
      have hmem : entry ∈ entries := by rw [hentries]; simp
      refine ⟨?_, horderly.feed (hproper entry hmem) (hids entry hmem) ?_ hnext⟩
      · rw [List.foldlM_append, hdone]
        exact (bind_pure _).trans hnext
      · rintro toolUseId content result rfl hfree hresult
        exact ⟨done, toolUseId, content, rest, before, result, hentries, hdone, hfree, hresult, rfl⟩
    · intro _
      exact ⟨rfl, ⟨by simp, by simp, by simp, .nil, by simp [Dict.get?, Dict.empty]⟩⟩
  exact (hrun (List.prefix_refl _)).2

/-- After a drain the first segment waits for a result. -/
theorem drainSegments_waits {segments : List TranscriptSegment} {output : List ChatMessage}
    {toolResults : Dict String ChatToolResult} {drained : Ledger}
    (h : drainSegments ext output toolResults segments = .ok drained) :
    drained.segments = [] ∨ drained.missingRequiredToolIds ≠ [] := by
  induction segments generalizing output toolResults with
  | nil =>
    cases h
    exact .inl rfl
  | cons segment segments ih =>
    cases segment with
    | plain messages => exact ih h
    | toolTurn turn =>
      rcases drainSegments_turn h with ⟨hwaits, rfl⟩ | ⟨-, -, deferred, -, h⟩
      · refine .inr fun hnone => ?_
        rw [List.all_eq_false] at hwaits
        obtain ⟨id, hid, hmissing⟩ := hwaits
        have hall := (List.flatMap_eq_nil_iff.mp hnone) _ List.mem_cons_self
        rw [List.filter_eq_nil_iff] at hall
        exact hall id hid (by simp only [Bool.eq_false_iff.mpr hmissing, Bool.not_false])
      · exact ih h

theorem userEntries_nonBlank (textBlocks blocks : List ContentBlock) :
    ∀ entry ∈ userEntries textBlocks blocks, entry.NonBlankIds := by
  induction blocks generalizing textBlocks with
  | nil => simp [userEntries, Entry.NonBlankIds]
  | cons block blocks ih =>
    cases block with
    | toolResult toolUseId content =>
      simp only [userEntries, List.forall_mem_cons]
      exact ⟨trivial, trivial, ih []⟩
    | _ => exact ih _

theorem entriesOf_nonBlank {messages : List Message}
    (h : ∀ message ∈ messages, message.NonBlankIds) :
    ∀ entry ∈ entriesOf messages, entry.NonBlankIds := by
  intro entry hentry
  rcases List.mem_append.mp hentry with hentry | hentry
  · obtain ⟨message, hmem, hentry⟩ := List.mem_flatMap.mp hentry
    have hmessage := h message hmem
    unfold Message.entries at hentry
    split at hentry
    · exact userEntries_nonBlank [] _ entry hentry
    · rw [List.mem_singleton.mp hentry]
      exact hmessage
  · rw [List.mem_singleton.mp hentry]
    trivial

/-- A history that is complete is all in the output. -/
theorem ordered_eq_output {ledger drained : Ledger} {ordered : List ChatMessage}
    (hdrain : ledger.drainReadySegments ext = .ok drained)
    (hclose : drained.close ext = .ok ordered) :
    drained.segments = [] ∧ ordered = drained.output := by
  unfold Ledger.close at hclose
  split_ifs at hclose with hmissing
  have hsegments : drained.segments = [] := by
    rcases drainSegments_waits hdrain with hsegments | hwaits
    · exact hsegments
    · exact absurd hwaits hmissing
  rw [hsegments] at hclose
  cases hclose
  exact ⟨hsegments, rfl⟩

/-- The converted history is in the grammar, with the results that answer no call as stray
tool messages. -/
theorem convertMessages_grammar {messages : List Message} {chat : List ChatMessage}
    (hids : ∀ message ∈ messages, message.NonBlankIds)
    (h : convertMessages ext messages mode = .ok chat) :
    Grammar (PassedOn ext mode (entriesOf messages)) chat ∧ chat.IsChain Follows := by
  rw [convertMessages_eq] at h
  obtain ⟨ledger, hrun, h⟩ := bind_eq_ok.mp h
  obtain ⟨ordered, hclose, h⟩ := bind_eq_ok.mp h
  cases h
  have horderly := orderly_run (entriesOf_proper messages) (entriesOf_nonBlank hids) hrun
  unfold entriesOf at hrun
  rw [List.foldlM_append] at hrun
  obtain ⟨before, -, hdrain⟩ := bind_eq_ok.mp hrun
  obtain ⟨hsegments, rfl⟩ := ordered_eq_output ((bind_pure _).symm.trans hdrain) hclose
  have hwritten := horderly.written
  rw [hsegments] at hwritten
  obtain ⟨hclosed, hafter⟩ := @close_grammar _ ledger.output hwritten
  obtain ⟨hgrammar, hfollows, -⟩ := coalesce_grammar hclosed hafter
  exact ⟨hgrammar, hfollows⟩

section Example

def callAndGoOn : List Message :=
  [{ role := .assistant, content := .list [.text "Reading.", .toolUse "toolu_1" "read" [] .null] },
    { role := .user, content := .list [.text "Go on.", .toolResult "toolu_1" (.str "done")] }]

def callAndGoOnChat : List ChatMessage :=
  [.assistant "Reading." [⟨"toolu_1", "read", "\x7b\x7d", []⟩] none, .tool "toolu_1" "done",
    .boundary, .user (.str "Go on.")]

theorem convertMessages_grammar_sample :
    convertMessages sampleExternals callAndGoOn .thinkTags = .ok callAndGoOnChat ∧
      callAndGoOnChat.IsChain Follows := by
  have hchat : convertMessages sampleExternals callAndGoOn .thinkTags = .ok callAndGoOnChat := by
    rfl
  have hids : ∀ message ∈ callAndGoOn, message.NonBlankIds := by
    intro message hmessage blocks hblocks id name input extraContent hmem
    simp only [callAndGoOn, List.mem_cons, List.not_mem_nil, or_false] at hmessage
    rcases hmessage with rfl | rfl
    · cases hblocks
      simp at hmem
      rw [hmem.1]
      decide
    · cases hblocks
      simp at hmem
  exact ⟨hchat, (convertMessages_grammar hids hchat).2⟩

/-- The ids of the tool uses of a message. -/
def Message.toolUseIds (message : Message) : List String :=
  match message.content with
  | .str _ => []
  | .list blocks => blocks.filterMap fun block => match block with
    | .toolUse id _ _ _ => some id
    | _ => none

/-- A result without a call is a tool message that follows no call. -/
theorem result_without_call : ¬ ∀ (messages : List Message) (chat : List ChatMessage),
    (∀ message ∈ messages, message.NonBlankIds) → (messages.flatMap Message.toolUseIds).Nodup →
      convertMessages sampleExternals messages .thinkTags = .ok chat →
        Grammar (fun _ => False) chat ∧ chat.IsChain Follows := by
  intro h
  have hgrammar := (h [{ role := .user, content := .list [.toolResult "toolu_1" (.str "done")] }]
    [.tool "toolu_1" "done"] ?_ (by decide) rfl).1
  · exact hgrammar.stray_of_tool
  · intro message hmessage blocks hblocks id name input extraContent hmem
    rw [List.mem_singleton.mp hmessage] at hblocks
    cases hblocks
    simp at hmem

end Example

end Switchboard.Core.Anthropic
