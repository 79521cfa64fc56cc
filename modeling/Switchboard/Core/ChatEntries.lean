import Mathlib
import Switchboard.Core.ChatLedger

/-!
# A history as a list of entries

What the ledger is given, one entry after the other: a message that becomes a segment, the
blocks between two tool results of a user message, a tool result, and the end of a user
message.
-/

namespace Switchboard.Core.Anthropic

inductive Entry where
  | message (message : Message)
  | textBlocks (blocks : List ContentBlock)
  | toolResult (toolUseId : String) (content : ResultContent)
  | drain

/-- The entries of a user message, after some blocks without a result. -/
def userEntries (textBlocks : List ContentBlock) : List ContentBlock → List Entry
  | [] => [.textBlocks textBlocks, .drain]
  | .toolResult toolUseId content :: blocks =>
    .textBlocks textBlocks :: .toolResult toolUseId content :: userEntries [] blocks
  | block :: blocks => userEntries (textBlocks ++ [block]) blocks

def Message.entries (message : Message) : List Entry :=
  match message.role, message.content with
  | .user, .list blocks => userEntries [] blocks
  | _, _ => [.message message]

variable (ext : Externals) (mode : ReasoningReplayMode)

/-- The ledger after an entry. -/
def Ledger.feed (ledger : Ledger) : Entry → Except Raised Ledger
  | .message message => do
    let segment ← convertMessageToSegment ext message mode
    ledger.addTranscriptSegment ext segment
  | .textBlocks blocks => ledger.addTextBlocks ext blocks
  | .toolResult toolUseId content => ledger.recordToolResult ext toolUseId content
  | .drain => ledger.drainReadySegments ext

/-- `json.dumps` of the empty mapping, and no image that can be opened. -/
def sampleExternals : Externals where
  library := ⟨fun _ => .unreadable, fun _ => none⟩
  dumps _ := "\x7b\x7d"
  dumpsUnicode _ := "\x7b\x7d"

/-! ## The conversion in entries -/

theorem addUserBlocksFrom_eq (blocks textBlocks : List ContentBlock) (ledger : Ledger) :
    ledger.addUserBlocksFrom ext textBlocks blocks =
      (userEntries textBlocks blocks).foldlM (Ledger.feed ext mode) ledger := by
  induction blocks generalizing textBlocks ledger with
  | nil =>
    unfold Ledger.addUserBlocksFrom userEntries
    simp only [List.foldlM_cons, List.foldlM_nil, Ledger.feed, bind_pure]
  | cons block blocks ih =>
    cases block with
    | toolResult toolUseId content =>
      unfold Ledger.addUserBlocksFrom userEntries
      simp only [List.foldlM_cons, Ledger.feed, ih]
    | _ =>
      unfold Ledger.addUserBlocksFrom userEntries
      exact ih _ _

theorem addMessage_eq (message : Message) (ledger : Ledger) :
    addMessage ext mode ledger message =
      message.entries.foldlM (Ledger.feed ext mode) ledger := by
  obtain ⟨role, content, reasoningContent⟩ := message
  cases role with
  | user =>
    cases content with
    | list blocks => exact addUserBlocksFrom_eq ext mode blocks [] ledger
    | str text => exact (bind_pure _).symm
  | assistant | system => exact (bind_pure _).symm

theorem addMessages_eq (messages : List Message) (ledger : Ledger) :
    messages.foldlM (addMessage ext mode) ledger =
      (messages.flatMap Message.entries).foldlM (Ledger.feed ext mode) ledger := by
  induction messages generalizing ledger with
  | nil => rfl
  | cons message messages ih =>
    rw [List.foldlM_cons, List.flatMap_cons, List.foldlM_append, addMessage_eq]
    congr 1
    funext next
    exact ih next

/-- The entries of a history; `finish` begins with a drain. -/
def entriesOf (messages : List Message) : List Entry :=
  messages.flatMap Message.entries ++ [.drain]

/-- The end of `finish`, after its drain. -/
def Ledger.close (ledger : Ledger) : Except Raised (List ChatMessage) :=
  if ledger.missingRequiredToolIds ≠ [] then
    .error (.conversion ("OpenAI chat conversion cannot replay incomplete tool history; " ++
      "missing tool_result blocks for tool_use ids: " ++
      (Json.arr (ledger.missingRequiredToolIds.map Json.str)).repr))
  else Ledger.emitSegments ext ledger.output ledger.toolResults ledger.segments

theorem convertMessages_eq (messages : List Message) :
    convertMessages ext messages mode = do
      let ledger ← (entriesOf messages).foldlM (Ledger.feed ext mode) {}
      let ordered ← ledger.close ext
      return coalesceOpenaiUserMessages (closeOpenaiToolResultTurns ordered) := by
  have hfinish : ∀ ledger : Ledger, ledger.finish ext =
      ledger.drainReadySegments ext >>= Ledger.close ext := by
    intro ledger
    unfold Ledger.finish Ledger.close
    congr 1
  unfold convertMessages entriesOf
  rw [addMessages_eq, List.foldlM_append]
  simp only [hfinish, bind_assoc, List.foldlM_cons, List.foldlM_nil, Ledger.feed, pure_bind]

def ContentBlock.isToolResult : ContentBlock → Bool
  | .toolResult _ _ => true
  | _ => false

/-- The entries of a history: lists of user blocks are split up. -/
def Entry.Proper : Entry → Prop
  | .message m => ∀ blocks, ¬ (m.role = .user ∧ m.content = .list blocks)
  | .textBlocks blocks => ∀ block ∈ blocks, block.isToolResult = false
  | .toolResult _ _ | .drain => True

theorem userEntries_proper {textBlocks : List ContentBlock}
    (h : ∀ block ∈ textBlocks, block.isToolResult = false) (blocks : List ContentBlock) :
    ∀ entry ∈ userEntries textBlocks blocks, entry.Proper := by
  induction blocks generalizing textBlocks with
  | nil => simpa [userEntries, Entry.Proper] using h
  | cons block blocks ih =>
    have hlast : block.isToolResult = false →
        ∀ other ∈ textBlocks ++ [block], other.isToolResult = false := by
      intro hblock other hother
      rcases List.mem_append.mp hother with hother | hother
      · exact h other hother
      · rw [List.mem_singleton.mp hother, hblock]
    cases block with
    | toolResult toolUseId content =>
      simp only [userEntries, List.forall_mem_cons]
      exact ⟨h, trivial, ih (by simp)⟩
    | _ => exact ih (hlast rfl)

theorem entriesOf_proper (messages : List Message) :
    ∀ entry ∈ entriesOf messages, entry.Proper := by
  intro entry hentry
  rcases List.mem_append.mp hentry with hentry | hentry
  · obtain ⟨message, -, hentry⟩ := List.mem_flatMap.mp hentry
    obtain ⟨role, content, reasoningContent⟩ := message
    cases role with
    | user =>
      cases content with
      | list blocks => exact userEntries_proper (by simp) blocks entry hentry
      | str text =>
        obtain rfl := List.mem_singleton.mp hentry
        simp [Entry.Proper]
    | assistant | system =>
      obtain rfl := List.mem_singleton.mp hentry
      simp [Entry.Proper]
  · obtain rfl := List.mem_singleton.mp hentry
    trivial

/-! ## What a drain does -/

variable {ext} {mode}

/-- What a turn takes out of the results. -/
def withoutResults (toolResults : Dict String ChatToolResult) (ids : List String) :
    Dict String ChatToolResult :=
  ids.foldl Dict.erase toolResults

/-- The results of a turn, where they are there. -/
def resultsOf (toolResults : Dict String ChatToolResult) (ids : List String) :
    List ChatToolResult :=
  ids.filterMap toolResults.get?

theorem contains_erase_of_ne {toolResults : Dict String ChatToolResult} {id other : String}
    (h : other ≠ id) : (toolResults.erase id).contains other = toolResults.contains other := by
  rw [Dict.contains, Dict.contains, Dict.get?_erase_of_ne _ h]

theorem popResults_nodup {ids : List String} {toolResults : Dict String ChatToolResult}
    (hall : ids.all toolResults.contains = true) (hnodup : ids.Nodup) :
    popResults toolResults ids =
      .ok (resultsOf toolResults ids, withoutResults toolResults ids) := by
  induction ids generalizing toolResults with
  | nil => rfl
  | cons id ids ih =>
    rw [List.all_cons, Bool.and_eq_true] at hall
    obtain ⟨hid, hnodup⟩ := List.nodup_cons.mp hnodup
    obtain ⟨result, hresult⟩ := Option.isSome_iff_exists.mp hall.1
    have hne : ∀ other ∈ ids, other ≠ id := fun other hother h => hid (h ▸ hother)
    have hrest : ids.all (toolResults.erase id).contains = true := by
      rw [List.all_eq_true] at hall ⊢
      intro other hother
      rw [contains_erase_of_ne (hne other hother)]
      exact hall.2 other hother
    have hsame : resultsOf (toolResults.erase id) ids = resultsOf toolResults ids :=
      List.filterMap_congr fun other hother => Dict.get?_erase_of_ne _ (hne other hother)
    simp only [popResults, hresult, ih hrest hnodup, hsame]
    simp [resultsOf, hresult, withoutResults, bind, Except.bind, pure, Except.pure]

/-- A result that is not there cannot be taken out. -/
theorem popResults_missing {ids : List String} {toolResults : Dict String ChatToolResult}
    {id : String} (hid : id ∈ ids) (hmissing : toolResults.get? id = none) :
    ∃ key, popResults toolResults ids = .error (.keyError key) := by
  induction ids generalizing toolResults with
  | nil => cases hid
  | cons other ids ih =>
    unfold popResults
    cases hresult : toolResults.get? other with
    | none => exact ⟨other, rfl⟩
    | some result =>
      have hne : id ≠ other := by
        rintro rfl
        rw [hmissing] at hresult
        cases hresult
      have hrest : id ∈ ids := List.mem_of_ne_of_mem hne hid
      have hleft : (toolResults.erase other).get? id = none := by
        rw [Dict.get?_erase_of_ne _ hne, hmissing]
      obtain ⟨key, hkey⟩ := ih hrest hleft
      exact ⟨key, by simp [hkey, bind, Except.bind]⟩

/-- A turn that repeats an id takes a result out twice. -/
theorem popResults_repeats {ids : List String} (hrepeats : ¬ ids.Nodup)
    (toolResults : Dict String ChatToolResult) :
    ∃ key, popResults toolResults ids = .error (.keyError key) := by
  induction ids generalizing toolResults with
  | nil => exact absurd List.nodup_nil hrepeats
  | cons id ids ih =>
    unfold popResults
    cases hresult : toolResults.get? id with
    | none => exact ⟨id, rfl⟩
    | some result =>
      have herror : ∃ key, popResults (toolResults.erase id) ids = .error (.keyError key) := by
        by_cases hnodup : ids.Nodup
        · have hid : id ∈ ids := by
            by_contra hid
            exact hrepeats (List.nodup_cons.mpr ⟨hid, hnodup⟩)
          exact popResults_missing hid (by simp)
        · exact ih hnodup _
      obtain ⟨key, hkey⟩ := herror
      exact ⟨key, by simp [hkey, bind, Except.bind]⟩

/-- A drain that returns stops at a turn that waits, or goes on after it. -/
theorem drainSegments_turn {turn : ToolTurn} {segments : List TranscriptSegment}
    {output : List ChatMessage} {toolResults : Dict String ChatToolResult} {drained : Ledger}
    (h : drainSegments ext output toolResults (.toolTurn turn :: segments) = .ok drained) :
    turn.requiredToolIds.all toolResults.contains = false ∧
        drained = ⟨turn.emitted output,
          .toolTurn { turn with assistantEmitted := true } :: segments, toolResults⟩ ∨
      turn.requiredToolIds.all toolResults.contains = true ∧ turn.requiredToolIds.Nodup ∧
        ∃ deferred, turn.deferredMessages ext = .ok deferred ∧
          drainSegments ext (turn.emitted output ++
              resultMessages (resultsOf toolResults turn.requiredToolIds) ++ deferred)
            (withoutResults toolResults turn.requiredToolIds) segments = .ok drained := by
  unfold drainSegments at h
  cases hready : turn.requiredToolIds.all toolResults.contains with
  | false =>
    rw [hready] at h
    cases h
    exact .inl ⟨rfl, rfl⟩
  | true =>
    rw [hready, if_pos rfl] at h
    obtain ⟨popped, hpop, h⟩ := bind_eq_ok.mp h
    obtain ⟨deferred, hdeferred, h⟩ := bind_eq_ok.mp h
    have hnodup : turn.requiredToolIds.Nodup := by
      by_contra hrepeats
      obtain ⟨key, hkey⟩ := popResults_repeats hrepeats toolResults
      rw [hkey] at hpop
      cases hpop
    rw [popResults_nodup hready hnodup] at hpop
    cases hpop
    exact .inr ⟨rfl, hnodup, deferred, hdeferred, h⟩

theorem get?_withoutResults (ids : List String) (toolResults : Dict String ChatToolResult)
    (id : String) : (withoutResults toolResults ids).get? id =
      if id ∈ ids then none else toolResults.get? id := by
  induction ids generalizing toolResults with
  | nil => simp [withoutResults]
  | cons other ids ih =>
    show (withoutResults (toolResults.erase other) ids).get? id = _
    rw [ih, Dict.get?_erase]
    by_cases hid : id = other <;> by_cases hids : id ∈ ids <;> simp [hid, hids]

/-- A complete turn, if the ledger drains, repeats an id. -/
def repeatsReady (toolResults : Dict String ChatToolResult) : List TranscriptSegment → Bool
  | [] => false
  | .plain _ :: segments => repeatsReady toolResults segments
  | .toolTurn turn :: segments =>
    turn.requiredToolIds.all toolResults.contains &&
      (!decide turn.requiredToolIds.Nodup ||
        repeatsReady (withoutResults toolResults turn.requiredToolIds) segments)

/-- A turn in the ledger waits for the result of the call. -/
def Pending (segments : List TranscriptSegment) (id : String) : Prop :=
  ∃ turn, .toolTurn turn ∈ segments ∧ id ∈ turn.requiredToolIds

theorem hasPendingToolId_iff (ledger : Ledger) (id : String) :
    ledger.hasPendingToolId id = true ↔ Pending ledger.segments id := by
  unfold Ledger.hasPendingToolId Pending
  rw [List.any_eq_true]
  constructor
  · rintro ⟨segment, hmem, hsegment⟩
    cases segment with
    | plain messages => cases hsegment
    | toolTurn turn => exact ⟨turn, hmem, of_decide_eq_true hsegment⟩
  · rintro ⟨turn, hmem, hid⟩
    exact ⟨.toolTurn turn, hmem, decide_eq_true hid⟩

/-! ## What recording a result does -/

/-- A result alone is converted as a user message is. -/
theorem convertUserMessage_result (toolUseId : String) (content : ResultContent) :
    convertUserMessage ext [.toolResult toolUseId content] =
      (fun result => result.message :: result.observationMessages) <$>
        openaiChatToolResult ext toolUseId content := by
  unfold convertUserMessage
  simp only [List.foldlM_cons, List.foldlM_nil, addUserBlock, bind_pure]
  cases openaiChatToolResult ext toolUseId content <;> rfl

/-- A result is passed on, or recorded for a call that is pending. -/
theorem recordToolResult_cases {ledger next : Ledger} {toolUseId : String}
    {content : ResultContent} (h : ledger.recordToolResult ext toolUseId content = .ok next) :
    (toolUseId = "" ∨ ledger.hasPendingToolId toolUseId = false) ∧
        (∃ result, openaiChatToolResult ext toolUseId content = .ok result ∧
          ledger.addPlain ext (result.message :: result.observationMessages) = .ok next) ∨
      toolUseId ≠ "" ∧ ledger.hasPendingToolId toolUseId = true ∧
        ledger.toolResults.contains toolUseId = false ∧
        ∃ result, openaiChatToolResult ext toolUseId content = .ok result ∧
          next = { ledger with toolResults := ledger.toolResults.set toolUseId result } := by
  unfold Ledger.recordToolResult at h
  by_cases hblank : toolUseId = ""
  · rw [if_pos hblank] at h
    obtain ⟨messages, hmessages, h⟩ := bind_eq_ok.mp h
    rw [convertUserMessage_result] at hmessages
    cases hresult : openaiChatToolResult ext toolUseId content with
    | error e =>
      rw [hresult] at hmessages
      cases hmessages
    | ok result =>
      rw [hresult] at hmessages
      cases hmessages
      exact .inl ⟨.inl hblank, result, rfl, h⟩
  · rw [if_neg hblank] at h
    obtain ⟨result, hresult, h⟩ := bind_eq_ok.mp h
    cases hpending : ledger.hasPendingToolId toolUseId with
    | false =>
      rw [hpending] at h
      exact .inl ⟨.inr rfl, result, hresult, h⟩
    | true =>
      rw [hpending, if_pos rfl] at h
      cases hrecorded : ledger.toolResults.contains toolUseId with
      | true =>
        rw [hrecorded] at h
        cases h
      | false =>
        rw [hrecorded] at h
        cases h
        exact .inr ⟨hblank, rfl, rfl, result, hresult, rfl⟩

end Switchboard.Core.Anthropic
