import Mathlib
import Switchboard.Core.LedgerRuns

/-!
# The ledger reads like its stream

While the contract holds, the texts that the ledger has accumulated are those of the events that
were sent, as a whole and block by block.
-/

namespace Switchboard.Core.AnthropicStream

/-- The text of a delta of a type that has one. -/
def deltaText (delta : Json) : String :=
  if hasType delta "text_delta" then fieldText delta "text"
  else if hasType delta "thinking_delta" then fieldText delta "thinking"
  else if hasType delta "input_json_delta" then fieldText delta "partial_json"
  else ""

/-- What an event adds to the text of a block. -/
def blockPiece (index : ℤ) (event : SSEEvent) : String :=
  match eventIndex event with
  | .ok i =>
    if event.event = "content_block_delta" && i = index then deltaText (field event.data "delta")
    else ""
  | .error _ => ""

/-- The deltas of a block, joined. -/
def blockContent (index : ℤ) (events : List SSEEvent) : String :=
  String.join (events.map (blockPiece index))

section Concat

variable (events : List SSEEvent) (event : SSEEvent)

theorem textContent_concat :
    textContent (events ++ [event]) = textContent events ++ textPiece event := by
  simp [textContent]

theorem thinkingContent_concat :
    thinkingContent (events ++ [event]) = thinkingContent events ++ thinkingPiece event := by
  simp [thinkingContent]

theorem blockContent_concat (i : ℤ) :
    blockContent i (events ++ [event]) = blockContent i events ++ blockPiece i event := by
  simp [blockContent]

theorem hasToolUse_concat : hasToolUse (events ++ [event]) =
    (hasToolUse events || hasType (field event.data "content_block") "tool_use") := by
  simp [hasToolUse]

end Concat

/-! ## Deltas that the contract allows -/

/-- The deltas that a block of a type takes. -/
inductive Fits : String → String → Prop
  | text : Fits "text" "text_delta"
  | thinking : Fits "thinking" "thinking_delta"
  | signature : Fits "thinking" "signature_delta"
  | toolUse : Fits "tool_use" "input_json_delta"

theorem fits_of_takes {kind deltaType : String} (h : takes kind deltaType = true) :
    Fits kind deltaType := by
  unfold takes at h
  split_ifs at h with hthinking
  · subst hthinking
    rcases Bool.or_eq_true_iff.mp h with htype | htype
    · cases of_decide_eq_true htype
      exact .thinking
    · cases of_decide_eq_true htype
      exact .signature
  · have hlookup : expectedDelta.lookup kind = some deltaType :=
      of_decide_eq_true (Bool.and_eq_true_iff.mp h).2
    unfold expectedDelta at hlookup
    rw [List.lookup_cons] at hlookup
    split at hlookup
    · next htext =>
      cases hlookup
      cases eq_of_beq htext
      exact .text
    · rw [List.lookup_cons] at hlookup
      split at hlookup
      · next htool =>
        cases hlookup
        cases eq_of_beq htool
        exact .toolUse
      · cases hlookup

theorem not_fits_eager {deltaType : String} : ¬ Fits "text_eager" deltaType := by
  generalize hkind : "text_eager" = kind
  rintro (_ | _ | _ | _) <;> exact absurd hkind (by decide)

namespace AnthropicStreamLedger

variable {l l' : AnthropicStreamLedger} {c : ContractState}

/-- A delta that is allowed goes to an open block that takes it. -/
theorem Tracks.fits (h : l.Tracks c) {i : ℤ} {deltaType content : String}
    (hcheck : checkEvent false c (deltaEvent i (contentDelta deltaType content)) = .ok c) :
    ∃ state, l.contentBlocks.get? i = some state ∧ Fits state.blockType deltaType := by
  obtain ⟨⟨kind, hkind, htakes⟩, -⟩ := checkEvent_delta.mp hcheck
  rw [contentDelta_type] at htakes
  have hfits := fits_of_takes htakes
  obtain ⟨t, ht⟩ := h.isOpen i kind hkind
  obtain ⟨kind', hkind', hkept⟩ := h.opened i t ht
  obtain ⟨state, hstate, -, rfl⟩ := ht
  rw [hkind] at hkind'
  cases hkind'
  refine ⟨state, hstate, ?_⟩
  rcases hkept with rfl | ⟨-, rfl⟩
  · exact hfits
  · exact absurd hfits not_fits_eager

/-! ## Texts -/

/-- A block that starts without a text. -/
def Silent (blockType : String) (kwargs : List (String × Json)) : Prop :=
  ∀ key, (key, blockType) ∈ [("text", "text"), ("thinking", "thinking")] →
    kwargs.lookup key = none

theorem silent_own : StartsOwn Silent where
  text := fun _ _ => rfl
  thinking := fun _ _ => rfl
  tool := by
    rintro - - - key hkey
    simp at hkey

/-- The ledger's texts are those of the events. -/
structure Reads (l : AnthropicStreamLedger) : Prop where
  text : l.accumulatedText = textContent l.sent
  thinking : l.accumulatedReasoning = thinkingContent l.sent
  block : ∀ i state, l.contentBlocks.get? i = some state → state.content = blockContent i l.sent
  unseen : ∀ i, l.contentBlocks.get? i = none → blockContent i l.sent = ""
  tool : hasToolUse l.sent = true ↔
    ∃ i state, l.contentBlocks.get? i = some state ∧ state.blockType = "tool_use"

/-- An event without a text. -/
structure Quiet (event : SSEEvent) : Prop where
  text : textPiece event = ""
  thinking : thinkingPiece event = ""
  block : ∀ i, blockPiece i event = ""

/-- A quiet event that comes with blocks of the same texts and types. -/
theorem Reads.pass (h : l.Reads) {event : SSEEvent} (hquiet : Quiet event)
    (htool : hasType (field event.data "content_block") "tool_use" = false)
    (hsent : l'.sent = l.sent ++ [event]) (htext : l'.textParts = l.textParts)
    (hthinking : l'.thinkingParts = l.thinkingParts)
    (hblocks : ∀ i, (l'.contentBlocks.get? i).map (fun state => (state.parts, state.blockType)) =
      (l.contentBlocks.get? i).map fun state => (state.parts, state.blockType)) : l'.Reads := by
  have hcontent (i : ℤ) : blockContent i l'.sent = blockContent i l.sent := by
    rw [hsent, blockContent_concat, hquiet.block, String.append_empty]
  refine ⟨?_, ?_, ?_, ?_, ?_⟩
  · rw [accumulatedText, htext, hsent, textContent_concat, hquiet.text, String.append_empty]
    exact h.text
  · rw [accumulatedReasoning, hthinking, hsent, thinkingContent_concat, hquiet.thinking,
      String.append_empty]
    exact h.thinking
  · intro i state hstate
    have hsame := hblocks i
    rw [hstate, Option.map_some, eq_comm, Option.map_eq_some_iff] at hsame
    obtain ⟨old, hold, heq⟩ := hsame
    rw [hcontent, ← h.block i old hold]
    exact congrArg String.join (Prod.mk.inj heq).1.symm
  · intro i hi
    have hsame := hblocks i
    rw [hi, Option.map_none, eq_comm, Option.map_eq_none_iff] at hsame
    rw [hcontent, h.unseen i hsame]
  · rw [hsent, hasToolUse_concat, htool, Bool.or_false, h.tool]
    have hone {m m' : AnthropicStreamLedger}
        (hsame : ∀ i, (m'.contentBlocks.get? i).map (fun state => (state.parts, state.blockType)) =
          (m.contentBlocks.get? i).map fun state => (state.parts, state.blockType))
        (hm : ∃ i state, m.contentBlocks.get? i = some state ∧ state.blockType = "tool_use") :
        ∃ i state, m'.contentBlocks.get? i = some state ∧ state.blockType = "tool_use" := by
      obtain ⟨i, state, hstate, htype⟩ := hm
      have hi := hsame i
      rw [hstate, Option.map_some, Option.map_eq_some_iff] at hi
      obtain ⟨state', hstate', heq⟩ := hi
      exact ⟨i, state', hstate', (Prod.mk.inj heq).2.trans htype⟩
    exact ⟨hone hblocks, hone fun i => (hblocks i).symm⟩

theorem quiet_start {i : ℤ} {blockType : String} {kwargs : List (String × Json)}
    (hsilent : Silent blockType kwargs) :
    Quiet (startEvent i (contentBlock blockType kwargs)) := by
  refine ⟨?_, rfl, fun j => rfl⟩
  have hblock : field (startEvent i (contentBlock blockType kwargs)).data "content_block" =
      .obj (contentBlock blockType kwargs) := rfl
  have hdelta : field (startEvent i (contentBlock blockType kwargs)).data "delta" = .obj [] := rfl
  simp only [textPiece, hblock, hdelta]
  by_cases htext : blockType = "text"
  · subst htext
    have hlookup := hsilent "text" (by simp)
    have hempty : fieldText (.obj (contentBlock "text" kwargs)) "text" = "" := by
      have hfield : fieldText (.obj (contentBlock "text" kwargs)) "text" =
        ((kwargs.lookup "text").getD (.str "")).toStr := rfl
      rw [hfield, hlookup]
      rfl
    rw [hempty]
    split_ifs <;> rfl
  · have htype : hasType (.obj (contentBlock blockType kwargs)) "text" = false :=
      decide_eq_false htext
    rw [htype]
    rfl

theorem startedBlock_parts {i : ℤ} {blockType : String} {kwargs : List (String × Json)}
    (hsilent : Silent blockType kwargs) :
    (startedBlock i (contentBlock blockType kwargs)).parts = [] := by
  unfold startedBlock
  dsimp only
  rw [contentBlock_type]
  split_ifs with htool htext hthinking
  · rfl
  · subst htext
    have hlookup := hsilent "text" (by simp)
    have hfield : stringField (contentBlock "text" kwargs) "text" = "" := by
      simp [stringField, contentBlock, List.lookup, hlookup]
    simp [hfield, startParts]
  · subst hthinking
    have hlookup := hsilent "thinking" (by simp)
    have hfield : stringField (contentBlock "thinking" kwargs) "thinking" = "" := by
      simp [stringField, contentBlock, List.lookup, hlookup]
    simp [hfield, startParts]
  · rfl

theorem Reads.start (h : l.Reads) {i : ℤ} {blockType : String} {kwargs : List (String × Json)}
    (hsilent : Silent blockType kwargs) (hnew : l.contentBlocks.get? i = none) :
    (l.contentBlockStart i blockType kwargs).Reads := by
  have hquiet : Quiet (startEvent i (contentBlock blockType kwargs)) := quiet_start hsilent
  have hparts := startedBlock_parts (i := i) hsilent
  have hget (j : ℤ) : (l.contentBlockStart i blockType kwargs).contentBlocks.get? j =
      if j = i then some (startedBlock i (contentBlock blockType kwargs))
      else l.contentBlocks.get? j := by
    simp only [contentBlockStart, emit_contentBlocks, recordBlockStart_contentBlocks, Dict.get?_set]
  have hcontent (j : ℤ) : blockContent j (l.contentBlockStart i blockType kwargs).sent =
      blockContent j l.sent := by
    rw [contentBlockStart_sent, blockContent_concat, hquiet.block, String.append_empty]
  have hsame : (l.contentBlockStart i blockType kwargs).textParts = l.textParts ∧
      (l.contentBlockStart i blockType kwargs).thinkingParts = l.thinkingParts := by
    unfold contentBlockStart recordBlockStart
    dsimp only
    rw [hparts]
    split_ifs <;> simp [emit, reserveIndex]
  refine ⟨?_, ?_, ?_, ?_, ?_⟩
  · rw [accumulatedText, hsame.1, contentBlockStart_sent, textContent_concat, hquiet.text,
      String.append_empty]
    exact h.text
  · rw [accumulatedReasoning, hsame.2, contentBlockStart_sent, thinkingContent_concat,
      hquiet.thinking, String.append_empty]
    exact h.thinking
  · intro j state hstate
    rw [hget] at hstate
    rw [hcontent]
    split_ifs at hstate with hj
    · cases hstate
      rw [hj, h.unseen i hnew, StreamBlockState.content, hparts]
      rfl
    · exact h.block j state hstate
  · intro j hj
    rw [hget] at hj
    rw [hcontent]
    split_ifs at hj
    exact h.unseen j hj
  · rw [contentBlockStart_sent, hasToolUse_concat, Bool.or_eq_true, h.tool]
    have htype : hasType (field (startEvent i (contentBlock blockType kwargs)).data
        "content_block") "tool_use" = decide (blockType = "tool_use") := rfl
    rw [htype, decide_eq_true_eq]
    constructor
    · rintro (⟨j, state, hstate, hj⟩ | htool)
      · refine ⟨j, state, ?_, hj⟩
        rw [hget, if_neg, hstate]
        rintro rfl
        rw [hnew] at hstate
        cases hstate
      · refine ⟨i, _, (hget i).trans (if_pos rfl), ?_⟩
        rw [startedBlock_blockType, contentBlock_type, htool]
    · rintro ⟨j, state, hstate, hj⟩
      rw [hget] at hstate
      split_ifs at hstate
      · cases hstate
        rw [startedBlock_blockType, contentBlock_type] at hj
        exact Or.inr hj
      · exact Or.inl ⟨j, state, hstate, hj⟩

/-- What a delta adds to a block that takes it, and to the texts. -/
structure Adds (blockType deltaType content part : String) : Prop where
  taken : (deltaPart blockType (contentDelta deltaType content)).getD "" = part
  text : (if blockType = "text" then part else "") = textPiece
    (deltaEvent 0 (contentDelta deltaType content))
  thinking : (if blockType = "thinking" then part else "") = thinkingPiece
    (deltaEvent 0 (contentDelta deltaType content))
  block : deltaText (.obj (contentDelta deltaType content)) = part

theorem adds_of_fits {blockType deltaType : String} (h : Fits blockType deltaType)
    (content : String) : Adds blockType deltaType content
      (if deltaType = "signature_delta" then "" else content) := by
  cases h <;> exact ⟨rfl, by simp [textPiece, deltaEvent, eventData, contentDelta, deltaField,
    field, hasType, fieldText, Json.toStr, List.lookup], by simp [thinkingPiece, deltaEvent, eventData,
    contentDelta, deltaField, field, hasType, fieldText, Json.toStr, List.lookup],
    by simp [deltaText, contentDelta, deltaField, hasType, fieldText, Json.toStr, List.lookup]⟩

theorem addPart_content (state : StreamBlockState) (part : Option String) :
    (part.elim state state.addPart).content = state.content ++ part.getD "" := by
  cases part <;> simp [StreamBlockState.content, StreamBlockState.addPart]

theorem addPart_blockType (state : StreamBlockState) (part : Option String) :
    (part.elim state state.addPart).blockType = state.blockType := by
  cases part <;> rfl

section RecordDelta

variable {i : ℤ} {state : StreamBlockState} (delta : List (String × Json))
  (hstate : l.contentBlocks.get? i = some state)

include hstate

theorem recordBlockDelta_text : (l.recordBlockDelta i delta).accumulatedText =
    l.accumulatedText ++
      if state.blockType = "text" then (deltaPart state.blockType delta).getD "" else "" := by
  simp only [recordBlockDelta, accumulatedText, hstate]
  cases deltaPart state.blockType delta with
  | none => simp
  | some part => by_cases htext : state.blockType = "text" <;> simp [htext]

theorem recordBlockDelta_thinking : (l.recordBlockDelta i delta).accumulatedReasoning =
    l.accumulatedReasoning ++
      if state.blockType = "thinking" then (deltaPart state.blockType delta).getD "" else "" := by
  simp only [recordBlockDelta, accumulatedReasoning, hstate]
  cases deltaPart state.blockType delta with
  | none => simp
  | some part => by_cases hthinking : state.blockType = "thinking" <;> simp [hthinking]

end RecordDelta

theorem blockPiece_delta (i j : ℤ) (delta : List (String × Json)) :
    blockPiece j (deltaEvent i delta) = if i = j then deltaText (.obj delta) else "" := by
  have hpiece : blockPiece j (deltaEvent i delta) =
      if (true && decide (i = j)) = true then deltaText (.obj delta) else "" := rfl
  rw [hpiece, Bool.true_and]
  simp only [decide_eq_true_eq]

theorem Reads.delta (h : l.Reads) (htracks : l.Tracks c) {i : ℤ} {deltaType content : String}
    (hcheck : checkEvent false c (deltaEvent i (contentDelta deltaType content)) = .ok c) :
    (l.contentBlockDelta i deltaType content).Reads := by
  obtain ⟨state, hstate, hfits⟩ := htracks.fits hcheck
  have hadds := adds_of_fits hfits content
  have hget (j : ℤ) : (l.contentBlockDelta i deltaType content).contentBlocks.get? j =
      (l.contentBlocks.get? j).map fun old =>
        if j = i then
          (deltaPart old.blockType (contentDelta deltaType content)).elim old old.addPart
        else old := by
    rw [contentBlockDelta, emit_contentBlocks, recordBlockDelta_contentBlocks]
  have htype (j : ℤ) (old : StreamBlockState) :
      (if j = i then
        (deltaPart old.blockType (contentDelta deltaType content)).elim old old.addPart
      else old).blockType = old.blockType := by
    split_ifs
    · exact addPart_blockType _ _
    · rfl
  refine ⟨?_, ?_, ?_, ?_, ?_⟩
  · have htext := recordBlockDelta_text (contentDelta deltaType content) hstate
    rw [hadds.taken, hadds.text] at htext
    rw [contentBlockDelta_sent, textContent_concat, ← h.text]
    exact htext
  · have hthinking := recordBlockDelta_thinking (contentDelta deltaType content) hstate
    rw [hadds.taken, hadds.thinking] at hthinking
    rw [contentBlockDelta_sent, thinkingContent_concat, ← h.thinking]
    exact hthinking
  · intro j new hnew
    rw [hget, Option.map_eq_some_iff] at hnew
    obtain ⟨old, hold, rfl⟩ := hnew
    rw [contentBlockDelta_sent, blockContent_concat, blockPiece_delta, ← h.block j old hold]
    by_cases hj : j = i
    · subst hj
      rw [hstate] at hold
      cases hold
      rw [if_pos rfl, if_pos rfl, addPart_content, hadds.taken, hadds.block]
    · rw [if_neg hj, if_neg (Ne.symm hj), String.append_empty]
  · intro j hj
    rw [hget, Option.map_eq_none_iff] at hj
    rw [contentBlockDelta_sent, blockContent_concat, blockPiece_delta, h.unseen j hj, if_neg]
    · rfl
    · rintro rfl
      rw [hstate] at hj
      cases hj
  · have hdelta : hasType (field (deltaEvent i (contentDelta deltaType content)).data
        "content_block") "tool_use" = false := rfl
    rw [contentBlockDelta_sent, hasToolUse_concat, hdelta, Bool.or_false, h.tool]
    constructor
    · rintro ⟨j, old, hold, htool⟩
      refine ⟨j, _, (hget j).trans (by rw [hold, Option.map_some]), ?_⟩
      rw [htype, htool]
    · rintro ⟨j, new, hnew, htool⟩
      rw [hget, Option.map_eq_some_iff] at hnew
      obtain ⟨old, hold, rfl⟩ := hnew
      rw [htype] at htool
      exact ⟨j, old, hold, htool⟩

theorem Reads.stop (h : l.Reads) (i : ℤ) : (l.contentBlockStop i).Reads := by
  have hquiet : Quiet (stopEvent i) := by
    refine ⟨rfl, rfl, fun j => ?_⟩
    have hpiece : blockPiece j (stopEvent i) =
        if (false && decide (i = j)) = true then deltaText (.obj []) else "" := rfl
    rw [hpiece]
    rfl
  have hclose (m : AnthropicStreamLedger) : (m.closeBlock i).textParts = m.textParts ∧
      (m.closeBlock i).thinkingParts = m.thinkingParts := by
    unfold closeBlock clearActiveContentBlock
    split
    · exact ⟨rfl, rfl⟩
    · split_ifs <;> exact ⟨rfl, rfl⟩
  have hblocks (m : AnthropicStreamLedger) (j : ℤ) :
      ((m.closeBlock i).contentBlocks.get? j).map (fun state => (state.parts, state.blockType)) =
        (m.contentBlocks.get? j).map fun state => (state.parts, state.blockType) := by
    rw [closeBlock_contentBlocks]
    split_ifs
    · cases m.contentBlocks.get? j <;> rfl
    · rfl
  exact h.pass hquiet rfl (contentBlockStop_sent l i) (hclose _).1 (hclose _).2 fun j => hblocks _ j

/-- While the contract holds, the ledger tracks the checker and reads like the stream. -/
def KnownReads (l : AnthropicStreamLedger) : Prop :=
  ∀ c, checkEvents false l.sent = .ok c → l.Tracks c ∧ l.Reads

theorem KnownReads.known (h : l.KnownReads) : l.Known := fun c hc => (h c hc).1

/-- An event that the checker passes over and that has no text. -/
theorem KnownReads.pass (h : l.KnownReads) (hknown : l'.Known) {event : SSEEvent}
    (hquiet : Quiet event)
    (htool : hasType (field event.data "content_block") "tool_use" = false)
    (hsent : l'.sent = l.sent ++ [event]) (htext : l'.textParts = l.textParts)
    (hthinking : l'.thinkingParts = l.thinkingParts)
    (hblocks : l'.contentBlocks = l.contentBlocks) : l'.KnownReads := by
  intro c' hc'
  refine ⟨hknown c' hc', ?_⟩
  rw [hsent] at hc'
  obtain ⟨c, hc, -⟩ := Monitor.watch_concat_ok.mp hc'
  exact (h c hc).2.pass hquiet htool hsent htext hthinking fun i => by rw [hblocks]

theorem KnownReads.step (hstep : Step Silent l l') (h : l.KnownReads) : l'.KnownReads := by
  have hknown : l'.Known := h.known.step hstep
  cases hstep with
  | @start i blockType kwargs hsilent =>
    intro c' hc'
    refine ⟨hknown c' hc', ?_⟩
    rw [contentBlockStart_sent] at hc'
    obtain ⟨c, hc, hcheck⟩ := Monitor.watch_concat_ok.mp hc'
    obtain ⟨htracks, hreads⟩ := h c hc
    refine hreads.start hsilent (Option.eq_none_iff_forall_ne_some.mpr fun state hstate => ?_)
    exact (checkEvent_start.mp hcheck).2.2.1 ((htracks.seen i).mpr ⟨state, hstate⟩)
  | delta i deltaType content =>
    intro c' hc'
    refine ⟨hknown c' hc', ?_⟩
    rw [contentBlockDelta_sent] at hc'
    obtain ⟨c, hc, hcheck⟩ := Monitor.watch_concat_ok.mp hc'
    obtain ⟨-, rfl⟩ := checkEvent_delta.mp hcheck
    exact (h c' hc).2.delta (h c' hc).1 hcheck
  | stop i =>
    intro c' hc'
    refine ⟨hknown c' hc', ?_⟩
    rw [contentBlockStop_sent] at hc'
    obtain ⟨c, hc, -⟩ := Monitor.watch_concat_ok.mp hc'
    exact (h c hc).2.stop i
  | withBlocks blocks =>
    intro c' hc'
    obtain ⟨-, hreads⟩ := h c' hc'
    exact ⟨hknown c' hc', hreads.text, hreads.thinking, hreads.block, hreads.unseen, hreads.tool⟩
  | messageStart => exact h.pass hknown ⟨rfl, rfl, fun _ => rfl⟩ rfl rfl rfl rfl rfl
  | messageDelta stopReason outputTokens inputTokens usageFields =>
    exact h.pass hknown ⟨rfl, rfl, fun _ => rfl⟩ rfl rfl rfl rfl rfl
  | messageStop => exact h.pass hknown ⟨rfl, rfl, fun _ => rfl⟩ rfl rfl rfl rfl rfl

theorem knownReads_new (messageId model : String) (inputTokens : ℤ) :
    (new messageId model inputTokens).KnownReads := by
  intro c hc
  refine ⟨known_new messageId model inputTokens c hc, rfl, rfl, ?_, fun _ _ => rfl, ?_⟩
  · intro i state hstate
    cases hstate
  · refine iff_of_false Bool.false_ne_true ?_
    rintro ⟨i, state, hstate, -⟩
    cases hstate

theorem hasEmittedToolBlock_iff : l.hasEmittedToolBlock = true ↔
    ∃ i state, l.contentBlocks.get? i = some state ∧ state.blockType = "tool_use" := by
  rw [hasEmittedToolBlock, toolBlocks, Bool.not_eq_true', List.isEmpty_eq_false_iff_exists_mem]
  simp only [List.mem_filter, decide_eq_true_eq, Dict.mem_values]
  constructor
  · rintro ⟨state, ⟨i, hstate⟩, htype⟩
    exact ⟨i, state, hstate, htype⟩
  · rintro ⟨i, state, hstate, htype⟩
    exact ⟨state, ⟨i, hstate⟩, htype⟩

/-- Whatever calls were made on a ledger, if the contract allows what was sent, its texts, its
blocks and its stop reason are those that a reader of the stream finds. -/
theorem reads_of_allowed {messageId model : String} {inputTokens : ℤ} {ops : List LedgerOp}
    (hsilent : ∀ op ∈ ops, op.Starts Silent)
    (hrun : Monitor.feedAll apply (new messageId model inputTokens) ops = .ok l)
    (hc : checkEvents false l.sent = .ok c) :
    l.accumulatedText = textContent l.sent ∧
      l.accumulatedReasoning = thinkingContent l.sent ∧
      (∀ i state, l.contentBlocks.get? i = some state → state.content = blockContent i l.sent) ∧
      ∀ fallback, l.finalStopReason fallback =
        if hasToolUse l.sent then "tool_use" else fallback := by
  obtain ⟨-, hreads⟩ := run_keeps silent_own (fun _ _ => KnownReads.step) hsilent hrun
    (knownReads_new messageId model inputTokens) c hc
  refine ⟨hreads.text, hreads.thinking, hreads.block, fun fallback => ?_⟩
  have htool : l.hasEmittedToolBlock = hasToolUse l.sent := by
    rw [Bool.eq_iff_iff, hasEmittedToolBlock_iff, hreads.tool]
  rw [finalStopReason, htool]

theorem reads_of_brokenOff : ∃ l, Monitor.feedAll apply (new "m" "x" 7) brokenOff = .ok l ∧
    textContent l.sent = "hi" ∧ hasToolUse l.sent = true := by
  have hrun : Monitor.feedAll apply (new "m" "x" 7) brokenOff = .ok _ := rfl
  have hsilent : ∀ op ∈ brokenOff, op.Starts Silent := by
    simp [brokenOff, LedgerOp.Starts]
  have hreads := reads_of_allowed hsilent hrun rfl
  exact ⟨_, hrun, hreads.1.symm.trans (by rfl), by rfl⟩

end AnthropicStreamLedger

end Switchboard.Core.AnthropicStream
