import Mathlib
import Switchboard.Core.LedgerContract

/-!
# Runs of the ledger

Transports call the operations of a ledger in any order. While the contract allows what was sent,
the ledger can complete the stream.
-/

namespace Switchboard.Core.AnthropicStream

/-- The calls that transports make on a ledger. -/
inductive LedgerOp
  | messageStart
  | messageDelta (stopReason : String) (outputTokens inputTokens : Option ℤ)
      (usageFields : Dict String ℤ)
  | messageStop
  | contentBlockStart (index : ℤ) (blockType : String) (kwargs : List (String × Json))
  | contentBlockDelta (index : ℤ) (deltaType content : String)
  | contentBlockStop (index : ℤ)
  | allocateIndex
  | startThinkingBlock
  | emitThinkingDelta (content : String)
  | stopThinkingBlock
  | startTextBlock
  | emitTextDelta (content : String)
  | stopTextBlock
  | startToolBlock (toolIndex : ℕ) (toolId name : List Char) (extraContent : Option Json)
  | emitToolDelta (toolIndex : ℕ) (partialJson : String)
  | stopToolBlock (toolIndex : ℕ)
  | ensureThinkingBlock
  | ensureTextBlock
  | closeContentBlocks
  | closeAllBlocks
  | closeUnclosedBlocks

/-- A call that starts a block of any kind starts one that is allowed. -/
def LedgerOp.Starts (allowed : String → List (String × Json) → Prop) : LedgerOp → Prop
  | .contentBlockStart _ blockType kwargs => allowed blockType kwargs
  | _ => True

namespace AnthropicStreamLedger

/-- `blocks.allocate_index`, whose result is the index from before. -/
def allocateIndex (l : AnthropicStreamLedger) : AnthropicStreamLedger :=
  { l with blocks := { l.blocks with nextIndex := l.blocks.nextIndex + 1 } }

/-- One call; it fails with the key that a dictionary lacks. -/
def apply (l : AnthropicStreamLedger) : LedgerOp → Except ℕ AnthropicStreamLedger
  | .messageStart => .ok l.messageStart
  | .messageDelta stopReason outputTokens inputTokens usageFields =>
    .ok (l.messageDelta stopReason outputTokens inputTokens usageFields)
  | .messageStop => .ok l.messageStop
  | .contentBlockStart index blockType kwargs => .ok (l.contentBlockStart index blockType kwargs)
  | .contentBlockDelta index deltaType content => .ok (l.contentBlockDelta index deltaType content)
  | .contentBlockStop index => .ok (l.contentBlockStop index)
  | .allocateIndex => .ok l.allocateIndex
  | .startThinkingBlock => .ok l.startThinkingBlock
  | .emitThinkingDelta content => .ok (l.emitThinkingDelta content)
  | .stopThinkingBlock => .ok l.stopThinkingBlock
  | .startTextBlock => .ok l.startTextBlock
  | .emitTextDelta content => .ok (l.emitTextDelta content)
  | .stopTextBlock => .ok l.stopTextBlock
  | .startToolBlock toolIndex toolId name extraContent =>
    .ok (l.startToolBlock toolIndex toolId name extraContent)
  | .emitToolDelta toolIndex partialJson =>
    (l.emitToolDelta toolIndex partialJson).elim (.error toolIndex) .ok
  | .stopToolBlock toolIndex => (l.stopToolBlock toolIndex).elim (.error toolIndex) .ok
  | .ensureThinkingBlock => .ok l.ensureThinkingBlock
  | .ensureTextBlock => .ok l.ensureTextBlock
  | .closeContentBlocks => .ok l.closeContentBlocks
  | .closeAllBlocks => .ok l.closeAllBlocks
  | .closeUnclosedBlocks => .ok l.closeUnclosedBlocks

variable {l l' : AnthropicStreamLedger} {c c' : ContractState}

/-! ## Calls are made of few steps -/

/-- What a call does at once; a block starts with fields that are allowed. -/
inductive Step (allowed : String → List (String × Json) → Prop) (l : AnthropicStreamLedger) :
    AnthropicStreamLedger → Prop
  | start (i : ℤ) {blockType : String} {kwargs : List (String × Json)}
      (h : allowed blockType kwargs) : Step allowed l (l.contentBlockStart i blockType kwargs)
  | delta (i : ℤ) (deltaType content : String) :
      Step allowed l (l.contentBlockDelta i deltaType content)
  | stop (i : ℤ) : Step allowed l (l.contentBlockStop i)
  | withBlocks (blocks : StreamBlockLedger) : Step allowed l { l with blocks := blocks }
  | messageStart : Step allowed l l.messageStart
  | messageDelta (stopReason : String) (outputTokens inputTokens : Option ℤ)
      (usageFields : Dict String ℤ) :
      Step allowed l (l.messageDelta stopReason outputTokens inputTokens usageFields)
  | messageStop : Step allowed l l.messageStop

/-- The blocks that the calls with a kind of block of their own start. -/
structure StartsOwn (allowed : String → List (String × Json) → Prop) : Prop where
  text : allowed "text" []
  thinking : allowed "thinking" []
  tool : ∀ toolId name extraContent, allowed "tool_use" (toolFields toolId name extraContent)

section Steps

variable {allowed : String → List (String × Json) → Prop}

open Relation

theorem steps_stopThinkingIfStarted : ReflTransGen (Step allowed) l l.stopThinkingIfStarted := by
  unfold stopThinkingIfStarted
  split_ifs
  · exact .tail (.single (.withBlocks _)) (.stop _)
  · exact .refl

theorem steps_stopTextIfStarted : ReflTransGen (Step allowed) l l.stopTextIfStarted := by
  unfold stopTextIfStarted
  split_ifs
  · exact .tail (.single (.withBlocks _)) (.stop _)
  · exact .refl

theorem steps_startThinkingBlock (hown : StartsOwn allowed) :
    ReflTransGen (Step allowed) l l.startThinkingBlock :=
  .tail (.single (.withBlocks _)) (.start _ hown.thinking)

theorem steps_startTextBlock (hown : StartsOwn allowed) :
    ReflTransGen (Step allowed) l l.startTextBlock :=
  .tail (.single (.withBlocks _)) (.start _ hown.text)

theorem steps_ensureThinkingBlock (hown : StartsOwn allowed) :
    ReflTransGen (Step allowed) l l.ensureThinkingBlock := by
  unfold ensureThinkingBlock
  dsimp only
  split_ifs
  · exact steps_stopTextIfStarted
  · exact steps_stopTextIfStarted.trans (steps_startThinkingBlock hown)

theorem steps_ensureTextBlock (hown : StartsOwn allowed) :
    ReflTransGen (Step allowed) l l.ensureTextBlock := by
  unfold ensureTextBlock
  dsimp only
  split_ifs
  · exact steps_stopThinkingIfStarted
  · exact steps_stopThinkingIfStarted.trans (steps_startTextBlock hown)

theorem steps_closeContentBlocks : ReflTransGen (Step allowed) l l.closeContentBlocks :=
  steps_stopThinkingIfStarted.trans steps_stopTextIfStarted

theorem steps_foldl {β : Type} {f : AnthropicStreamLedger → β → AnthropicStreamLedger}
    (hf : ∀ m b, ReflTransGen (Step allowed) m (f m b)) (bs : List β) :
    ReflTransGen (Step allowed) l (bs.foldl f l) := by
  induction bs generalizing l with
  | nil => exact .refl
  | cons b bs ih => exact (hf l b).trans ih

theorem steps_closeTool (entry : ℕ × Switchboard.Providers.ToolCalls.ToolBlockState) :
    ReflTransGen (Step allowed) l (l.closeTool entry) := by
  unfold closeTool
  split_ifs
  · exact .single (.stop _)
  · exact .refl

/-- What `close_unclosed_blocks` does is to stop the last open block as long as there is one. -/
theorem closeUnclosedBlocks_eq (l : AnthropicStreamLedger) :
    l.closeUnclosedBlocks = l.openStack.reverse.foldl contentBlockStop l := by
  have hclose (m : AnthropicStreamLedger) (i : ℤ) (stack : List ℤ) :
      { m with openStack := stack }.closeUnclosed i =
        { m.closeUnclosed i with openStack := stack } := by
    simp only [closeUnclosed, closeBlock]
    cases m.contentBlocks.get? i with
    | none => rfl
    | some state =>
      simp only [clearActiveContentBlock]
      split_ifs <;> rfl
  have hfold (is : List ℤ) (m : AnthropicStreamLedger) :
      is.foldl closeUnclosed { m with openStack := [] } =
        is.foldl contentBlockStop { m with openStack := is.reverse } := by
    induction is generalizing m with
    | nil => rfl
    | cons i is ih =>
      have hlast : (is.reverse ++ [i]).getLast? = some i := List.getLast?_concat
      have hstop : { m with openStack := (i :: is).reverse }.contentBlockStop i =
          { m.closeUnclosed i with openStack := is.reverse } := by
        rw [← hclose, contentBlockStop, recordBlockStop, closeUnclosed, List.reverse_cons]
        simp only [hlast, if_true, List.dropLast_concat]
      rw [List.foldl_cons, List.foldl_cons, hclose, ih, hstop]
  have h := hfold l.openStack.reverse l
  rw [List.reverse_reverse] at h
  exact h

/-- What any call does. -/
theorem steps_apply (hown : StartsOwn allowed) {op : LedgerOp} (hstarts : op.Starts allowed)
    (hop : l.apply op = .ok l') : ReflTransGen (Step allowed) l l' := by
  cases op with
  | messageStart => cases hop; exact .single .messageStart
  | messageDelta stopReason outputTokens inputTokens usageFields =>
    cases hop
    exact .single (.messageDelta _ _ _ _)
  | messageStop => cases hop; exact .single .messageStop
  | contentBlockStart index blockType kwargs => cases hop; exact .single (.start _ hstarts)
  | contentBlockDelta index deltaType content => cases hop; exact .single (.delta _ _ _)
  | contentBlockStop index => cases hop; exact .single (.stop _)
  | allocateIndex => cases hop; exact .single (.withBlocks _)
  | startThinkingBlock => cases hop; exact steps_startThinkingBlock hown
  | emitThinkingDelta content => cases hop; exact .single (.delta _ _ _)
  | stopThinkingBlock => cases hop; exact .tail (.single (.withBlocks _)) (.stop _)
  | startTextBlock => cases hop; exact steps_startTextBlock hown
  | emitTextDelta content => cases hop; exact .single (.delta _ _ _)
  | stopTextBlock => cases hop; exact .tail (.single (.withBlocks _)) (.stop _)
  | startToolBlock toolIndex toolId name extraContent =>
    cases hop
    exact .tail (.single (.withBlocks _)) (.start _ (hown.tool _ _ _))
  | emitToolDelta toolIndex partialJson =>
    simp only [AnthropicStreamLedger.apply, emitToolDelta] at hop
    cases hget : l.blocks.toolStates.get? toolIndex with
    | none => simp [hget] at hop
    | some state =>
      rw [hget] at hop
      cases hop
      exact .single (.delta _ _ _)
  | stopToolBlock toolIndex =>
    simp only [AnthropicStreamLedger.apply, stopToolBlock] at hop
    cases hget : l.blocks.toolStates.get? toolIndex with
    | none => simp [hget] at hop
    | some state =>
      rw [hget] at hop
      cases hop
      exact .single (.stop _)
  | ensureThinkingBlock => cases hop; exact steps_ensureThinkingBlock hown
  | ensureTextBlock => cases hop; exact steps_ensureTextBlock hown
  | closeContentBlocks => cases hop; exact steps_closeContentBlocks
  | closeAllBlocks =>
    cases hop
    exact steps_closeContentBlocks.trans (steps_foldl (fun _ => steps_closeTool) _)
  | closeUnclosedBlocks =>
    cases hop
    rw [closeUnclosedBlocks_eq]
    exact steps_foldl (fun _ i => .single (.stop i)) _

theorem steps_keep {I : AnthropicStreamLedger → Prop}
    (hstep : ∀ m m', Step allowed m m' → I m → I m') (hsteps : ReflTransGen (Step allowed) l l')
    (h : I l) : I l' := by
  induction hsteps with
  | refl => exact h
  | tail _ hlast ih => exact hstep _ _ hlast ih

/-- What every step keeps is kept by every run of calls. -/
theorem run_keeps {I : AnthropicStreamLedger → Prop} (hown : StartsOwn allowed)
    (hstep : ∀ m m', Step allowed m m' → I m → I m') {ops : List LedgerOp}
    (hstarts : ∀ op ∈ ops, op.Starts allowed) (hrun : Monitor.feedAll apply l ops = .ok l')
    (h : I l) : I l' := by
  induction ops generalizing l with
  | nil =>
    cases hrun
    exact h
  | cons op ops ih =>
    obtain ⟨m, hop, hrest⟩ := Monitor.feedAll_cons_ok.mp hrun
    have hm : I m := steps_keep hstep (steps_apply hown (hstarts op List.mem_cons_self) hop) h
    exact ih (fun op' hop' => hstarts op' (List.mem_cons_of_mem _ hop')) hrest hm

end Steps

/-! ## What is known while the contract holds -/

theorem contentBlockStart_sent (l : AnthropicStreamLedger) (i : ℤ) (blockType : String)
    (kwargs : List (String × Json)) : (l.contentBlockStart i blockType kwargs).sent =
      l.sent ++ [startEvent i (contentBlock blockType kwargs)] := by
  simp [contentBlockStart, startEvent]

theorem contentBlockDelta_sent (l : AnthropicStreamLedger) (i : ℤ) (deltaType content : String) :
    (l.contentBlockDelta i deltaType content).sent =
      l.sent ++ [deltaEvent i (contentDelta deltaType content)] := by
  simp [contentBlockDelta, deltaEvent]

theorem contentBlockStop_sent (l : AnthropicStreamLedger) (i : ℤ) :
    (l.contentBlockStop i).sent = l.sent ++ [stopEvent i] := by
  simp [contentBlockStop, emitStop, recordBlockStop, stopEvent]

/-- Events are only added. -/
theorem Step.grows {allowed : String → List (String × Json) → Prop} (hstep : Step allowed l l') :
    l.sent <+: l'.sent := by
  cases hstep with
  | start i => exact contentBlockStart_sent .. ▸ List.prefix_append _ _
  | delta i deltaType content => exact contentBlockDelta_sent .. ▸ List.prefix_append _ _
  | stop i => exact contentBlockStop_sent .. ▸ List.prefix_append _ _
  | withBlocks blocks => exact List.prefix_rfl
  | messageStart => exact List.prefix_append _ _
  | messageDelta stopReason outputTokens inputTokens usageFields => exact List.prefix_append _ _
  | messageStop => exact List.prefix_append _ _

theorem grows_of_steps {allowed : String → List (String × Json) → Prop}
    (hsteps : Relation.ReflTransGen (Step allowed) l l') : l.sent <+: l'.sent := by
  induction hsteps with
  | refl => exact List.prefix_rfl
  | tail _ hlast ih => exact ih.trans hlast.grows

/-- If the contract allows what was sent, the ledger tracks the checker. -/
def Known (l : AnthropicStreamLedger) : Prop := ∀ c, checkEvents false l.sent = .ok c → l.Tracks c

/-- An event that the checker passes over. -/
theorem Known.pass (h : l.Known) {event : SSEEvent} (hblocks : l'.contentBlocks = l.contentBlocks)
    (hstack : l'.openStack = l.openStack) (hsent : l'.sent = l.sent ++ [event])
    (hevent : ∀ c, checkEvent false c event = .ok c) : l'.Known := by
  intro c' hc'
  rw [hsent] at hc'
  obtain ⟨c, hc, hcheck⟩ := Monitor.watch_concat_ok.mp hc'
  obtain rfl : c = c' := Except.ok.inj ((hevent c).symm.trans hcheck)
  exact (h c hc).congr hblocks hstack

theorem Known.step {allowed : String → List (String × Json) → Prop} (hstep : Step allowed l l')
    (h : l.Known) : l'.Known := by
  cases hstep with
  | start i hallowed =>
    intro c' hc'
    rw [contentBlockStart_sent] at hc'
    obtain ⟨c, hc, hcheck⟩ := Monitor.watch_concat_ok.mp hc'
    exact (h c hc).start hcheck
  | delta i deltaType content =>
    intro c' hc'
    rw [contentBlockDelta_sent] at hc'
    obtain ⟨c, hc, hcheck⟩ := Monitor.watch_concat_ok.mp hc'
    obtain ⟨-, rfl⟩ := checkEvent_delta.mp hcheck
    exact (h c' hc).delta
  | stop i =>
    intro c' hc'
    rw [contentBlockStop_sent] at hc'
    obtain ⟨c, hc, hcheck⟩ := Monitor.watch_concat_ok.mp hc'
    obtain ⟨-, rfl⟩ := checkEvent_stop.mp hcheck
    exact (h c hc).stop i
  | withBlocks blocks => exact fun c hc => (h c hc).congr rfl rfl
  | messageStart => exact h.pass rfl rfl rfl fun _ => rfl
  | messageDelta stopReason outputTokens inputTokens usageFields =>
    exact h.pass rfl rfl rfl fun _ => rfl
  | messageStop => exact h.pass rfl rfl rfl fun _ => rfl

/-- A start is recorded only when it is sent. -/
def StartSent (l : AnthropicStreamLedger) : Prop :=
  l.messageStarted = true → ∃ event ∈ l.sent, event.event = "message_start"

theorem StartSent.grows (h : l.StartSent) (hstarted : l'.messageStarted = l.messageStarted)
    (hsent : l.sent <+: l'.sent) : l'.StartSent := by
  intro hl'
  rw [hstarted] at hl'
  obtain ⟨event, hevent, hname⟩ := h hl'
  exact ⟨event, hsent.subset hevent, hname⟩

theorem contentBlockStop_started (l : AnthropicStreamLedger) (i : ℤ) :
    (l.contentBlockStop i).messageStarted = l.messageStarted := by
  have hclose (m : AnthropicStreamLedger) : (m.closeBlock i).messageStarted = m.messageStarted := by
    unfold closeBlock clearActiveContentBlock
    split
    · rfl
    · split_ifs <;> rfl
  exact hclose _

theorem StartSent.step {allowed : String → List (String × Json) → Prop} (hstep : Step allowed l l')
    (h : l.StartSent) : l'.StartSent := by
  cases hstep with
  | @start i blockType kwargs hallowed =>
    refine h.grows ?_ (contentBlockStart_sent l i blockType kwargs ▸ List.prefix_append _ _)
    unfold contentBlockStart recordBlockStart
    dsimp only
    split_ifs <;> rfl
  | delta i deltaType content =>
    refine h.grows ?_ (contentBlockDelta_sent l i deltaType content ▸ List.prefix_append _ _)
    unfold contentBlockDelta recordBlockDelta
    split
    · rfl
    · split <;> rfl
  | stop i =>
    exact h.grows (contentBlockStop_started l i)
      (contentBlockStop_sent l i ▸ List.prefix_append _ _)
  | withBlocks blocks => exact h
  | messageStart => exact fun _ => ⟨_, List.mem_append_right _ (List.mem_singleton_self _), rfl⟩
  | messageDelta stopReason outputTokens inputTokens usageFields =>
    exact h.grows rfl (List.prefix_append _ _)
  | messageStop => exact h.grows rfl (List.prefix_append _ _)

/-! ## Completing a stream -/

/-- Open blocks, the last one first, are stopped one after the other. -/
theorem stop_run {is : List ℤ} (h : l.Tracks c) (hstack : l.openStack = is.reverse)
    (hc : checkEvents false l.sent = .ok c) :
    (is.foldl contentBlockStop l).sent = l.sent ++ is.map stopEvent ∧
      (is.foldl contentBlockStop l).messageStarted = l.messageStarted ∧
      ∃ c', checkEvents false (is.foldl contentBlockStop l).sent = .ok c' ∧
        c'.seenBlocks = c.seenBlocks ∧ c'.openBlocks = .empty := by
  induction is generalizing l c with
  | nil =>
    refine ⟨(List.append_nil _).symm, rfl, c, hc, rfl, ?_⟩
    refine Dict.ext (List.eq_nil_iff_forall_not_mem.mpr fun entry hentry => ?_)
    obtain ⟨t, ht⟩ := h.isOpen entry.1 entry.2 (Dict.get?_eq_some.mpr hentry)
    have hmem := (h.stack entry.1).mpr ⟨t, ht⟩
    rw [hstack] at hmem
    cases hmem
  | cons i is ih =>
    have hmem : i ∈ l.openStack := by
      rw [hstack]
      exact List.mem_reverse.mpr List.mem_cons_self
    have hopen := (h.openAt_iff i).mp ((h.stack i).mp hmem)
    have hrest : (l.contentBlockStop i).openStack = is.reverse := by
      rw [contentBlockStop, recordBlockStop, emitStop, emit_openStack, closeBlock_openStack, hstack,
        List.reverse_cons, List.getLast?_concat, if_pos rfl, List.dropLast_concat]
    have hstep : checkEvents false (l.contentBlockStop i).sent =
        .ok ⟨c.openBlocks.erase i, c.seenBlocks⟩ := by
      rw [contentBlockStop_sent]
      exact Monitor.watch_concat_ok.mpr ⟨c, hc, checkEvent_stop.mpr ⟨hopen, rfl⟩⟩
    obtain ⟨hsent, hstarted, hdone⟩ := ih (h.stop i) hrest hstep
    rw [contentBlockStop_sent, List.append_assoc] at hsent
    rw [contentBlockStop_started] at hstarted
    exact ⟨hsent, hstarted, hdone⟩

def new (messageId model : String) (inputTokens : ℤ) : AnthropicStreamLedger :=
  { messageId := messageId, model := model, inputTokens := inputTokens }

theorem known_new (messageId model : String) (inputTokens : ℤ) :
    (new messageId model inputTokens).Known := by
  intro c hc
  cases hc
  have hnone (i : ℤ) (t : String) : ¬ (new messageId model inputTokens).OpenAt i t := by
    rintro ⟨state, hstate, -⟩
    cases hstate
  refine ⟨fun i => ?_, fun i t ht => absurd ht (hnone i t), ?_, ?_, List.nodup_nil, fun i => ?_⟩
  · refine iff_of_false (Finset.notMem_empty i) ?_
    rintro ⟨state, hstate⟩
    cases hstate
  · rintro i kind hkind
    cases hkind
  · rintro i state hstate
    cases hstate
  · exact iff_of_false List.not_mem_nil fun ⟨t, ht⟩ => hnone i t ht

/-- Whatever calls were made on a ledger, if the contract allows what was sent, then
`close_unclosed_blocks` stops the blocks that are open, each once and the last one first, and
`message_stop` completes a stream that meets the whole contract. -/
theorem closeUnclosedBlocks_completes {messageId model : String} {inputTokens : ℤ}
    {ops : List LedgerOp}
    (hrun : Monitor.feedAll apply (new messageId model inputTokens) ops = .ok l)
    (hc : checkEvents false l.sent = .ok c) :
    l.closeUnclosedBlocks.sent = l.sent ++ l.openStack.reverse.map stopEvent ∧
      l.openStack.Nodup ∧ (∀ i, i ∈ l.openStack ↔ ∃ kind, c.openBlocks.get? i = some kind) ∧
      (l.messageStarted = true → l.hasContentBlock = true →
        assertAnthropicStreamContract l.closeUnclosedBlocks.messageStop.sent = .ok ()) := by
  have hown : StartsOwn fun _ _ => True := ⟨trivial, trivial, fun _ _ _ => trivial⟩
  have hstarts : ∀ op ∈ ops, op.Starts fun _ _ => True := by
    intro op _
    cases op <;> trivial
  have htracks : l.Tracks c := run_keeps hown (fun _ _ => Known.step) hstarts hrun
    (known_new messageId model inputTokens) c hc
  have hstart : l.StartSent := run_keeps hown (fun _ _ => StartSent.step) hstarts hrun
    (fun h => by cases h)
  obtain ⟨hsent, hkept, c', hc', hseen, hopen⟩ :=
    stop_run htracks (List.reverse_reverse _).symm hc
  rw [← closeUnclosedBlocks_eq] at hsent hkept hc'
  refine ⟨hsent, htracks.nodup, fun i => (htracks.stack i).trans (htracks.openAt_iff i), ?_⟩
  intro hstarted hblock
  have hstop : l.closeUnclosedBlocks.messageStop.sent =
      l.closeUnclosedBlocks.sent ++ [⟨"message_stop", eventData "message_stop" []⟩] := rfl
  have hwatch : checkEvents false l.closeUnclosedBlocks.messageStop.sent = .ok c' := by
    rw [hstop]
    exact Monitor.watch_concat_ok.mpr ⟨c', hc', rfl⟩
  have hname : ∃ event ∈ l.closeUnclosedBlocks.messageStop.sent,
      event.event = "message_start" := by
    obtain ⟨event, hevent, hname⟩ := hstart hstarted
    rw [hstop, hsent]
    exact ⟨event, List.mem_append_left _ (List.mem_append_left _ hevent), hname⟩
  have hsome : c'.seenBlocks ≠ ∅ := by
    rw [hasContentBlock, Bool.not_eq_true', List.isEmpty_eq_false_iff_exists_mem] at hblock
    obtain ⟨entry, hentry⟩ := hblock
    have hmem : entry.1 ∈ c.seenBlocks :=
      (htracks.seen entry.1).mpr ⟨entry.2, Dict.get?_eq_some.mpr hentry⟩
    rw [hseen]
    exact Finset.ne_empty_of_mem hmem
  have hlast : l.closeUnclosedBlocks.messageStop.sent.getLast? =
      some ⟨"message_stop", eventData "message_stop" []⟩ := by
    rw [hstop, List.getLast?_concat]
  have hnone : c'.openBlocks.entries.isEmpty = true := by
    rw [hopen]
    rfl
  unfold assertAnthropicStreamContract
  rw [hlast]
  simp [hname, hwatch, hnone, hsome, bind, Except.bind, pure, Except.pure]

/-- A stream that breaks off with a text and a tool call open. -/
def brokenOff : List LedgerOp :=
  [.messageStart, .ensureThinkingBlock, .emitThinkingDelta "hm", .ensureTextBlock,
    .emitTextDelta "hi", .startToolBlock 0 ['t'] ['n'] none, .emitToolDelta 0 "1"]

theorem brokenOff_completes : ∃ l, Monitor.feedAll apply (new "m" "x" 7) brokenOff = .ok l ∧
    l.openStack = [1, 2] ∧
      assertAnthropicStreamContract l.closeUnclosedBlocks.messageStop.sent = .ok () := by
  have hrun : Monitor.feedAll apply (new "m" "x" 7) brokenOff = .ok _ := rfl
  exact ⟨_, hrun, rfl, (closeUnclosedBlocks_completes hrun rfl).2.2.2 rfl rfl⟩

end AnthropicStreamLedger

end Switchboard.Core.AnthropicStream
