import Mathlib
import Switchboard.Core.LedgerRuns

/-!
# Careful use of the ledger

Callers that start a block of a kind only when none of it is active, and write only to active
blocks, send what the contract allows.
-/

namespace Switchboard.Core.AnthropicStream

namespace AnthropicStreamLedger

variable {l l' : AnthropicStreamLedger} {c c' : ContractState}

/-- The blocks that the ledger's fields call active. -/
def Active (l : AnthropicStreamLedger) (index : ℤ) (blockType : String) : Prop :=
  (blockType = "text" ∧ l.blocks.textStarted = true ∧ l.blocks.textIndex = index) ∨
    (blockType = "thinking" ∧ l.blocks.thinkingStarted = true ∧ l.blocks.thinkingIndex = index) ∨
    (blockType = "tool_use" ∧ ∃ k state, l.blocks.toolStates.get? k = some state ∧
      state.started = true ∧ state.blockIndex = index)

/-- The open blocks are those that are active, and no index above them was used. -/
structure Tidy (l : AnthropicStreamLedger) : Prop where
  fresh : ∀ i, l.blocks.nextIndex ≤ i → l.contentBlocks.get? i = none
  open_iff : ∀ i t, l.OpenAt i t ↔ l.Active i t
  distinct : ∀ j k s s', l.blocks.toolStates.get? j = some s →
    l.blocks.toolStates.get? k = some s' → s.started = true → s'.started = true →
      s.blockIndex = s'.blockIndex → j = k

/-- The contract allows what was sent, and the checker ends in this state. -/
structure Allowed (l : AnthropicStreamLedger) (c : ContractState) : Prop where
  checks : checkEvents false l.sent = .ok c
  tracks : l.Tracks c
  plain : ∀ i, c.openBlocks.get? i ≠ some "text_eager"

theorem Allowed.kind (h : l.Allowed c) {i : ℤ} {t : String} (ht : l.OpenAt i t) :
    c.openBlocks.get? i = some t := by
  obtain ⟨kind, hkind, rfl | ⟨-, rfl⟩⟩ := h.tracks.opened i t ht
  · exact hkind
  · exact absurd hkind (h.plain i)

/-- Other fields do not matter. -/
theorem Allowed.congr (h : l.Allowed c) (hblocks : l'.contentBlocks = l.contentBlocks)
    (hstack : l'.openStack = l.openStack) (hsent : l'.sent = l.sent) : l'.Allowed c :=
  ⟨hsent ▸ h.checks, h.tracks.congr hblocks hstack, h.plain⟩

theorem Allowed.withBlocks (h : l.Allowed c) (blocks : StreamBlockLedger) :
    { l with blocks := blocks }.Allowed c := h.congr rfl rfl rfl

theorem Allowed.pass (h : l.Allowed c) {event : SSEEvent}
    (hblocks : l'.contentBlocks = l.contentBlocks) (hstack : l'.openStack = l.openStack)
    (hsent : l'.sent = l.sent ++ [event]) (hevent : checkEvent false c event = .ok c) :
    l'.Allowed c := by
  refine ⟨?_, h.tracks.congr hblocks hstack, h.plain⟩
  rw [hsent]
  exact Monitor.watch_concat_ok.mpr ⟨c, h.checks, hevent⟩

theorem Allowed.start (h : l.Allowed c) {i : ℤ} {blockType : String}
    {kwargs : List (String × Json)} (hnew : l.contentBlocks.get? i = none)
    (htype : allowedBlockStartTypes.contains blockType = true)
    (hplain : storage blockType (.obj (contentBlock blockType kwargs)) = blockType)
    (heager : blockType ≠ "text_eager") :
    ∃ c', (l.contentBlockStart i blockType kwargs).Allowed c' := by
  have hclosed : c.openBlocks.get? i = none := by
    refine Option.eq_none_iff_forall_ne_some.mpr fun kind hkind => ?_
    obtain ⟨t, state, hstate, -⟩ := h.tracks.isOpen i kind hkind
    rw [hnew] at hstate
    cases hstate
  have hseen : i ∉ c.seenBlocks := by
    rw [h.tracks.seen]
    rintro ⟨state, hstate⟩
    rw [hnew] at hstate
    cases hstate
  have hcheck : checkEvent false c (startEvent i (contentBlock blockType kwargs)) =
      .ok ⟨c.openBlocks.set i blockType, insert i c.seenBlocks⟩ := by
    refine checkEvent_start.mpr ⟨htype, hclosed, hseen, ?_⟩
    rw [contentBlock_type, hplain]
  refine ⟨_, ?_, h.tracks.start hcheck, ?_⟩
  · rw [contentBlockStart_sent]
    exact Monitor.watch_concat_ok.mpr ⟨c, h.checks, hcheck⟩
  · intro j hj
    rw [Dict.get?_set] at hj
    split_ifs at hj with hji
    · exact heager (Option.some.inj hj)
    · exact h.plain j hj

theorem Allowed.delta (h : l.Allowed c) {i : ℤ} {blockType deltaType : String}
    (hopen : l.OpenAt i blockType) (htakes : takes blockType deltaType = true) (content : String) :
    (l.contentBlockDelta i deltaType content).Allowed c := by
  refine ⟨?_, h.tracks.delta, h.plain⟩
  rw [contentBlockDelta_sent]
  refine Monitor.watch_concat_ok.mpr ⟨c, h.checks, checkEvent_delta.mpr ⟨⟨blockType, ?_, ?_⟩, rfl⟩⟩
  · exact h.kind hopen
  · rw [contentDelta_type]
    exact htakes

theorem Allowed.stop (h : l.Allowed c) {i : ℤ} {blockType : String} (hopen : l.OpenAt i blockType) :
    ∃ c', (l.contentBlockStop i).Allowed c' := by
  refine ⟨_, ?_, h.tracks.stop i, fun j hj => ?_⟩
  · rw [contentBlockStop_sent]
    exact Monitor.watch_concat_ok.mpr
      ⟨c, h.checks, checkEvent_stop.mpr ⟨⟨blockType, h.kind hopen⟩, rfl⟩⟩
  · rw [Dict.get?_erase] at hj
    split_ifs at hj
    exact h.plain j hj

/-! ## Tidiness -/

theorem Tidy.not_active (h : l.Tidy) {i : ℤ} (hi : l.blocks.nextIndex ≤ i) (t : String) :
    ¬ l.Active i t := by
  rw [← h.open_iff]
  rintro ⟨state, hstate, -⟩
  rw [h.fresh i hi] at hstate
  cases hstate

/-- A block starts at the next index and becomes active. -/
theorem Tidy.start (h : l.Tidy) {blocks : StreamBlockLedger} {blockType : String}
    {kwargs : List (String × Json)}
    (hl' : l' = { l with blocks := blocks }.contentBlockStart l.blocks.nextIndex blockType kwargs)
    (hnext : l'.blocks.nextIndex = l.blocks.nextIndex + 1)
    (hactive : ∀ i t, l'.Active i t ↔ (i = l.blocks.nextIndex ∧ t = blockType) ∨ l.Active i t)
    (hdistinct : ∀ j k s s', l'.blocks.toolStates.get? j = some s →
      l'.blocks.toolStates.get? k = some s' → s.started = true → s'.started = true →
        s.blockIndex = s'.blockIndex → j = k) : l'.Tidy := by
  refine ⟨?_, ?_, hdistinct⟩
  · intro i hi
    rw [hnext] at hi
    have hne : i ≠ l.blocks.nextIndex := by omega
    rw [hl', contentBlockStart, emit_contentBlocks, recordBlockStart_contentBlocks,
      Dict.get?_set_of_ne _ _ hne]
    exact h.fresh i (by omega)
  · intro i t
    have hopen : l'.OpenAt i t ↔
        if i = l.blocks.nextIndex then t = blockType else l.OpenAt i t := by
      rw [hl']
      exact openAt_start _ _ _ _ _ _
    rw [hopen, hactive, ← h.open_iff]
    split_ifs with hi
    · have hnot : ¬ l.OpenAt i t := by
        rw [h.open_iff, hi]
        exact h.not_active le_rfl t
      simp [hi, hi ▸ hnot]
    · simp [hi]

/-- A block is stopped and is no longer active. -/
theorem Tidy.stop (h : l.Tidy) {blocks : StreamBlockLedger} {i : ℤ}
    (hcontent : l'.contentBlocks =
      ({ l with blocks := blocks }.contentBlockStop i).contentBlocks)
    (hnext : l'.blocks.nextIndex = l.blocks.nextIndex)
    (hactive : ∀ j t, l'.Active j t ↔ j ≠ i ∧ l.Active j t)
    (hdistinct : ∀ j k s s', l'.blocks.toolStates.get? j = some s →
      l'.blocks.toolStates.get? k = some s' → s.started = true → s'.started = true →
        s.blockIndex = s'.blockIndex → j = k) : l'.Tidy := by
  refine ⟨?_, ?_, hdistinct⟩
  · intro j hj
    rw [hnext] at hj
    rw [hcontent, contentBlockStop_contentBlocks]
    split_ifs
    · exact Option.map_eq_none_iff.mpr (h.fresh j hj)
    · exact h.fresh j hj
  · intro j t
    have hopen : l'.OpenAt j t ↔ ({ l with blocks := blocks }.contentBlockStop i).OpenAt j t := by
      rw [OpenAt, hcontent, OpenAt]
    rw [hopen, openAt_stop, hactive, ← h.open_iff]
    rfl

/-! ## What starts and stops do to the allocation -/

theorem startTextBlock_blocks : l.startTextBlock.blocks =
    { l.blocks with
      nextIndex := l.blocks.nextIndex + 1, textIndex := l.blocks.nextIndex
      textStarted := true } := by
  have h : l.startTextBlock.blocks =
      { l.blocks with
        nextIndex := max (l.blocks.nextIndex + 1) (l.blocks.nextIndex + 1)
        textIndex := l.blocks.nextIndex, textStarted := true } := rfl
  rw [h, max_self]

theorem startThinkingBlock_blocks : l.startThinkingBlock.blocks =
    { l.blocks with
      nextIndex := l.blocks.nextIndex + 1, thinkingIndex := l.blocks.nextIndex
      thinkingStarted := true } := by
  have h : l.startThinkingBlock.blocks =
      { l.blocks with
        nextIndex := max (l.blocks.nextIndex + 1) (l.blocks.nextIndex + 1)
        thinkingIndex := l.blocks.nextIndex, thinkingStarted := true } := rfl
  rw [h, max_self]

theorem startToolBlock_blocks (k : ℕ) (toolId name : List Char) (extraContent : Option Json) :
    (l.startToolBlock k toolId name extraContent).blocks =
      { l.blocks with
        nextIndex := l.blocks.nextIndex + 1
        toolStates := l.blocks.toolStates.set k (l.startedTool k toolId name extraContent) } := by
  have h : (l.startToolBlock k toolId name extraContent).blocks =
      { l.blocks with
        nextIndex := max (l.blocks.nextIndex + 1) (l.blocks.nextIndex + 1)
        toolStates := l.blocks.toolStates.set k (l.startedTool k toolId name extraContent) } := rfl
  rw [h, max_self]

/-- The allocation after a block of a type is stopped. -/
def stoppedBlocks (blocks : StreamBlockLedger) (index : ℤ) (blockType : String) :
    StreamBlockLedger :=
  if blockType = "text" && blocks.textIndex = index then { blocks with textStarted := false }
  else if blockType = "thinking" && blocks.thinkingIndex = index then
    { blocks with thinkingStarted := false }
  else blocks

theorem contentBlockStop_blocks {i : ℤ} {t : String} (hopen : l.OpenAt i t)
    (hkeyed : ∀ i state, l.contentBlocks.get? i = some state → state.index = i) :
    (l.contentBlockStop i).blocks = stoppedBlocks l.blocks i t := by
  obtain ⟨state, hstate, -, rfl⟩ := hopen
  simp only [contentBlockStop, recordBlockStop, emitStop, emit_blocks, closeBlock, hstate,
    clearActiveContentBlock, stoppedBlocks, hkeyed i state hstate]
  split_ifs <;> rfl

theorem startedTool_started (k : ℕ) (toolId name : List Char) (extraContent : Option Json) :
    (l.startedTool k toolId name extraContent).started = true := by
  unfold startedTool
  split <;> rfl

theorem startedTool_blockIndex (k : ℕ) (toolId name : List Char) (extraContent : Option Json) :
    (l.startedTool k toolId name extraContent).blockIndex = l.blocks.nextIndex := by
  unfold startedTool
  split <;> rfl

/-! ## Careful calls -/

/-- The ledger is in careful hands. -/
def Sound (l : AnthropicStreamLedger) : Prop := l.Tidy ∧ ∃ c, l.Allowed c

theorem Sound.startTextBlock (h : l.Sound) (hfree : l.blocks.textStarted = false) :
    l.startTextBlock.Sound := by
  obtain ⟨htidy, c, hc⟩ := h
  refine ⟨htidy.start rfl (by rw [startTextBlock_blocks]) (fun i t => ?_) ?_, ?_⟩
  · simp only [Active, startTextBlock_blocks, hfree]
    constructor
    · rintro (⟨ht, -, hi⟩ | hrest)
      · exact Or.inl ⟨hi.symm, ht⟩
      · exact Or.inr (Or.inr hrest)
    · rintro (⟨hi, ht⟩ | ⟨-, hfalse, -⟩ | hrest)
      · exact Or.inl ⟨ht, trivial, hi.symm⟩
      · cases hfalse
      · exact Or.inr hrest
  · rw [startTextBlock_blocks]
    exact htidy.distinct
  · exact (hc.withBlocks _).start (htidy.fresh _ le_rfl) rfl rfl (by decide)

theorem Sound.startThinkingBlock (h : l.Sound) (hfree : l.blocks.thinkingStarted = false) :
    l.startThinkingBlock.Sound := by
  obtain ⟨htidy, c, hc⟩ := h
  refine ⟨htidy.start rfl (by rw [startThinkingBlock_blocks]) (fun i t => ?_) ?_, ?_⟩
  · simp only [Active, startThinkingBlock_blocks, hfree]
    constructor
    · rintro (htext | ⟨ht, -, hi⟩ | htool)
      · exact Or.inr (Or.inl htext)
      · exact Or.inl ⟨hi.symm, ht⟩
      · exact Or.inr (Or.inr (Or.inr htool))
    · rintro (⟨hi, ht⟩ | htext | ⟨-, hfalse, -⟩ | htool)
      · exact Or.inr (Or.inl ⟨ht, trivial, hi.symm⟩)
      · exact Or.inl htext
      · cases hfalse
      · exact Or.inr (Or.inr htool)
  · rw [startThinkingBlock_blocks]
    exact htidy.distinct
  · exact (hc.withBlocks _).start (htidy.fresh _ le_rfl) rfl rfl (by decide)

/-- A tool index that has no open block. -/
def ToolFree (l : AnthropicStreamLedger) (k : ℕ) : Prop :=
  ∀ state, l.blocks.toolStates.get? k = some state → state.started = false

theorem Sound.startToolBlock (h : l.Sound) {k : ℕ} (hfree : l.ToolFree k) (toolId name : List Char)
    (extraContent : Option Json) : (l.startToolBlock k toolId name extraContent).Sound := by
  obtain ⟨htidy, c, hc⟩ := h
  have hblocks := startToolBlock_blocks (l := l) k toolId name extraContent
  have hnew := startedTool_blockIndex (l := l) k toolId name extraContent
  have hactive (j : ℕ) (s) (hs : l.blocks.toolStates.get? j = some s)
      (hstarted : s.started = true) : s.blockIndex ≠ l.blocks.nextIndex := by
    intro heq
    exact htidy.not_active le_rfl "tool_use" (Or.inr (Or.inr ⟨rfl, j, s, hs, hstarted, heq⟩))
  refine ⟨htidy.start rfl (by rw [hblocks]) (fun i t => ?_) ?_, ?_⟩
  · simp only [Active, hblocks]
    constructor
    · rintro (htext | hthinking | ⟨ht, j, s, hs, hstarted, hi⟩)
      · exact Or.inr (Or.inl htext)
      · exact Or.inr (Or.inr (Or.inl hthinking))
      · rw [Dict.get?_set] at hs
        split_ifs at hs with hj
        · cases hs
          exact Or.inl ⟨hi.symm.trans hnew, ht⟩
        · exact Or.inr (Or.inr (Or.inr ⟨ht, j, s, hs, hstarted, hi⟩))
    · rintro (⟨hi, ht⟩ | htext | hthinking | ⟨ht, j, s, hs, hstarted, hi⟩)
      · refine Or.inr (Or.inr ⟨ht, k, _, (Dict.get?_set ..).trans (if_pos rfl), ?_, ?_⟩)
        · exact startedTool_started ..
        · rw [hnew, hi]
      · exact Or.inl htext
      · exact Or.inr (Or.inl hthinking)
      · refine Or.inr (Or.inr ⟨ht, j, s, ?_, hstarted, hi⟩)
        rw [Dict.get?_set_of_ne _ _ ?_, hs]
        rintro rfl
        rw [hfree s hs] at hstarted
        cases hstarted
  · intro i j s s' hs hs' hstarted hstarted' heq
    rw [hblocks, Dict.get?_set] at hs hs'
    split_ifs at hs hs' with hi hj hj
    · rw [hi, hj]
    · cases hs
      rw [hnew] at heq
      exact absurd heq.symm (hactive j s' hs' hstarted')
    · cases hs'
      rw [hnew] at heq
      exact absurd heq (hactive i s hs hstarted)
    · exact htidy.distinct i j s s' hs hs' hstarted hstarted' heq
  · exact (hc.withBlocks _).start (htidy.fresh _ le_rfl) rfl rfl (by decide)

theorem Sound.delta (h : l.Sound) {i : ℤ} {blockType deltaType : String}
    (hactive : l.Active i blockType) (htakes : takes blockType deltaType = true)
    (content : String) : (l.contentBlockDelta i deltaType content).Sound := by
  obtain ⟨htidy, c, hc⟩ := h
  have hblocks : (l.contentBlockDelta i deltaType content).blocks = l.blocks := by
    rw [contentBlockDelta, emit_blocks, recordBlockDelta_blocks]
  refine ⟨⟨?_, ?_, ?_⟩, c, hc.delta ((htidy.open_iff i blockType).mpr hactive) htakes content⟩
  · intro j hj
    rw [hblocks] at hj
    rw [contentBlockDelta, emit_contentBlocks, recordBlockDelta_contentBlocks, htidy.fresh j hj]
    rfl
  · intro j t
    rw [openAt_delta, htidy.open_iff]
    simp only [Active, hblocks]
  · rw [hblocks]
    exact htidy.distinct

theorem Sound.emitTextDelta (h : l.Sound) (hstarted : l.blocks.textStarted = true)
    (content : String) : (l.emitTextDelta content).Sound :=
  h.delta (Or.inl ⟨rfl, hstarted, rfl⟩) rfl content

theorem Sound.emitThinkingDelta (h : l.Sound) (hstarted : l.blocks.thinkingStarted = true)
    (content : String) : (l.emitThinkingDelta content).Sound :=
  h.delta (Or.inr (Or.inl ⟨rfl, hstarted, rfl⟩)) rfl content

/-- An index is active for one type of block at most. -/
theorem Tidy.active_unique (h : l.Tidy) {i : ℤ} {s t : String} (hs : l.Active i s)
    (ht : l.Active i t) : s = t :=
  ((h.open_iff i s).mpr hs).unique ((h.open_iff i t).mpr ht)

theorem Tidy.text_stopped (h : l.Tidy) (hstarted : l.blocks.textStarted = true)
    (hl' : l'.blocks = { l.blocks with textStarted := false }) (j : ℤ) (t : String) :
    l'.Active j t ↔ j ≠ l.blocks.textIndex ∧ l.Active j t := by
  have htext : l.Active l.blocks.textIndex "text" := Or.inl ⟨rfl, hstarted, rfl⟩
  simp only [Active, hl']
  constructor
  · rintro (⟨-, hfalse, -⟩ | hrest)
    · cases hfalse
    · refine ⟨?_, Or.inr hrest⟩
      rintro rfl
      obtain rfl := h.active_unique (Or.inr hrest) htext
      rcases hrest with ⟨ht, -⟩ | ⟨ht, -⟩ <;> exact absurd ht (by decide)
  · rintro ⟨hne, ⟨-, -, hj⟩ | hrest⟩
    · exact absurd hj.symm hne
    · exact Or.inr hrest

theorem Tidy.thinking_stopped (h : l.Tidy) (hstarted : l.blocks.thinkingStarted = true)
    (hl' : l'.blocks = { l.blocks with thinkingStarted := false }) (j : ℤ) (t : String) :
    l'.Active j t ↔ j ≠ l.blocks.thinkingIndex ∧ l.Active j t := by
  have hthinking : l.Active l.blocks.thinkingIndex "thinking" :=
    Or.inr (Or.inl ⟨rfl, hstarted, rfl⟩)
  simp only [Active, hl']
  constructor
  · rintro (htext | ⟨-, hfalse, -⟩ | htool)
    · refine ⟨?_, Or.inl htext⟩
      rintro rfl
      obtain rfl := h.active_unique (Or.inl htext) hthinking
      exact absurd htext.1 (by decide)
    · cases hfalse
    · refine ⟨?_, Or.inr (Or.inr htool)⟩
      rintro rfl
      obtain rfl := h.active_unique (Or.inr (Or.inr htool)) hthinking
      exact absurd htool.1 (by decide)
  · rintro ⟨hne, htext | ⟨-, -, hj⟩ | htool⟩
    · exact Or.inl htext
    · exact absurd hj.symm hne
    · exact Or.inr (Or.inr htool)

theorem stopTextBlock_blocks (h : l.Sound) (hstarted : l.blocks.textStarted = true) :
    l.stopTextBlock.blocks = { l.blocks with textStarted := false } := by
  obtain ⟨htidy, c, hc⟩ := h
  have hopen : { l with blocks := { l.blocks with textStarted := false } }.OpenAt
      l.blocks.textIndex "text" := (htidy.open_iff _ _).mpr (Or.inl ⟨rfl, hstarted, rfl⟩)
  rw [stopTextBlock, contentBlockStop_blocks hopen hc.tracks.keyed]
  simp [stoppedBlocks]

theorem stopThinkingBlock_blocks (h : l.Sound) (hstarted : l.blocks.thinkingStarted = true) :
    l.stopThinkingBlock.blocks = { l.blocks with thinkingStarted := false } := by
  obtain ⟨htidy, c, hc⟩ := h
  have hopen : { l with blocks := { l.blocks with thinkingStarted := false } }.OpenAt
      l.blocks.thinkingIndex "thinking" :=
    (htidy.open_iff _ _).mpr (Or.inr (Or.inl ⟨rfl, hstarted, rfl⟩))
  rw [stopThinkingBlock, contentBlockStop_blocks hopen hc.tracks.keyed]
  simp [stoppedBlocks]

theorem Sound.stopTextBlock (h : l.Sound) (hstarted : l.blocks.textStarted = true) :
    l.stopTextBlock.Sound := by
  have hblocks := stopTextBlock_blocks h hstarted
  obtain ⟨htidy, c, hc⟩ := h
  refine ⟨htidy.stop (i := l.blocks.textIndex) rfl (by rw [hblocks])
    (htidy.text_stopped hstarted hblocks) ?_, ?_⟩
  · rw [hblocks]
    exact htidy.distinct
  · exact (hc.withBlocks _).stop ((htidy.open_iff _ "text").mpr (Or.inl ⟨rfl, hstarted, rfl⟩))

theorem Sound.stopThinkingBlock (h : l.Sound) (hstarted : l.blocks.thinkingStarted = true) :
    l.stopThinkingBlock.Sound := by
  have hblocks := stopThinkingBlock_blocks h hstarted
  obtain ⟨htidy, c, hc⟩ := h
  refine ⟨htidy.stop (i := l.blocks.thinkingIndex) rfl (by rw [hblocks])
    (htidy.thinking_stopped hstarted hblocks) ?_, ?_⟩
  · rw [hblocks]
    exact htidy.distinct
  · exact (hc.withBlocks _).stop
      ((htidy.open_iff _ "thinking").mpr (Or.inr (Or.inl ⟨rfl, hstarted, rfl⟩)))

/-- What closing the text and thinking blocks leaves. -/
theorem Sound.closeContentBlocks (h : l.Sound) : l.closeContentBlocks.Sound ∧
    l.closeContentBlocks.blocks =
      { l.blocks with thinkingStarted := false, textStarted := false } := by
  have hthinking : l.stopThinkingIfStarted.Sound ∧
      l.stopThinkingIfStarted.blocks = { l.blocks with thinkingStarted := false } := by
    unfold stopThinkingIfStarted
    split_ifs with hstarted
    · exact ⟨h.stopThinkingBlock hstarted, stopThinkingBlock_blocks h hstarted⟩
    · rw [Bool.not_eq_true] at hstarted
      exact ⟨h, by rw [← hstarted]⟩
  obtain ⟨hsound, hblocks⟩ := hthinking
  unfold AnthropicStreamLedger.closeContentBlocks stopTextIfStarted
  split_ifs with hstarted
  · exact ⟨hsound.stopTextBlock hstarted, by rw [stopTextBlock_blocks hsound hstarted, hblocks]⟩
  · rw [Bool.not_eq_true, hblocks] at hstarted
    exact ⟨hsound, by rw [hblocks, ← hstarted]⟩

theorem Sound.ensureTextBlock (h : l.Sound) : l.ensureTextBlock.Sound ∧
    l.ensureTextBlock.blocks.textStarted = true ∧
    l.ensureTextBlock.blocks.toolStates = l.blocks.toolStates := by
  have hthinking : l.stopThinkingIfStarted.Sound ∧
      l.stopThinkingIfStarted.blocks.toolStates = l.blocks.toolStates := by
    unfold stopThinkingIfStarted
    split_ifs with hstarted
    · exact ⟨h.stopThinkingBlock hstarted, by rw [stopThinkingBlock_blocks h hstarted]⟩
    · exact ⟨h, rfl⟩
  obtain ⟨hsound, htools⟩ := hthinking
  unfold AnthropicStreamLedger.ensureTextBlock
  dsimp only
  split_ifs with hstarted
  · exact ⟨hsound, hstarted, htools⟩
  · rw [Bool.not_eq_true] at hstarted
    exact ⟨hsound.startTextBlock hstarted, by rw [startTextBlock_blocks],
      by rw [startTextBlock_blocks]; exact htools⟩

theorem Sound.ensureThinkingBlock (h : l.Sound) : l.ensureThinkingBlock.Sound ∧
    l.ensureThinkingBlock.blocks.thinkingStarted = true ∧
    l.ensureThinkingBlock.blocks.toolStates = l.blocks.toolStates := by
  have htext : l.stopTextIfStarted.Sound ∧
      l.stopTextIfStarted.blocks.toolStates = l.blocks.toolStates := by
    unfold stopTextIfStarted
    split_ifs with hstarted
    · exact ⟨h.stopTextBlock hstarted, by rw [stopTextBlock_blocks h hstarted]⟩
    · exact ⟨h, rfl⟩
  obtain ⟨hsound, htools⟩ := htext
  unfold AnthropicStreamLedger.ensureThinkingBlock
  dsimp only
  split_ifs with hstarted
  · exact ⟨hsound, hstarted, htools⟩
  · rw [Bool.not_eq_true] at hstarted
    exact ⟨hsound.startThinkingBlock hstarted, by rw [startThinkingBlock_blocks],
      by rw [startThinkingBlock_blocks]; exact htools⟩

/-! ## Other calls -/

/-- A message event. -/
theorem Sound.pass (h : l.Sound) {event : SSEEvent} (hblocks : l'.blocks = l.blocks)
    (hcontent : l'.contentBlocks = l.contentBlocks) (hstack : l'.openStack = l.openStack)
    (hsent : l'.sent = l.sent ++ [event]) (hevent : ∀ c, checkEvent false c event = .ok c) :
    l'.Sound := by
  obtain ⟨htidy, c, hc⟩ := h
  refine ⟨⟨?_, ?_, ?_⟩, c, hc.pass hcontent hstack hsent (hevent c)⟩
  · rw [hblocks, hcontent]
    exact htidy.fresh
  · intro i t
    rw [OpenAt, hcontent, Active, hblocks]
    exact htidy.open_iff i t
  · rw [hblocks]
    exact htidy.distinct

/-- A block of a kind that has no deltas is stopped as soon as it starts. -/
theorem Sound.startStop (h : l.Sound) {blockType : String} {kwargs : List (String × Json)}
    (htype : allowedBlockStartTypes.contains blockType = true)
    (hother : blockType ≠ "text" ∧ blockType ≠ "thinking") (heager : blockType ≠ "text_eager") :
    ((l.allocateIndex.contentBlockStart l.blocks.nextIndex blockType kwargs).contentBlockStop
        l.blocks.nextIndex).Sound ∧
      ((l.allocateIndex.contentBlockStart l.blocks.nextIndex blockType kwargs).contentBlockStop
        l.blocks.nextIndex).blocks = { l.blocks with nextIndex := l.blocks.nextIndex + 1 } := by
  obtain ⟨htidy, c, hc⟩ := h
  have hplain : storage blockType (.obj (contentBlock blockType kwargs)) = blockType := by
    simp [storage, hother.1]
  obtain ⟨c', hc'⟩ := (hc.withBlocks { l.blocks with nextIndex := l.blocks.nextIndex + 1 }).start
    (htidy.fresh _ le_rfl) htype hplain heager
  set m := l.allocateIndex.contentBlockStart l.blocks.nextIndex blockType kwargs with hm
  have hopen : m.OpenAt l.blocks.nextIndex blockType := by simp [hm, openAt_start]
  have hstart : m.blocks = { l.blocks with nextIndex := l.blocks.nextIndex + 1 } := by
    have hstarted : (startedBlock l.blocks.nextIndex (contentBlock blockType kwargs)).blockType =
        blockType := startedBlock_blockType _ _
    simp [hm, contentBlockStart, recordBlockStart, hstarted, hother, reserveIndex, allocateIndex]
  have hblocks : (m.contentBlockStop l.blocks.nextIndex).blocks =
      { l.blocks with nextIndex := l.blocks.nextIndex + 1 } := by
    rw [contentBlockStop_blocks hopen hc'.tracks.keyed, hstart]
    simp [stoppedBlocks, hother]
  refine ⟨⟨⟨?_, ?_, ?_⟩, hc'.stop hopen⟩, hblocks⟩
  · intro i hi
    rw [hblocks] at hi
    have hne : i ≠ l.blocks.nextIndex := by
      rintro rfl
      exact absurd hi (by simp)
    rw [contentBlockStop_contentBlocks, if_neg hne, hm, contentBlockStart, emit_contentBlocks,
      recordBlockStart_contentBlocks, Dict.get?_set_of_ne _ _ hne]
    exact htidy.fresh i (le_trans (by simp) hi)
  · intro i t
    have hfresh : ¬ l.OpenAt l.blocks.nextIndex t := by
      rw [htidy.open_iff]
      exact htidy.not_active le_rfl t
    rw [openAt_stop, hm, openAt_start, Active, hblocks]
    refine Iff.trans ?_ (htidy.open_iff i t)
    by_cases hi : i = l.blocks.nextIndex
    · subst hi
      simp [hfresh]
    · simp only [hi, if_false, ne_eq, not_false_eq_true, true_and]
      rfl
  · rw [hblocks]
    exact htidy.distinct

theorem Sound.emitToolDelta (h : l.Sound) {k : ℕ} {state} {partialJson : String}
    (hstate : l.blocks.toolStates.get? k = some state) (hstarted : state.started = true)
    (hdelta : l.emitToolDelta k partialJson = some l') :
    l'.Sound ∧ l'.blocks = l.blocks := by
  rw [AnthropicStreamLedger.emitToolDelta, hstate] at hdelta
  cases hdelta
  refine ⟨h.delta (Or.inr (Or.inr ⟨rfl, k, state, hstate, hstarted, rfl⟩)) rfl partialJson, ?_⟩
  simp [contentBlockDelta]

/-- A tool call that ends, and that the ledger is told to forget. -/
theorem Sound.stopToolBlock (h : l.Sound) {k : ℕ} {state}
    (hstate : l.blocks.toolStates.get? k = some state) (hstarted : state.started = true)
    (hstop : l.stopToolBlock k = some l') :
    (l'.releaseTool k).Sound ∧ (l'.releaseTool k).blocks = (l.releaseTool k).blocks := by
  obtain ⟨htidy, c, hc⟩ := h
  rw [AnthropicStreamLedger.stopToolBlock, hstate] at hstop
  cases hstop
  have hactive : l.Active state.blockIndex "tool_use" :=
    Or.inr (Or.inr ⟨rfl, k, state, hstate, hstarted, rfl⟩)
  have hopen := (htidy.open_iff _ _).mpr hactive
  have hblocks : ((l.contentBlockStop state.blockIndex).releaseTool k).blocks =
      (l.releaseTool k).blocks := by
    rw [releaseTool, contentBlockStop_blocks hopen hc.tracks.keyed]
    simp [stoppedBlocks, releaseTool]
  have hget (j : ℕ) : (l.releaseTool k).blocks.toolStates.get? j =
      if j = k then some { state with started := false } else l.blocks.toolStates.get? j := by
    rw [releaseTool, Dict.get?_modify, hstate, Option.map_some]
  have hsame : l.blocks.nextIndex = (l.releaseTool k).blocks.nextIndex := rfl
  refine ⟨⟨@Tidy.stop l _ htidy l.blocks state.blockIndex rfl (by rw [hblocks, hsame]) ?_ ?_, ?_⟩,
    hblocks⟩
  · intro i t
    simp only [Active, hblocks, hget]
    constructor
    · rintro (htext | hthinking | ⟨ht, j, other, hother, hrunning, hi⟩)
      · refine ⟨?_, Or.inl htext⟩
        rintro rfl
        have := htidy.active_unique (Or.inl htext) hactive
        exact absurd (htext.1.symm.trans this) (by decide)
      · refine ⟨?_, Or.inr (Or.inl hthinking)⟩
        rintro rfl
        have := htidy.active_unique (Or.inr (Or.inl hthinking)) hactive
        exact absurd (hthinking.1.symm.trans this) (by decide)
      · split_ifs at hother with hj
        · cases hother
          cases hrunning
        · refine ⟨fun heq => hj ?_, Or.inr (Or.inr ⟨ht, j, other, hother, hrunning, hi⟩)⟩
          exact htidy.distinct j k other state hother hstate hrunning hstarted (hi.trans heq)
    · rintro ⟨hne, htext | hthinking | ⟨ht, j, other, hother, hrunning, hi⟩⟩
      · exact Or.inl htext
      · exact Or.inr (Or.inl hthinking)
      · refine Or.inr (Or.inr ⟨ht, j, other, ?_, hrunning, hi⟩)
        rw [if_neg, hother]
        rintro rfl
        rw [hstate] at hother
        cases hother
        exact hne hi.symm
  · intro i j s s' hs hs' hrunning hrunning' heq
    rw [hblocks, hget] at hs hs'
    split_ifs at hs hs' with hi hj hj
    · rw [hi, hj]
    · cases hs
      cases hrunning
    · cases hs'
      cases hrunning'
    · exact htidy.distinct i j s s' hs hs' hrunning hrunning' heq
  · obtain ⟨c', hc'⟩ := hc.stop hopen
    exact ⟨c', hc'.withBlocks _⟩

/-- Where no tool call is open, closing all blocks closes the text and thinking blocks. -/
theorem Sound.closeAllBlocks (h : l.Sound) (hidle : ∀ k, l.ToolFree k) :
    l.closeAllBlocks.Sound ∧ l.closeAllBlocks = l.closeContentBlocks := by
  obtain ⟨hsound, hblocks⟩ := h.closeContentBlocks
  have hfold (entries : List (ℕ × Switchboard.Providers.ToolCalls.ToolBlockState))
      (hentries : ∀ entry ∈ entries, entry.2.started = false) (m : AnthropicStreamLedger) :
      entries.foldl closeTool m = m := by
    induction entries generalizing m with
    | nil => rfl
    | cons entry entries ih =>
      have hfirst : m.closeTool entry = m := by
        simp [closeTool, hentries entry List.mem_cons_self]
      rw [List.foldl_cons, hfirst]
      exact ih (fun e he => hentries e (List.mem_cons_of_mem _ he)) m
  have heq : l.closeAllBlocks = l.closeContentBlocks := by
    unfold AnthropicStreamLedger.closeAllBlocks
    refine hfold _ (fun entry hentry => ?_) _
    rw [hblocks] at hentry
    exact hidle entry.1 entry.2 (Dict.get?_eq_some.mpr hentry)
  exact ⟨heq ▸ hsound, heq⟩

/-! ## Blocks that are gone -/

/-- A block that was stopped. -/
def Gone (l : AnthropicStreamLedger) (i : ℤ) : Prop :=
  ∀ c, checkEvents false l.sent = .ok c → i ∈ c.seenBlocks ∧ c.openBlocks.get? i = none

theorem gone_checkEvent {event : SSEEvent} {i : ℤ} (hcheck : checkEvent false c event = .ok c')
    (hseen : i ∈ c.seenBlocks) (hclosed : c.openBlocks.get? i = none) :
    i ∈ c'.seenBlocks ∧ c'.openBlocks.get? i = none := by
  unfold checkEvent at hcheck
  split_ifs at hcheck
  · unfold checkStart at hcheck
    cases hindex : eventIndex event with
    | error v => simp [hindex, Except.bind] at hcheck
    | ok j =>
      rw [hindex] at hcheck
      simp only [Except.bind] at hcheck
      split at hcheck
      · split_ifs at hcheck with _ _ hnew
        cases hcheck
        have hne : i ≠ j := fun heq => hnew (heq ▸ hseen)
        exact ⟨Finset.mem_insert_of_mem hseen, by rw [Dict.get?_set_of_ne _ _ hne, hclosed]⟩
      · cases hcheck
  · unfold checkDelta at hcheck
    cases hindex : eventIndex event with
    | error v => simp [hindex, Except.bind] at hcheck
    | ok j =>
      rw [hindex] at hcheck
      simp only [Except.bind] at hcheck
      repeat' split at hcheck
      all_goals cases hcheck
      all_goals exact ⟨hseen, hclosed⟩
  · unfold checkStop at hcheck
    cases hindex : eventIndex event with
    | error v => simp [hindex, Except.bind] at hcheck
    | ok j =>
      rw [hindex] at hcheck
      simp only [Except.bind] at hcheck
      split_ifs at hcheck
      cases hcheck
      refine ⟨hseen, ?_⟩
      rw [Dict.get?_erase, hclosed, ite_self]
  · cases hcheck
    exact ⟨hseen, hclosed⟩

/-- What is gone stays gone. -/
theorem Gone.grows {i : ℤ} (h : l.Gone i) (hsent : l.sent <+: l'.sent) : l'.Gone i := by
  obtain ⟨later, hlater⟩ := hsent
  intro c' hc'
  rw [← hlater] at hc'
  obtain ⟨c, hc, hrest⟩ := Monitor.watch_append_ok.mp hc'
  obtain ⟨hseen, hclosed⟩ := h c hc
  exact Monitor.run_keeps_always
    (I := fun c => i ∈ c.seenBlocks ∧ c.openBlocks.get? i = none)
    (fun _ _ _ hcheck hgone => gone_checkEvent hcheck hgone.1 hgone.2) hrest ⟨hseen, hclosed⟩

end AnthropicStreamLedger

end Switchboard.Core.AnthropicStream
