import Mathlib
import Switchboard.Core.StreamLedger

/-!
# What the ledger knows of an allowed stream

As long as the contract allows what was sent, the blocks that the ledger keeps are those the
contract has seen, and the ledger's stack holds those that are open.
-/

namespace Switchboard.Core.AnthropicStream

/-! ## Events of the ledger under the checker -/

/-- The data of an event of the ledger. -/
def eventData (name : String) (fields : List (String × Json)) : Json :=
  .obj (("type", .str name) :: fields)

def startEvent (index : ℤ) (block : List (String × Json)) : SSEEvent :=
  ⟨"content_block_start",
    eventData "content_block_start" [("index", .int index), ("content_block", .obj block)]⟩

def deltaEvent (index : ℤ) (delta : List (String × Json)) : SSEEvent :=
  ⟨"content_block_delta",
    eventData "content_block_delta" [("index", .int index), ("delta", .obj delta)]⟩

def stopEvent (index : ℤ) : SSEEvent :=
  ⟨"content_block_stop", eventData "content_block_stop" [("index", .int index)]⟩

section Events

variable {c c' : ContractState} {index : ℤ}

theorem checkEvent_start {block : List (String × Json)} :
    checkEvent false c (startEvent index block) = .ok c' ↔
      allowedBlockStartTypes.contains (fieldText (.obj block) "type") = true ∧
        c.openBlocks.get? index = none ∧ index ∉ c.seenBlocks ∧
        c' = ⟨c.openBlocks.set index (storage (fieldText (.obj block) "type") (.obj block)),
          insert index c.seenBlocks⟩ := by
  have hindex : eventIndex (startEvent index block) = .ok index := rfl
  have hblock : field (startEvent index block).data "content_block" = .obj block := rfl
  have hcheck : checkEvent false c (startEvent index block) =
    checkStart c (startEvent index block) := rfl
  rw [hcheck, checkStart, hindex, hblock]
  simp only [Except.bind]
  cases hallowed : allowedBlockStartTypes.contains (fieldText (.obj block) "type") with
  | false => simp
  | true =>
    cases hopen : c.openBlocks.get? index with
    | some kind => simp
    | none =>
      by_cases hseen : index ∈ c.seenBlocks
      · simp [hseen]
      · simp [hseen, eq_comm]

theorem checkEvent_stop :
    checkEvent false c (stopEvent index) = .ok c' ↔
      (∃ kind, c.openBlocks.get? index = some kind) ∧
        c' = ⟨c.openBlocks.erase index, c.seenBlocks⟩ := by
  have hindex : eventIndex (stopEvent index) = .ok index := rfl
  have hcheck : checkEvent false c (stopEvent index) = checkStop c (stopEvent index) := rfl
  rw [hcheck, checkStop, hindex]
  simp only [Except.bind]
  cases hopen : c.openBlocks.get? index with
  | none => simp
  | some kind => simp [eq_comm]

/-- The kinds of open blocks that take a type of delta. -/
def takes (kind deltaType : String) : Bool :=
  if kind = "thinking" then deltaType = "thinking_delta" || deltaType = "signature_delta"
  else !noDeltaBlockKinds.contains kind && expectedDelta.lookup kind = some deltaType

theorem checkEvent_delta {delta : List (String × Json)} :
    checkEvent false c (deltaEvent index delta) = .ok c' ↔
      (∃ kind, c.openBlocks.get? index = some kind ∧
        takes kind (fieldText (.obj delta) "type") = true) ∧ c' = c := by
  have hindex : eventIndex (deltaEvent index delta) = .ok index := rfl
  have hdelta : field (deltaEvent index delta).data "delta" = .obj delta := rfl
  have hcheck : checkEvent false c (deltaEvent index delta) =
    checkDelta c (deltaEvent index delta) := rfl
  rw [hcheck, checkDelta, hindex, hdelta]
  simp only [Except.bind]
  cases hopen : c.openBlocks.get? index with
  | none => simp
  | some kind =>
    by_cases hthinking : kind = "thinking"
    · subst hthinking
      have hplain : noDeltaBlockKinds.contains "thinking" = false := by decide
      simp only [hplain, takes, Bool.false_eq_true, if_false, if_true, Option.some.injEq,
        exists_eq_left']
      generalize (decide (fieldText (.obj delta) "type" = "thinking_delta") ||
        decide (fieldText (.obj delta) "type" = "signature_delta")) = allowed
      cases allowed <;> simp [eq_comm]
    · simp only [takes, hthinking, if_false, Option.some.injEq, exists_eq_left']
      cases hplain : noDeltaBlockKinds.contains kind with
      | true => simp
      | false =>
        cases hexpected : expectedDelta.lookup kind with
        | none => simp
        | some expected =>
          by_cases htype : fieldText (.obj delta) "type" = expected
          · simp [htype, eq_comm]
          · simp [htype, Ne.symm htype]

end Events

namespace AnthropicStreamLedger

variable {l : AnthropicStreamLedger} {c c' : ContractState}

/-! ## What the operations change -/

@[simp] theorem emit_blocks (name : String) (fields : List (String × Json)) :
    (l.emit name fields).blocks = l.blocks := rfl

@[simp] theorem emit_contentBlocks (name : String) (fields : List (String × Json)) :
    (l.emit name fields).contentBlocks = l.contentBlocks := rfl

@[simp] theorem emit_openStack (name : String) (fields : List (String × Json)) :
    (l.emit name fields).openStack = l.openStack := rfl

@[simp] theorem emit_sent (name : String) (fields : List (String × Json)) :
    (l.emit name fields).sent = l.sent ++ [⟨name, eventData name fields⟩] := rfl

section Record

variable (l) (index : ℤ)

@[simp] theorem recordBlockStart_contentBlocks (block : List (String × Json)) :
    (l.recordBlockStart index block).contentBlocks =
      l.contentBlocks.set index (startedBlock index block) := by
  unfold recordBlockStart
  dsimp only
  split_ifs <;> rfl

@[simp] theorem recordBlockStart_openStack (block : List (String × Json)) :
    (l.recordBlockStart index block).openStack = l.openStack ++ [index] := by
  unfold recordBlockStart
  dsimp only
  split_ifs <;> rfl

@[simp] theorem recordBlockStart_sent (block : List (String × Json)) :
    (l.recordBlockStart index block).sent = l.sent := by
  unfold recordBlockStart
  dsimp only
  split_ifs <;> rfl

@[simp] theorem recordBlockDelta_openStack (delta : List (String × Json)) :
    (l.recordBlockDelta index delta).openStack = l.openStack := by
  unfold recordBlockDelta
  split
  · rfl
  · split <;> rfl

@[simp] theorem recordBlockDelta_sent (delta : List (String × Json)) :
    (l.recordBlockDelta index delta).sent = l.sent := by
  unfold recordBlockDelta
  split
  · rfl
  · split <;> rfl

@[simp] theorem recordBlockDelta_blocks (delta : List (String × Json)) :
    (l.recordBlockDelta index delta).blocks = l.blocks := by
  unfold recordBlockDelta
  split
  · rfl
  · split <;> rfl

@[simp] theorem clearActive_contentBlocks (state : StreamBlockState) :
    (l.clearActiveContentBlock state).contentBlocks = l.contentBlocks := by
  unfold clearActiveContentBlock
  split_ifs <;> rfl

@[simp] theorem clearActive_openStack (state : StreamBlockState) :
    (l.clearActiveContentBlock state).openStack = l.openStack := by
  unfold clearActiveContentBlock
  split_ifs <;> rfl

@[simp] theorem clearActive_sent (state : StreamBlockState) :
    (l.clearActiveContentBlock state).sent = l.sent := by
  unfold clearActiveContentBlock
  split_ifs <;> rfl

@[simp] theorem closeBlock_openStack : (l.closeBlock index).openStack = l.openStack := by
  unfold closeBlock
  split
  · rfl
  · simp

@[simp] theorem closeBlock_sent : (l.closeBlock index).sent = l.sent := by
  unfold closeBlock
  split
  · rfl
  · simp

theorem closeBlock_contentBlocks (j : ℤ) :
    (l.closeBlock index).contentBlocks.get? j =
      if j = index then (l.contentBlocks.get? j).map StreamBlockState.closed
      else l.contentBlocks.get? j := by
  unfold closeBlock
  split
  · next h =>
    split_ifs with hj
    · rw [hj, h]
      rfl
    · rfl
  · next state h =>
    simp only [clearActive_contentBlocks, Dict.get?_set]
    split_ifs with hj
    · rw [hj, h]
      rfl
    · rfl

theorem contentBlockStop_contentBlocks (j : ℤ) :
    (l.contentBlockStop index).contentBlocks.get? j =
      if j = index then (l.contentBlocks.get? j).map StreamBlockState.closed
      else l.contentBlocks.get? j :=
  closeBlock_contentBlocks _ index j

theorem recordBlockDelta_contentBlocks (delta : List (String × Json)) (j : ℤ) :
    (l.recordBlockDelta index delta).contentBlocks.get? j =
      (l.contentBlocks.get? j).map fun state =>
        if j = index then (deltaPart state.blockType delta).elim state state.addPart
        else state := by
  unfold recordBlockDelta
  split
  · next h =>
    by_cases hj : j = index
    · simp [hj, h]
    · simp [hj]
  · next state h =>
    by_cases hj : j = index
    · subst hj
      split
      · next hpart => simp [h, hpart]
      · next part hpart => simp [h, hpart]
    · split
      · simp [hj]
      · simp [hj, Dict.get?_set]

end Record

/-! ## The blocks that are open -/

/-- A block of a type is open. -/
def OpenAt (l : AnthropicStreamLedger) (index : ℤ) (blockType : String) : Prop :=
  ∃ state, l.contentBlocks.get? index = some state ∧ state.isOpen = true ∧
    state.blockType = blockType

theorem OpenAt.unique {index : ℤ} {s t : String} (hs : l.OpenAt index s) (ht : l.OpenAt index t) :
    s = t := by
  obtain ⟨state, hget, -, rfl⟩ := hs
  obtain ⟨state', hget', -, rfl⟩ := ht
  rw [hget] at hget'
  cases hget'
  rfl

theorem startedBlock_isOpen (index : ℤ) (block : List (String × Json)) :
    (startedBlock index block).isOpen = true := by
  unfold startedBlock
  dsimp only
  split_ifs <;> rfl

theorem startedBlock_blockType (index : ℤ) (block : List (String × Json)) :
    (startedBlock index block).blockType = fieldText (.obj block) "type" := by
  unfold startedBlock
  dsimp only
  split_ifs <;> rfl

theorem startedBlock_index (index : ℤ) (block : List (String × Json)) :
    (startedBlock index block).index = index := by
  unfold startedBlock
  dsimp only
  split_ifs <;> rfl

/-- The type of the block that `content_block_start` sends. -/
theorem contentBlock_type (blockType : String) (kwargs : List (String × Json)) :
    fieldText (.obj (contentBlock blockType kwargs)) "type" = blockType := rfl

theorem contentDelta_type (deltaType content : String) :
    fieldText (.obj (contentDelta deltaType content)) "type" = deltaType := rfl

section OpenBlocks

variable (l) (i j : ℤ) (t : String)

theorem openAt_start (blockType : String) (kwargs : List (String × Json)) :
    (l.contentBlockStart i blockType kwargs).OpenAt j t ↔
      if j = i then t = blockType else l.OpenAt j t := by
  unfold OpenAt contentBlockStart
  simp only [emit_contentBlocks, recordBlockStart_contentBlocks, Dict.get?_set]
  split_ifs with hj
  · simp only [Option.some.injEq, exists_eq_left', startedBlock_isOpen, startedBlock_blockType,
      contentBlock_type, true_and]
    exact eq_comm
  · rfl

theorem openAt_delta (deltaType content : String) :
    (l.contentBlockDelta i deltaType content).OpenAt j t ↔ l.OpenAt j t := by
  unfold OpenAt contentBlockDelta
  simp only [emit_contentBlocks, recordBlockDelta_contentBlocks]
  cases l.contentBlocks.get? j with
  | none => simp
  | some state =>
    by_cases hj : j = i
    · simp only [hj, if_true, Option.map_some, Option.some.injEq, exists_eq_left']
      cases deltaPart state.blockType (contentDelta deltaType content) <;> rfl
    · simp [hj]

theorem openAt_close : (l.closeBlock i).OpenAt j t ↔ j ≠ i ∧ l.OpenAt j t := by
  unfold OpenAt
  rw [closeBlock_contentBlocks]
  split_ifs with hj
  · subst hj
    cases l.contentBlocks.get? j <;> simp [StreamBlockState.closed]
  · simp [hj]

theorem openAt_stop : (l.contentBlockStop i).OpenAt j t ↔ j ≠ i ∧ l.OpenAt j t := by
  unfold contentBlockStop recordBlockStop
  exact openAt_close _ i j t

end OpenBlocks

/-! ## The ledger and the checker -/

/-- The kinds under which the checker may keep a block of a type. -/
def KeptAs (blockType kind : String) : Prop :=
  kind = blockType ∨ blockType = "text" ∧ kind = "text_eager"

theorem keptAs_storage (blockType : String) (block : Json) :
    KeptAs blockType (storage blockType block) := by
  unfold storage
  split_ifs with h
  · rw [Bool.and_eq_true, decide_eq_true_eq] at h
    exact Or.inr ⟨h.1, rfl⟩
  · exact Or.inl rfl

/-- The ledger keeps what the checker keeps. -/
structure Tracks (l : AnthropicStreamLedger) (c : ContractState) : Prop where
  seen : ∀ i, i ∈ c.seenBlocks ↔ ∃ state, l.contentBlocks.get? i = some state
  opened : ∀ i t, l.OpenAt i t → ∃ kind, c.openBlocks.get? i = some kind ∧ KeptAs t kind
  isOpen : ∀ i kind, c.openBlocks.get? i = some kind → ∃ t, l.OpenAt i t
  keyed : ∀ i state, l.contentBlocks.get? i = some state → state.index = i
  nodup : l.openStack.Nodup
  stack : ∀ i, i ∈ l.openStack ↔ ∃ t, l.OpenAt i t

theorem Tracks.openAt_iff (h : l.Tracks c) (i : ℤ) :
    (∃ t, l.OpenAt i t) ↔ ∃ kind, c.openBlocks.get? i = some kind := by
  constructor
  · rintro ⟨t, ht⟩
    obtain ⟨kind, hkind, -⟩ := h.opened i t ht
    exact ⟨kind, hkind⟩
  · exact fun ⟨kind, hkind⟩ => h.isOpen i kind hkind

/-- What is sent beside the blocks does not matter. -/
theorem Tracks.congr (h : l.Tracks c) {l' : AnthropicStreamLedger}
    (hblocks : l'.contentBlocks = l.contentBlocks) (hstack : l'.openStack = l.openStack) :
    l'.Tracks c := by
  have hopen : ∀ i t, l'.OpenAt i t ↔ l.OpenAt i t := fun i t => by rw [OpenAt, hblocks, OpenAt]
  refine ⟨?_, ?_, ?_, ?_, ?_, ?_⟩
  · rw [hblocks]
    exact h.seen
  · exact fun i t ht => h.opened i t ((hopen i t).mp ht)
  · exact fun i kind hkind => (h.isOpen i kind hkind).imp fun t => (hopen i t).mpr
  · rw [hblocks]
    exact h.keyed
  · rw [hstack]
    exact h.nodup
  · intro i
    rw [hstack, h.stack]
    exact exists_congr fun t => (hopen i t).symm

theorem Tracks.start (h : l.Tracks c) {i : ℤ} {blockType : String} {kwargs : List (String × Json)}
    (hcheck : checkEvent false c (startEvent i (contentBlock blockType kwargs)) = .ok c') :
    (l.contentBlockStart i blockType kwargs).Tracks c' := by
  obtain ⟨-, hclosed, hnew, rfl⟩ := checkEvent_start.mp hcheck
  have hnone : i ∉ l.openStack := by
    rw [h.stack, h.openAt_iff, hclosed]
    simp
  refine ⟨?_, ?_, ?_, ?_, ?_, ?_⟩
  · intro j
    simp only [contentBlockStart, emit_contentBlocks, recordBlockStart_contentBlocks,
      Dict.get?_set, Finset.mem_insert, h.seen]
    split_ifs with hj <;> simp [hj]
  · intro j t ht
    rw [openAt_start] at ht
    rw [Dict.get?_set]
    split_ifs at ht ⊢ with hj
    · subst ht
      exact ⟨_, rfl, keptAs_storage _ _⟩
    · exact h.opened j t ht
  · intro j kind hkind
    rw [Dict.get?_set] at hkind
    simp only [openAt_start]
    split_ifs at hkind ⊢ with hj
    · exact ⟨blockType, rfl⟩
    · exact h.isOpen j kind hkind
  · intro j state hstate
    simp only [contentBlockStart, emit_contentBlocks, recordBlockStart_contentBlocks,
      Dict.get?_set] at hstate
    split_ifs at hstate with hj
    · cases hstate
      rw [startedBlock_index, hj]
    · exact h.keyed j state hstate
  · rw [contentBlockStart, emit_openStack, recordBlockStart_openStack]
    exact List.nodup_append.mpr ⟨h.nodup, List.nodup_singleton i, by
      rintro a ha b hb rfl
      exact hnone (List.mem_singleton.mp hb ▸ ha)⟩
  · intro j
    rw [contentBlockStart, emit_openStack, recordBlockStart_openStack, List.mem_append,
      List.mem_singleton, h.stack, ← contentBlockStart]
    simp only [openAt_start]
    split_ifs with hj <;> simp [hj]

theorem Tracks.delta (h : l.Tracks c) {i : ℤ} {deltaType content : String} :
    (l.contentBlockDelta i deltaType content).Tracks c := by
  have hget (j : ℤ) : (∃ state,
      (l.contentBlockDelta i deltaType content).contentBlocks.get? j = some state) ↔
        ∃ state, l.contentBlocks.get? j = some state := by
    simp only [contentBlockDelta, emit_contentBlocks, recordBlockDelta_contentBlocks]
    cases l.contentBlocks.get? j <;> simp
  refine ⟨?_, ?_, ?_, ?_, ?_, ?_⟩
  · exact fun j => (h.seen j).trans (hget j).symm
  · exact fun j t ht => h.opened j t ((openAt_delta ..).mp ht)
  · exact fun j kind hkind => (h.isOpen j kind hkind).imp fun t => (openAt_delta ..).mpr
  · intro j state hstate
    simp only [contentBlockDelta, emit_contentBlocks, recordBlockDelta_contentBlocks,
      Option.map_eq_some_iff] at hstate
    obtain ⟨old, hold, rfl⟩ := hstate
    rw [← h.keyed j old hold]
    split_ifs
    · cases deltaPart old.blockType (contentDelta deltaType content) <;> rfl
    · rfl
  · simpa [contentBlockDelta] using h.nodup
  · intro j
    simp only [openAt_delta, ← h.stack]
    simp [contentBlockDelta]

/-- A stop of one block, whatever the stack becomes. -/
theorem Tracks.close (h : l.Tracks c) (i : ℤ) {stack : List ℤ} (hnodup : stack.Nodup)
    (hstack : ∀ j, j ∈ stack ↔ j ≠ i ∧ j ∈ l.openStack) :
    ({ l with openStack := stack }.closeBlock i).Tracks
      ⟨c.openBlocks.erase i, c.seenBlocks⟩ := by
  have hclose (j : ℤ) (t : String) :
      ({ l with openStack := stack }.closeBlock i).OpenAt j t ↔ j ≠ i ∧ l.OpenAt j t :=
    openAt_close _ i j t
  have hget (j : ℤ) : (∃ state,
      ({ l with openStack := stack }.closeBlock i).contentBlocks.get? j = some state) ↔
        ∃ state, l.contentBlocks.get? j = some state := by
    rw [closeBlock_contentBlocks]
    split_ifs <;> cases l.contentBlocks.get? j <;> simp
  refine ⟨?_, ?_, ?_, ?_, ?_, ?_⟩
  · exact fun j => (h.seen j).trans (hget j).symm
  · intro j t ht
    rw [hclose] at ht
    rw [Dict.get?_erase_of_ne _ ht.1]
    exact h.opened j t ht.2
  · intro j kind hkind
    rw [Dict.get?_erase] at hkind
    split_ifs at hkind with hj
    obtain ⟨t, ht⟩ := h.isOpen j kind hkind
    exact ⟨t, (hclose j t).mpr ⟨hj, ht⟩⟩
  · intro j state hstate
    rw [closeBlock_contentBlocks] at hstate
    split_ifs at hstate
    · obtain ⟨old, hold, rfl⟩ := Option.map_eq_some_iff.mp hstate
      exact h.keyed j old hold
    · exact h.keyed j state hstate
  · rw [closeBlock_openStack]
    exact hnodup
  · intro j
    rw [closeBlock_openStack]
    simp only [hclose, exists_and_left, ← h.stack]
    exact hstack j

theorem Tracks.stop (h : l.Tracks c) (i : ℤ) :
    (l.contentBlockStop i).Tracks ⟨c.openBlocks.erase i, c.seenBlocks⟩ := by
  -- the last entry is popped; another one is removed where it stands
  have hstack : (if l.openStack.getLast? = some i then l.openStack.dropLast
      else l.openStack.erase i) = l.openStack.erase i := by
    split_ifs with hlast
    · obtain ⟨stack, hconcat⟩ := List.getLast?_eq_some_iff.mp hlast
      have hnot : i ∉ stack := by
        have hnodup := h.nodup
        rw [hconcat, List.nodup_append] at hnodup
        exact fun hmem => hnodup.2.2 i hmem i (List.mem_singleton_self i) rfl
      rw [hconcat, List.dropLast_concat, List.erase_append_right _ hnot]
      simp
    · rfl
  have hclose := h.close i (h.nodup.erase i) fun j => h.nodup.mem_erase_iff
  exact Tracks.congr (l := { l with openStack := l.openStack.erase i }.closeBlock i) hclose
    (by rw [contentBlockStop, recordBlockStop, hstack]; rfl)
    (by rw [contentBlockStop, recordBlockStop, hstack]; rfl)

end AnthropicStreamLedger

end Switchboard.Core.AnthropicStream
