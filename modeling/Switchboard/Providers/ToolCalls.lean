import Switchboard.Core.ToolNames
import Switchboard.Library.Json

/-!
# Tool calls in an OpenAI stream

How deltas of tool calls become blocks of an Anthropic stream. A delta reads and writes only what
is kept for its tool index, which `View` puts together.
-/

namespace Switchboard.Providers.ToolCalls

open Switchboard.Text Switchboard.Core.ToolNames

structure ToolBlockState where
  blockIndex : Int
  toolId : List Char
  name : List Char
  extraContent : Option Json
  started : Bool
  taskArgBuffer : List Char
  taskArgsEmitted : Bool
  preStartArgs : List Char

def ToolBlockState.new (name : List Char) : ToolBlockState :=
  ⟨-1, [], name, none, false, [], false, []⟩

def ToolBlockState.clearPreStartArgs (state : ToolBlockState) : ToolBlockState :=
  { state with preStartArgs := [] }

/-- The events of the stream that tool calls give. -/
inductive Event
  | start (index : Int) (id name : List Char) (extraContent : Option Json)
  | delta (index : Int) (partialJson : List Char)

/-- Python's `json`: `loads` gives none where it raises. -/
structure JsonCodec where
  loads : List Char → Option Json
  dumps : Json → List Char

/-- The arguments that do not change during a stream. -/
structure Context where
  json : JsonCodec
  /-- The texts that `uuid4` gives, in their order. -/
  uuid : Nat → List Char
  toolNames : Option OpenAIToolNameCodec
  /-- Whether names are buffered; `flush_tool_name_buffers` passes no buffers. -/
  buffersNames : Bool
  toolArgumentAliases : Dict (List Char) (Dict (List Char) (List Char))

/-- One delta, after `raw_index` was read. -/
structure ToolCallDelta where
  index : Nat
  id : Option (List Char)
  name : Option (List Char)
  arguments : List Char
  /-- A dictionary that is not empty. -/
  extraContent : Option Json

/-- What a delta reads and writes: the entries of the dictionaries at its tool index, and what the
tool indexes share. -/
structure View where
  state : Option ToolBlockState
  nameBuffer : Option (List Char)
  aliasBuffer : Option (List Char)
  nextIndex : Nat
  idsDrawn : Nat
  events : List Event
  /-- The calls of `record_extra_content`. -/
  recorded : List (List Char × Json)

def isBlank (text : List Char) : Bool := stripped isSpace text = []

namespace View

variable (v : View)

def ensureToolState : ToolBlockState := v.state.getD (.new [])

def setStreamToolId (id : Option (List Char)) : View :=
  match id with
  | some (c :: cs) => { v with state := some { v.ensureToolState with toolId := c :: cs } }
  | _ => v

def setToolExtraContent (extraContent : Option Json) : View :=
  match extraContent with
  | some value => { v with state := some { v.ensureToolState with extraContent := some value } }
  | none => v

def registerToolName (name : List Char) : View :=
  match v.state with
  | none => { v with state := some (.new name) }
  | some state =>
    if state.name = [] || state.name.isPrefixOf name then
      { v with state := some { state with name := name } }
    else if name.isPrefixOf state.name then v
    else { v with state := some { state with name := state.name ++ name } }

end View

def mergeToolName (existing incoming : List Char) : List Char :=
  if existing = [] || existing.isPrefixOf incoming then incoming
  else if incoming.isPrefixOf existing then existing
  else existing ++ incoming

/-- `_decode_streamed_tool_name`: the name, unless it is held back, and the buffer. -/
def decodeStreamedToolName (k : Context) (incoming : List Char) (buffer : Option (List Char)) :
    Option (List Char) × Option (List Char) :=
  match k.toolNames with
  | none => (some incoming, buffer)
  | some toolNames =>
    if !toolNames.hasAliases then (some incoming, buffer)
    else if !k.buffersNames then (some (toolNames.decode incoming), buffer)
    else
      let combined := mergeToolName (buffer.getD []) incoming
      if toolNames.isAlias combined then (some (toolNames.decode combined), none)
      else if toolNames.isAliasPrefix combined then (none, some combined)
      else (some (toolNames.decode combined), none)

mutual

/-- `_restore_tool_argument_alias_value`. -/
def restoreAliasValue (aliases : Dict (List Char) (List Char)) : Json → Json
  | .obj fields => .obj (Dict.ofList (restoreAliasFields aliases fields)).entries
  | .arr items => .arr (restoreAliasItems aliases items)
  | value => value

def restoreAliasItems (aliases : Dict (List Char) (List Char)) : List Json → List Json
  | [] => []
  | item :: items => restoreAliasValue aliases item :: restoreAliasItems aliases items

def restoreAliasFields (aliases : Dict (List Char) (List Char)) :
    List (String × Json) → List (String × Json)
  | [] => []
  | (key, item) :: fields =>
    (String.ofList ((aliases.get? key.toList).getD key.toList), restoreAliasValue aliases item)
      :: restoreAliasFields aliases fields

end

def restoreToolArgumentAliases (json : JsonCodec) (argumentJson : List Char)
    (aliases : Dict (List Char) (List Char)) : Option (List Char) :=
  match json.loads argumentJson with
  | none => none
  | some (.obj fields) => some (json.dumps (restoreAliasValue aliases (.obj fields)))
  | some _ => some argumentJson

/-- `_normalize_task_run_in_background`. -/
def normalizeTaskRunInBackground (fields : List (String × Json)) : List (String × Json) :=
  match fields.lookup "run_in_background" with
  | some (.bool false) => fields
  | _ => ((Dict.ofList fields).set "run_in_background" (.bool false)).entries

def taskName : List Char := ['T', 'a', 's', 'k']

/-- `buffer_task_args`: the arguments, when they are complete, and the state. -/
def bufferTaskArgs (json : JsonCodec) (state : ToolBlockState) (args : List Char) :
    Option Json × ToolBlockState :=
  if state.taskArgsEmitted then (none, state)
  else
    let state := { state with taskArgBuffer := state.taskArgBuffer ++ args }
    match json.loads state.taskArgBuffer with
    | some (.obj fields) =>
      (some (.obj (normalizeTaskRunInBackground fields)),
        { state with taskArgsEmitted := true, taskArgBuffer := [] })
    | _ => (none, state)

namespace View

variable (k : Context) (v : View)

def emit (event : Event) : View := { v with events := v.events ++ [event] }

/-- `tool_argument_aliases.get(state.name, {})`. -/
def aliases (name : List Char) : Dict (List Char) (List Char) :=
  (k.toolArgumentAliases.get? name).getD .empty

/-- The part of `_emit_tool_arg_delta` behind its guards. -/
def sendArguments (state : ToolBlockState) (args : List Char) : View :=
  if state.name = taskName then
    let (parsed, state) := bufferTaskArgs k.json state args
    let v := { v with state := some state }
    match parsed with
    | some value => v.emit (.delta state.blockIndex (k.json.dumps value))
    | none => v
  else if (aliases k state.name).entries ≠ [] then
    let bufferedArgs := v.aliasBuffer.getD [] ++ args
    match restoreToolArgumentAliases k.json bufferedArgs (aliases k state.name) with
    | none => { v with aliasBuffer := some bufferedArgs }
    | some restored =>
      let v := { v with aliasBuffer := none }
      v.emit (.delta state.blockIndex restored)
  else v.emit (.delta state.blockIndex args)

/-- `_emit_tool_arg_delta`. -/
def emitToolArgDelta (args : List Char) : View :=
  if args = [] then v
  else
    match v.state with
    | none => v
    | some state => v.sendArguments k state args

def record (toolId : List Char) (extraContent : Option Json) : View :=
  match extraContent with
  | some value => { v with recorded := v.recorded ++ [(toolId, value)] }
  | none => v

/-- `start_tool_block`. -/
def startToolBlock (toolId name : List Char) (extraContent : Option Json) : View :=
  let state :=
    { v.ensureToolState with
      blockIndex := v.nextIndex, toolId := toolId, name := name,
      extraContent := extraContent.or v.ensureToolState.extraContent, started := true }
  let started := { v with nextIndex := v.nextIndex + 1, state := some state }
  started.emit (.start v.nextIndex toolId name extraContent)

/-- The part of `process_tool_call` that starts a block once it has a name. -/
def startNamed : View :=
  match v.state with
  | none => v
  | some state =>
    if state.started || isBlank state.name then v
    else
      let (toolId, idsDrawn) :=
        if state.toolId ≠ [] then (state.toolId, v.idsDrawn)
        else (['t', 'o', 'o', 'l', '_'] ++ k.uuid v.idsDrawn, v.idsDrawn + 1)
      let drawn := { v with idsDrawn := idsDrawn }
      let v := drawn.record toolId state.extraContent
      let v := v.startToolBlock toolId (stripped isSpace state.name) state.extraContent
      if state.preStartArgs = [] then v
      else
        let cleared := { v with state := v.state.map ToolBlockState.clearPreStartArgs }
        cleared.emitToolArgDelta k state.preStartArgs

/-- The part of `process_tool_call` that reads the name of a delta. -/
def readName (name : Option (List Char)) : View :=
  match name with
  | some (c :: cs) =>
    let (resolved, buffer) := decodeStreamedToolName k (c :: cs) v.nameBuffer
    let v := { v with nameBuffer := buffer }
    match resolved with
    | some name => v.registerToolName name
    | none => v
  | _ => v

/-- The part of `process_tool_call` that reads the arguments of a delta. -/
def readArguments (arguments : List Char) : View :=
  if arguments = [] then v
  else
    match v.state with
    | some state =>
      if state.started || !isBlank state.name then v.emitToolArgDelta k arguments
      else
        { v with state := some { state with preStartArgs := state.preStartArgs ++ arguments } }
    | none => { v with state := some { ToolBlockState.new [] with preStartArgs := arguments } }

/-- The part of `process_tool_call` that records the extra content of a known call. -/
def recordExtraContent (extraContent : Option Json) : View :=
  match v.state with
  | some state => if state.toolId ≠ [] then v.record state.toolId extraContent else v
  | none => v

/-- `process_tool_call`. -/
def processToolCall (tc : ToolCallDelta) : View :=
  let v := v.setStreamToolId tc.id
  let v := v.setToolExtraContent tc.extraContent
  let v := v.readName k tc.name
  let v := v.startNamed k
  let v := v.recordExtraContent tc.extraContent
  v.readArguments k tc.arguments

end View

/-- The ledger and the buffers of the provider. -/
structure Stream where
  toolStates : Dict Nat ToolBlockState
  toolNameBuffers : Dict Nat (List Char)
  toolArgumentAliasBuffers : Dict Nat (List Char)
  nextIndex : Nat
  idsDrawn : Nat
  events : List Event
  recorded : List (List Char × Json)

namespace Stream

def new (nextIndex : Nat) : Stream := ⟨.empty, .empty, .empty, nextIndex, 0, [], []⟩

variable (k : Context) (s : Stream)

def view (i : Nat) : View :=
  ⟨s.toolStates.get? i, s.toolNameBuffers.get? i, s.toolArgumentAliasBuffers.get? i,
    s.nextIndex, s.idsDrawn, s.events, s.recorded⟩

end Stream

/-- An entry of a dictionary is written, or popped. -/
def putEntry {ν : Type} (d : Dict Nat ν) (i : Nat) (value : Option ν) : Dict Nat ν :=
  match value with
  | some value => d.set i value
  | none => d.erase i

namespace Stream

variable (k : Context) (s : Stream)

def put (i : Nat) (v : View) : Stream :=
  ⟨putEntry s.toolStates i v.state, putEntry s.toolNameBuffers i v.nameBuffer,
    putEntry s.toolArgumentAliasBuffers i v.aliasBuffer, v.nextIndex, v.idsDrawn, v.events,
    v.recorded⟩

def processToolCall (tc : ToolCallDelta) : Stream :=
  s.put tc.index ((s.view tc.index).processToolCall k tc)

/-- One round of `flush_tool_name_buffers`. -/
def flushName (entry : Nat × List Char) : Stream :=
  let s := { s with toolNameBuffers := s.toolNameBuffers.erase entry.1 }
  s.processToolCall { k with buffersNames := false } ⟨entry.1, none, some entry.2, [], none⟩

def flushToolNameBuffers : Stream := s.toolNameBuffers.entries.foldl (flushName k) s

/-- One round of `flush_tool_argument_alias_buffers`. -/
def flushAlias (entry : Nat × List Char) : Stream :=
  if entry.2 = [] then
    { s with toolArgumentAliasBuffers := s.toolArgumentAliasBuffers.erase entry.1 }
  else
    match s.toolStates.get? entry.1 with
    | none => s
    | some state =>
      if state.name = taskName || (View.aliases k state.name).entries = [] then s
      else
        let restored := restoreToolArgumentAliases k.json entry.2 (View.aliases k state.name)
        { s with
          events := s.events ++ [.delta state.blockIndex (restored.getD entry.2)],
          toolArgumentAliasBuffers := s.toolArgumentAliasBuffers.erase entry.1 }

def flushToolArgumentAliasBuffers : Stream :=
  s.toolArgumentAliasBuffers.entries.foldl (flushAlias k) s

/-- The text that `flush_task_arg_buffers` gives for the arguments of a task. -/
def flushedTaskArgs (taskArgBuffer : List Char) : List Char :=
  match k.json.loads taskArgBuffer with
  | some (.obj fields) => k.json.dumps (.obj (normalizeTaskRunInBackground fields))
  | _ => ['{', '}']

/-- One round of `flush_task_arg_buffers`. -/
def flushTask (entry : Nat × ToolBlockState) : Stream :=
  let state := entry.2
  if state.taskArgBuffer = [] || state.taskArgsEmitted then s
  else
    { s with
      toolStates := s.toolStates.set entry.1
        { state with taskArgsEmitted := true, taskArgBuffer := [] },
      events := s.events ++ [.delta state.blockIndex (flushedTaskArgs k state.taskArgBuffer)] }

def flushTaskArgBuffers : Stream := s.toolStates.entries.foldl (flushTask k) s

/-- The end of a stream. It fails when a name that is held back is not complete. -/
def finish : Option Stream :=
  if s.toolNameBuffers.values.any fun name =>
      !(k.toolNames.any fun toolNames => toolNames.isUnchangedName name) then none
  else
    some (((s.flushToolNameBuffers k).flushToolArgumentAliasBuffers k).flushTaskArgBuffers k)

end Stream

/-! ### What one delta does -/

namespace View

variable {k : Context} {v w : View}

/-- The parts of a view that ids, extra content and names leave alone. -/
structure SameProgress (v w : View) : Prop where
  started : w.ensureToolState.started = v.ensureToolState.started
  blockIndex : w.ensureToolState.blockIndex = v.ensureToolState.blockIndex
  taskArgBuffer : w.ensureToolState.taskArgBuffer = v.ensureToolState.taskArgBuffer
  taskArgsEmitted : w.ensureToolState.taskArgsEmitted = v.ensureToolState.taskArgsEmitted
  preStartArgs : w.ensureToolState.preStartArgs = v.ensureToolState.preStartArgs
  aliasBuffer : w.aliasBuffer = v.aliasBuffer
  nextIndex : w.nextIndex = v.nextIndex
  events : w.events = v.events

theorem SameProgress.trans {u : View} (h : SameProgress u v) (h' : SameProgress v w) :
    SameProgress u w :=
  ⟨h'.started.trans h.started, h'.blockIndex.trans h.blockIndex,
    h'.taskArgBuffer.trans h.taskArgBuffer, h'.taskArgsEmitted.trans h.taskArgsEmitted,
    h'.preStartArgs.trans h.preStartArgs, h'.aliasBuffer.trans h.aliasBuffer,
    h'.nextIndex.trans h.nextIndex, h'.events.trans h.events⟩

theorem SameProgress.refl (v : View) : SameProgress v v :=
  ⟨rfl, rfl, rfl, rfl, rfl, rfl, rfl, rfl⟩

theorem sameProgress_with (toolId name : List Char) (extraContent : Option Json)
    (buffer : Option (List Char)) :
    SameProgress v
      { v with
        state := some
          { v.ensureToolState with toolId := toolId, name := name, extraContent := extraContent },
        nameBuffer := buffer } :=
  ⟨rfl, rfl, rfl, rfl, rfl, rfl, rfl, rfl⟩

theorem sameProgress_setStreamToolId (id : Option (List Char)) :
    SameProgress v (v.setStreamToolId id) ∧
      (v.setStreamToolId id).ensureToolState.name = v.ensureToolState.name ∧
      (v.setStreamToolId id).nameBuffer = v.nameBuffer := by
  rcases id with _ | _ | ⟨c, cs⟩
  · exact ⟨SameProgress.refl v, rfl, rfl⟩
  · exact ⟨SameProgress.refl v, rfl, rfl⟩
  · exact ⟨sameProgress_with _ _ _ _, rfl, rfl⟩

theorem sameProgress_setToolExtraContent (extraContent : Option Json) :
    SameProgress v (v.setToolExtraContent extraContent) ∧
      (v.setToolExtraContent extraContent).ensureToolState.name = v.ensureToolState.name ∧
      (v.setToolExtraContent extraContent).nameBuffer = v.nameBuffer := by
  cases extraContent with
  | none => exact ⟨SameProgress.refl v, rfl, rfl⟩
  | some value => exact ⟨sameProgress_with _ _ _ _, rfl, rfl⟩

/-- The name that is known and the name that is held back, after the name of a delta. -/
def nameStep (k : Context) (incoming : Option (List Char)) (name : List Char)
    (buffer : Option (List Char)) : List Char × Option (List Char) :=
  match incoming with
  | some (c :: cs) =>
    let (resolved, buffer) := decodeStreamedToolName k (c :: cs) buffer
    ((resolved.map (mergeToolName name)).getD name, buffer)
  | _ => (name, buffer)

theorem registerToolName_eq (name : List Char) :
    v.registerToolName name = { v with
      state := some
        { v.ensureToolState with name := mergeToolName v.ensureToolState.name name } } := by
  cases hstate : v.state with
  | none =>
    have hnew : v.ensureToolState = .new [] := by rw [ensureToolState, hstate]; rfl
    rw [registerToolName, hstate, hnew]
    rfl
  | some state =>
    have hold : v.ensureToolState = state := by rw [ensureToolState, hstate]; rfl
    rw [registerToolName, hstate, hold, mergeToolName]
    dsimp only
    by_cases hlonger : (state.name = [] || state.name.isPrefixOf name) = true
    · rw [if_pos hlonger, if_pos hlonger]
    · rw [if_neg hlonger, if_neg hlonger]
      by_cases hshorter : name.isPrefixOf state.name = true
      · rw [if_pos hshorter, if_pos hshorter, ← hstate]
      · rw [if_neg hshorter, if_neg hshorter]

theorem readName_spec (name : Option (List Char)) :
    SameProgress v (v.readName k name) ∧
      (v.readName k name).ensureToolState.name
        = (nameStep k name v.ensureToolState.name v.nameBuffer).1 ∧
      (v.readName k name).nameBuffer
        = (nameStep k name v.ensureToolState.name v.nameBuffer).2 := by
  rcases name with _ | _ | ⟨c, cs⟩
  · exact ⟨SameProgress.refl v, rfl, rfl⟩
  · exact ⟨SameProgress.refl v, rfl, rfl⟩
  · rw [readName, nameStep]
    cases decodeStreamedToolName k (c :: cs) v.nameBuffer with
    | mk resolved buffer =>
      cases resolved with
      | none => exact ⟨⟨rfl, rfl, rfl, rfl, rfl, rfl, rfl, rfl⟩, rfl, rfl⟩
      | some name =>
        have hregister := registerToolName_eq (v := { v with nameBuffer := buffer }) name
        dsimp only
        rw [hregister]
        exact ⟨sameProgress_with _ _ _ _, rfl, rfl⟩

/-- The part of `process_tool_call` before a block is started. -/
def readHead (k : Context) (v : View) (tc : ToolCallDelta) : View :=
  ((v.setStreamToolId tc.id).setToolExtraContent tc.extraContent).readName k tc.name

theorem readHead_spec (tc : ToolCallDelta) :
    SameProgress v (v.readHead k tc) ∧
      (v.readHead k tc).ensureToolState.name
        = (nameStep k tc.name v.ensureToolState.name v.nameBuffer).1 ∧
      (v.readHead k tc).nameBuffer
        = (nameStep k tc.name v.ensureToolState.name v.nameBuffer).2 := by
  obtain ⟨hid, hidName, hidBuffer⟩ := sameProgress_setStreamToolId (v := v) tc.id
  obtain ⟨hextra, hextraName, hextraBuffer⟩ :=
    sameProgress_setToolExtraContent (v := v.setStreamToolId tc.id) tc.extraContent
  obtain ⟨hname, hnameName, hnameBuffer⟩ := readName_spec (k := k)
    (v := (v.setStreamToolId tc.id).setToolExtraContent tc.extraContent) tc.name
  rw [hextraName, hidName, hextraBuffer, hidBuffer] at hnameName hnameBuffer
  exact ⟨(hid.trans hextra).trans hname, hnameName, hnameBuffer⟩

/-- The block that is started for a named tool, before its arguments are sent. -/
structure StartsBlock (v w : View) : Prop where
  started : w.ensureToolState.started = true
  blockIndex : w.ensureToolState.blockIndex = v.nextIndex
  name : w.ensureToolState.name = stripped isSpace v.ensureToolState.name
  taskArgBuffer : w.ensureToolState.taskArgBuffer = v.ensureToolState.taskArgBuffer
  taskArgsEmitted : w.ensureToolState.taskArgsEmitted = v.ensureToolState.taskArgsEmitted
  preStartArgs : w.ensureToolState.preStartArgs = []
  nameBuffer : w.nameBuffer = v.nameBuffer
  aliasBuffer : w.aliasBuffer = v.aliasBuffer
  nextIndex : w.nextIndex = v.nextIndex + 1
  events : ∃ id extraContent, w.events = v.events ++
    [.start v.nextIndex id (stripped isSpace v.ensureToolState.name) extraContent]

theorem emitToolArgDelta_nil : v.emitToolArgDelta k [] = v := by
  rw [emitToolArgDelta, if_pos rfl]

theorem startNamed_of_started (h : v.ensureToolState.started = true) : v.startNamed k = v := by
  rw [startNamed]
  cases hstate : v.state with
  | none => rfl
  | some state =>
    rw [ensureToolState, hstate] at h
    simp only [Option.getD_some] at h
    simp [h]

theorem startNamed_of_blank (h : isBlank v.ensureToolState.name = true) : v.startNamed k = v := by
  rw [startNamed]
  cases hstate : v.state with
  | none => rfl
  | some state =>
    rw [ensureToolState, hstate] at h
    simp only [Option.getD_some] at h
    simp [h]

/-- A named tool gets its block, and the arguments that came before are sent. -/
theorem startNamed_starts (hstarted : v.ensureToolState.started = false)
    (hname : isBlank v.ensureToolState.name = false) :
    ∃ w, StartsBlock v w ∧
      v.startNamed k = w.emitToolArgDelta k v.ensureToolState.preStartArgs := by
  obtain ⟨state, nameBuffer, aliasBuffer, nextIndex, idsDrawn, events, recorded⟩ := v
  cases state with
  | none => cases hname
  | some state =>
    simp only [ensureToolState, Option.getD_some] at hstarted hname
    simp only [startNamed, hstarted, hname, Bool.or_self, Bool.false_eq_true, if_false]
    generalize (if state.toolId ≠ [] then (state.toolId, idsDrawn)
      else (['t', 'o', 'o', 'l', '_'] ++ k.uuid idsDrawn, idsDrawn + 1)) = drawn
    generalize hopened : ((View.mk (some state) nameBuffer aliasBuffer nextIndex drawn.2 events
      recorded).record drawn.1 state.extraContent).startToolBlock drawn.1
        (stripped isSpace state.name) state.extraContent = opened
    refine ⟨{ opened with state := opened.state.map ToolBlockState.clearPreStartArgs }, ?_, ?_⟩
    · subst hopened
      cases state.extraContent with
      | none => exact ⟨rfl, rfl, rfl, rfl, rfl, rfl, rfl, rfl, rfl, _, _, rfl⟩
      | some value => exact ⟨rfl, rfl, rfl, rfl, rfl, rfl, rfl, rfl, rfl, _, _, rfl⟩
    · by_cases hpre : state.preStartArgs = []
      · rw [if_pos hpre, ensureToolState, Option.getD_some, hpre, emitToolArgDelta_nil]
        subst hopened
        cases state.extraContent with
        | none => simp [record, startToolBlock, emit, ensureToolState, hpre,
            ToolBlockState.clearPreStartArgs]
        | some value => simp [record, startToolBlock, emit, ensureToolState, hpre,
            ToolBlockState.clearPreStartArgs]
      · rw [if_neg hpre]
        rfl

theorem recordExtraContent_eq (extraContent : Option Json) :
    ∃ recorded, v.recordExtraContent extraContent = { v with recorded := recorded } := by
  obtain ⟨state, nameBuffer, aliasBuffer, nextIndex, idsDrawn, events, recorded⟩ := v
  cases state with
  | none => exact ⟨recorded, rfl⟩
  | some state =>
    rw [recordExtraContent]
    dsimp only
    split_ifs
    · cases extraContent with
      | none => exact ⟨recorded, rfl⟩
      | some value => exact ⟨_, rfl⟩
    · exact ⟨recorded, rfl⟩

/-- What sending arguments does: the block and the name stay, and only deltas are sent. -/
structure Sends (v w : View) : Prop where
  started : w.ensureToolState.started = v.ensureToolState.started
  blockIndex : w.ensureToolState.blockIndex = v.ensureToolState.blockIndex
  name : w.ensureToolState.name = v.ensureToolState.name
  preStartArgs : w.ensureToolState.preStartArgs = v.ensureToolState.preStartArgs
  nameBuffer : w.nameBuffer = v.nameBuffer
  nextIndex : w.nextIndex = v.nextIndex
  events : ∃ out : List (List Char),
    w.events = v.events ++ out.map (.delta v.ensureToolState.blockIndex)

theorem Sends.refl (v : View) : Sends v v :=
  ⟨rfl, rfl, rfl, rfl, rfl, rfl, [], (List.append_nil _).symm⟩

/-! The ways of a fragment of arguments. -/

theorem bufferTaskArgs_done {json : JsonCodec} {state : ToolBlockState} {args : List Char}
    {fields : List (String × Json)} (hemitted : state.taskArgsEmitted = false)
    (hloads : json.loads (state.taskArgBuffer ++ args) = some (.obj fields)) :
    bufferTaskArgs json state args = (some (.obj (normalizeTaskRunInBackground fields)),
      { state with taskArgsEmitted := true, taskArgBuffer := [] }) := by
  simp [bufferTaskArgs, hemitted, hloads]

theorem bufferTaskArgs_waits {json : JsonCodec} {state : ToolBlockState} {args : List Char}
    (hemitted : state.taskArgsEmitted = false)
    (hloads : ∀ fields, json.loads (state.taskArgBuffer ++ args) ≠ some (.obj fields)) :
    bufferTaskArgs json state args
      = (none, { state with taskArgBuffer := state.taskArgBuffer ++ args }) := by
  rw [bufferTaskArgs, hemitted]
  cases hvalue : json.loads (state.taskArgBuffer ++ args) with
  | none => simp [hvalue]
  | some value =>
    cases value with
    | obj fields => exact absurd hvalue (hloads fields)
    | _ => simp [hvalue]

theorem bufferTaskArgs_ignores {json : JsonCodec} {state : ToolBlockState} {args : List Char}
    (hemitted : state.taskArgsEmitted = true) :
    bufferTaskArgs json state args = (none, state) := by
  simp [bufferTaskArgs, hemitted]

theorem sendArguments_task {state next : ToolBlockState} {args : List Char} {value : Json}
    (hname : state.name = taskName)
    (hbuffer : bufferTaskArgs k.json state args = (some value, next)) :
    v.sendArguments k state args = ({ v with state := some next } : View).emit
      (.delta next.blockIndex (k.json.dumps value)) := by
  rw [sendArguments, if_pos hname, hbuffer]

theorem sendArguments_taskWaits {state next : ToolBlockState} {args : List Char}
    (hname : state.name = taskName)
    (hbuffer : bufferTaskArgs k.json state args = (none, next)) :
    v.sendArguments k state args = { v with state := some next } := by
  rw [sendArguments, if_pos hname, hbuffer]

theorem sendArguments_alias {state : ToolBlockState} {args restored : List Char}
    (hname : state.name ≠ taskName) (haliases : (aliases k state.name).entries ≠ [])
    (hrestored : restoreToolArgumentAliases k.json (v.aliasBuffer.getD [] ++ args)
      (aliases k state.name) = some restored) :
    v.sendArguments k state args = ({ v with aliasBuffer := none } : View).emit
      (.delta state.blockIndex restored) := by
  rw [sendArguments, if_neg hname, if_pos haliases]
  simp only [hrestored]

theorem sendArguments_aliasWaits {state : ToolBlockState} {args : List Char}
    (hname : state.name ≠ taskName) (haliases : (aliases k state.name).entries ≠ [])
    (hrestored : restoreToolArgumentAliases k.json (v.aliasBuffer.getD [] ++ args)
      (aliases k state.name) = none) :
    v.sendArguments k state args
      = { v with aliasBuffer := some (v.aliasBuffer.getD [] ++ args) } := by
  rw [sendArguments, if_neg hname, if_pos haliases]
  simp only [hrestored]

theorem sendArguments_plain {state : ToolBlockState} {args : List Char}
    (hname : state.name ≠ taskName) (haliases : (aliases k state.name).entries = []) :
    v.sendArguments k state args = v.emit (.delta state.blockIndex args) := by
  rw [sendArguments, if_neg hname, if_neg (not_not.mpr haliases)]

theorem emitToolArgDelta_sends (args : List Char) : Sends v (v.emitToolArgDelta k args) := by
  obtain ⟨state, nameBuffer, aliasBuffer, nextIndex, idsDrawn, events, recorded⟩ := v
  rw [emitToolArgDelta]
  split_ifs
  · exact Sends.refl _
  · cases state with
    | none => exact Sends.refl _
    | some state =>
      dsimp only
      by_cases hname : state.name = taskName
      · cases hemitted : state.taskArgsEmitted with
        | true =>
          rw [sendArguments_taskWaits hname (bufferTaskArgs_ignores hemitted)]
          exact Sends.refl _
        | false =>
          by_cases hloads : ∃ fields,
              k.json.loads (state.taskArgBuffer ++ args) = some (.obj fields)
          · obtain ⟨fields, hloads⟩ := hloads
            rw [sendArguments_task hname (bufferTaskArgs_done hemitted hloads)]
            exact ⟨rfl, rfl, rfl, rfl, rfl, rfl, [_], rfl⟩
          · rw [sendArguments_taskWaits hname
              (bufferTaskArgs_waits hemitted (not_exists.mp hloads))]
            exact ⟨rfl, rfl, rfl, rfl, rfl, rfl, [], (List.append_nil _).symm⟩
      · by_cases haliases : (aliases k state.name).entries = []
        · rw [sendArguments_plain hname haliases]
          exact ⟨rfl, rfl, rfl, rfl, rfl, rfl, [_], rfl⟩
        · cases hrestored : restoreToolArgumentAliases k.json (aliasBuffer.getD [] ++ args)
              (aliases k state.name) with
          | none =>
            rw [sendArguments_aliasWaits hname haliases hrestored]
            exact ⟨rfl, rfl, rfl, rfl, rfl, rfl, [], (List.append_nil _).symm⟩
          | some restored =>
            rw [sendArguments_alias hname haliases hrestored]
            exact ⟨rfl, rfl, rfl, rfl, rfl, rfl, [_], rfl⟩

theorem readArguments_started (hstarted : v.ensureToolState.started = true)
    (arguments : List Char) : v.readArguments k arguments = v.emitToolArgDelta k arguments := by
  rw [readArguments]
  split_ifs with hempty
  · rw [hempty, emitToolArgDelta_nil]
  · cases hstate : v.state with
    | none =>
      rw [ensureToolState, hstate] at hstarted
      cases hstarted
    | some state =>
      rw [ensureToolState, hstate, Option.getD_some] at hstarted
      simp [hstarted]

/-- Without a name the arguments are kept for later. -/
theorem readArguments_waits (hstarted : v.ensureToolState.started = false)
    (hname : isBlank v.ensureToolState.name = true) (arguments : List Char) :
    (v.readArguments k arguments).ensureToolState = { v.ensureToolState with
      preStartArgs := v.ensureToolState.preStartArgs ++ arguments } ∧
    (v.readArguments k arguments).nameBuffer = v.nameBuffer ∧
    (v.readArguments k arguments).aliasBuffer = v.aliasBuffer ∧
    (v.readArguments k arguments).nextIndex = v.nextIndex ∧
    (v.readArguments k arguments).events = v.events := by
  obtain ⟨state, nameBuffer, aliasBuffer, nextIndex, idsDrawn, events, recorded⟩ := v
  rw [readArguments]
  split_ifs with hempty
  · simp [hempty]
  · cases state with
    | none => exact ⟨rfl, rfl, rfl, rfl, rfl⟩
    | some state =>
      simp only [ensureToolState, Option.getD_some] at hstarted hname ⊢
      simp only [hstarted, hname, Bool.not_true, Bool.or_self, Bool.false_eq_true, if_false]
      simp

/-! ### Three kinds of deltas -/

theorem processToolCall_eq (tc : ToolCallDelta) :
    ∃ recorded, v.processToolCall k tc
      = ({ (v.readHead k tc).startNamed k with recorded := recorded } : View).readArguments k
          tc.arguments := by
  obtain ⟨recorded, hrecorded⟩ :=
    recordExtraContent_eq (v := (v.readHead k tc).startNamed k) tc.extraContent
  exact ⟨recorded, by rw [← hrecorded]; rfl⟩

/-- What the head of a delta leaves: the name, and the name that is held back. -/
structure Named (k : Context) (tc : ToolCallDelta) (v w : View) : Prop extends
    SameProgress v w where
  name : w.ensureToolState.name = (nameStep k tc.name v.ensureToolState.name v.nameBuffer).1
  nameBuffer : w.nameBuffer = (nameStep k tc.name v.ensureToolState.name v.nameBuffer).2

theorem named_readHead (tc : ToolCallDelta) (recorded : List (List Char × Json)) :
    Named k tc v { v.readHead k tc with recorded := recorded } := by
  obtain ⟨hsame, hname, hbuffer⟩ := readHead_spec (k := k) (v := v) tc
  exact ⟨⟨hsame.started, hsame.blockIndex, hsame.taskArgBuffer, hsame.taskArgsEmitted,
    hsame.preStartArgs, hsame.aliasBuffer, hsame.nextIndex, hsame.events⟩, hname, hbuffer⟩

/-- A delta of a call whose block is started. -/
theorem processToolCall_started (tc : ToolCallDelta) (h : v.ensureToolState.started = true) :
    ∃ u, Named k tc v u ∧ v.processToolCall k tc = u.emitToolArgDelta k tc.arguments := by
  obtain ⟨recorded, hprocess⟩ := processToolCall_eq (k := k) (v := v) tc
  have hnamed := named_readHead (k := k) (v := v) tc recorded
  have hstarted := hnamed.started.trans h
  rw [startNamed_of_started ((readHead_spec tc).1.started.trans h)] at hprocess
  rw [readArguments_started hstarted] at hprocess
  exact ⟨_, hnamed, hprocess⟩

/-- A delta of a call that has no name yet. -/
theorem processToolCall_waits {tc : ToolCallDelta}
    (hblank : isBlank (nameStep k tc.name v.ensureToolState.name v.nameBuffer).1 = true) :
    ∃ u, Named k tc v u ∧ v.processToolCall k tc = u.readArguments k tc.arguments := by
  obtain ⟨recorded, hprocess⟩ := processToolCall_eq (k := k) (v := v) tc
  rw [startNamed_of_blank (by rw [(readHead_spec tc).2.1]; exact hblank)] at hprocess
  exact ⟨_, named_readHead tc recorded, hprocess⟩

/-- The delta with which a call gets its name. -/
theorem processToolCall_starts {tc : ToolCallDelta} (h : v.ensureToolState.started = false)
    (hname : isBlank (nameStep k tc.name v.ensureToolState.name v.nameBuffer).1 = false) :
    ∃ u w recorded, Named k tc v u ∧ StartsBlock u w ∧
      v.processToolCall k tc = ({ w.emitToolArgDelta k v.ensureToolState.preStartArgs with
        recorded := recorded } : View).emitToolArgDelta k tc.arguments := by
  obtain ⟨recorded, hprocess⟩ := processToolCall_eq (k := k) (v := v) tc
  obtain ⟨hsame, hheadName, hheadBuffer⟩ := readHead_spec (k := k) (v := v) tc
  obtain ⟨w, hw, hstart⟩ := startNamed_starts (k := k) (hsame.started.trans h)
    (by rw [hheadName]; exact hname)
  rw [hstart, hsame.preStartArgs] at hprocess
  have hstarted := (emitToolArgDelta_sends (k := k) (v := w)
    v.ensureToolState.preStartArgs).started.trans hw.started
  rw [readArguments_started (v := { w.emitToolArgDelta k v.ensureToolState.preStartArgs with
    recorded := recorded }) hstarted] at hprocess
  exact ⟨_, w, recorded, ⟨hsame, hheadName, hheadBuffer⟩, hw, hprocess⟩

end View

end Switchboard.Providers.ToolCalls
