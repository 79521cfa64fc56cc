import Switchboard.Providers.ToolNameFragments

/-!
# Arguments in fragments

However the arguments of calls are cut and mixed, each call gets one block, and the block has the
object of the call.
-/

namespace Switchboard.Providers.ToolCalls

open Switchboard.Text Switchboard.Core.ToolNames

/-- A call of a stream: its name on the wire, and its arguments with the object they stand for. -/
structure ToolCall where
  wire : List Char
  arguments : List Char
  fields : List (String × Json)

/-- The input that the block of a call gets. -/
def ToolCall.input (k : Context) (codec : OpenAIToolNameCodec) (call : ToolCall) : Json :=
  let name := stripped isSpace (codec.decode call.wire)
  if name = taskName then .obj (normalizeTaskRunInBackground call.fields)
  else if (View.aliases k name).entries ≠ [] then
    restoreAliasValue (View.aliases k name) (.obj call.fields)
  else .obj call.fields

/-- The white space of JSON. -/
def isJsonSpace (c : Char) : Bool := c = ' ' || c = '\t' || c = '\n' || c = '\r'

def Spaces (text : List Char) : Prop := ∀ c ∈ text, isJsonSpace c = true

/-- What `json` does with the arguments of a call: they are an object, no beginning of them can be
read but the object itself, white space alone cannot be read, and the input of the block is read
back. -/
structure Readable (k : Context) (codec : OpenAIToolNameCodec) (call : ToolCall) : Prop where
  whole : k.json.loads call.arguments = some (.obj call.fields)
  beginning : ∀ part rest, part ++ rest = call.arguments → k.json.loads part = none ∨
    (k.json.loads part = some (.obj call.fields) ∧ Spaces rest)
  blank : ∀ text, Spaces text → k.json.loads text = none
  written : ∀ text, Spaces text →
    k.json.loads (k.json.dumps (call.input k codec) ++ text) = some (call.input k codec)

/-- A call whose name is not blank, and with which a stream may end. -/
structure Known (codec : OpenAIToolNameCodec) (call : ToolCall) : Prop where
  named : isBlank (codec.decode call.wire) = false
  ends : Waits codec call.wire → codec.isUnchangedName call.wire = true

/-- The JSON text of a block. -/
def blockJson (index : Int) (events : List Event) : List Char :=
  events.flatMap fun
    | .start _ _ _ _ => []
    | .delta i partialJson => if i = index then partialJson else []

/-- The blocks that were started. -/
def startIndices (events : List Event) : List Int :=
  events.filterMap fun
    | .start index _ _ _ => some index
    | .delta _ _ => none

theorem blockJson_append (index : Int) (first second : List Event) :
    blockJson index (first ++ second) = blockJson index first ++ blockJson index second :=
  List.flatMap_append

theorem blockJson_deltas (index : Int) (out : List (List Char)) :
    blockJson index (out.map (.delta index)) = out.flatten := by
  induction out with
  | nil => rfl
  | cons text out ih =>
    rw [List.map_cons, blockJson, List.flatMap_cons, ← blockJson, ih]
    simp

theorem blockJson_other {index other : Int} (h : other ≠ index) (out : List (List Char)) :
    blockJson index (out.map (.delta other)) = [] := by
  induction out with
  | nil => rfl
  | cons text out ih =>
    rw [List.map_cons, blockJson, List.flatMap_cons, ← blockJson, ih]
    simp [h]

theorem startIndices_append (first second : List Event) :
    startIndices (first ++ second) = startIndices first ++ startIndices second :=
  List.filterMap_append

theorem startIndices_deltas (index : Int) (out : List (List Char)) :
    startIndices (out.map (.delta index)) = [] := by
  rw [startIndices, List.filterMap_eq_nil_iff]
  intro event hevent
  obtain ⟨text, _, rfl⟩ := List.mem_map.mp hevent
  rfl

/-! ### One call -/

variable {k : Context} {codec : OpenAIToolNameCodec} {call : ToolCall} {v w : View}

/-- Arguments that were read so far and sent for none of them. -/
def Buffered (k : Context) (buffer read sent : List Char) : Prop :=
  buffer = read ∧ sent = [] ∧ (read = [] ∨ k.json.loads read = none)

/-- The object was read and sent, and only white space is left of the arguments. -/
def Delivered (k : Context) (codec : OpenAIToolNameCodec) (call : ToolCall)
    (buffer read sent : List Char) : Prop :=
  Spaces buffer ∧ (∀ rest, read ++ rest = call.arguments → Spaces rest) ∧
    ∃ text, Spaces text ∧ sent = k.json.dumps (call.input k codec) ++ text

/-- What is sent for the arguments `read` of a call that has its block. -/
structure Sent (k : Context) (codec : OpenAIToolNameCodec) (call : ToolCall) (v : View)
    (read sent : List Char) : Prop where
  task : v.ensureToolState.name = taskName → v.aliasBuffer = none ∧
    ((v.ensureToolState.taskArgsEmitted = false ∧
        Buffered k v.ensureToolState.taskArgBuffer read sent) ∨
      (v.ensureToolState.taskArgsEmitted = true ∧ sent = k.json.dumps (call.input k codec)))
  aliased : v.ensureToolState.name ≠ taskName →
    (View.aliases k v.ensureToolState.name).entries ≠ [] →
    v.ensureToolState.taskArgBuffer = [] ∧
    (Buffered k (v.aliasBuffer.getD []) read sent ∨
      Delivered k codec call (v.aliasBuffer.getD []) read sent)
  plain : v.ensureToolState.name ≠ taskName →
    (View.aliases k v.ensureToolState.name).entries = [] →
    v.ensureToolState.taskArgBuffer = [] ∧ v.aliasBuffer = none ∧ sent = read

theorem spaces_nil : Spaces [] := by
  intro c hc
  cases hc

theorem spaces_append {first second : List Char} (hfirst : Spaces first) (hsecond : Spaces second) :
    Spaces (first ++ second) := fun c hc =>
  (List.mem_append.mp hc).elim (hfirst c) (hsecond c)

theorem restore_of_none {text : List Char} (aliases : Dict (List Char) (List Char))
    (h : k.json.loads text = none) : restoreToolArgumentAliases k.json text aliases = none := by
  rw [restoreToolArgumentAliases, h]

theorem restore_of_some {text : List Char} {fields : List (String × Json)}
    (aliases : Dict (List Char) (List Char)) (h : k.json.loads text = some (.obj fields)) :
    restoreToolArgumentAliases k.json text aliases
      = some (k.json.dumps (restoreAliasValue aliases (.obj fields))) := by
  rw [restoreToolArgumentAliases, h]

/-- More arguments of a task. -/
theorem Sent.task_step {state : ToolBlockState} {read sent args : List Char}
    (hread : Readable k codec call) (hbegins : read ++ args <+: call.arguments)
    (hstate : v.state = some state) (hwire : state.name = stripped isSpace (codec.decode call.wire))
    (hname : state.name = taskName) (h : Sent k codec call v read sent) :
    ∃ out : List (List Char), (v.sendArguments k state args).events
        = v.events ++ out.map (.delta state.blockIndex) ∧
      Sent k codec call (v.sendArguments k state args) (read ++ args) (sent ++ out.flatten) := by
  have hensure : v.ensureToolState = state := by rw [View.ensureToolState, hstate]; rfl
  have hinput : call.input k codec = .obj (normalizeTaskRunInBackground call.fields) := by
    rw [ToolCall.input, ← hwire, if_pos hname]
  obtain ⟨rest, hrest⟩ := hbegins
  obtain ⟨hbuffer, ⟨hemitted, hbuffered⟩ | ⟨hemitted, hsent⟩⟩ := h.task (by rw [hensure, hname])
  · rw [hensure] at hemitted hbuffered
    obtain ⟨hargs, hsent, _⟩ := hbuffered
    obtain hnone | ⟨hsome, _⟩ := hread.beginning (read ++ args) rest hrest
    · have hwaits := @View.bufferTaskArgs_waits k.json state args hemitted (by
        rw [hargs, hnone]
        intro fields hfields
        cases hfields)
      rw [View.sendArguments_taskWaits hname hwaits]
      refine ⟨[], (List.append_nil _).symm, ?_⟩
      constructor
      · intro _
        exact ⟨hbuffer, .inl ⟨hemitted, by simp [View.ensureToolState, hargs],
          by simp [hsent], .inr hnone⟩⟩
      · exact fun hother => absurd hname hother
      · exact fun hother => absurd hname hother
    · rw [← hargs] at hsome
      rw [View.sendArguments_task hname (View.bufferTaskArgs_done hemitted hsome)]
      refine ⟨[k.json.dumps (call.input k codec)], by rw [hinput]; rfl, ?_⟩
      constructor
      · intro _
        exact ⟨hbuffer, .inr ⟨rfl, by simp [hsent]⟩⟩
      · exact fun hother => absurd hname hother
      · exact fun hother => absurd hname hother
  · rw [hensure] at hemitted
    rw [View.sendArguments_taskWaits hname (View.bufferTaskArgs_ignores hemitted)]
    refine ⟨[], (List.append_nil _).symm, ?_⟩
    constructor
    · intro _
      exact ⟨hbuffer, .inr ⟨hemitted, by simp [hsent]⟩⟩
    · exact fun hother => absurd hname hother
    · exact fun hother => absurd hname hother

/-- More arguments of a tool with aliases. -/
theorem Sent.alias_step {state : ToolBlockState} {read sent args : List Char}
    (hread : Readable k codec call) (hbegins : read ++ args <+: call.arguments)
    (hstate : v.state = some state) (hwire : state.name = stripped isSpace (codec.decode call.wire))
    (hname : state.name ≠ taskName) (haliases : (View.aliases k state.name).entries ≠ [])
    (h : Sent k codec call v read sent) :
    ∃ out : List (List Char), (v.sendArguments k state args).events
        = v.events ++ out.map (.delta state.blockIndex) ∧
      Sent k codec call (v.sendArguments k state args) (read ++ args) (sent ++ out.flatten) := by
  have hensure : v.ensureToolState = state := by rw [View.ensureToolState, hstate]; rfl
  have hinput : call.input k codec
      = restoreAliasValue (View.aliases k state.name) (.obj call.fields) := by
    rw [ToolCall.input, ← hwire, if_neg hname, if_pos haliases]
  obtain ⟨rest, hrest⟩ := hbegins
  obtain ⟨htask, hcases⟩ := h.aliased (by rw [hensure]; exact hname)
    (by rw [hensure]; exact haliases)
  rw [hensure] at htask
  have hsame : ∀ {u : View} {sent' : List Char}, u.state = v.state →
      (Buffered k (u.aliasBuffer.getD []) (read ++ args) sent' ∨
        Delivered k codec call (u.aliasBuffer.getD []) (read ++ args) sent') →
      Sent k codec call u (read ++ args) sent' := by
    intro u sent' hu hcases
    have huState : u.ensureToolState = state := by rw [View.ensureToolState, hu, hstate]; rfl
    constructor
    · rw [huState]
      exact fun hother => absurd hother hname
    · rw [huState]
      exact fun _ _ => ⟨htask, hcases⟩
    · rw [huState]
      exact fun _ hother => absurd hother haliases
  obtain ⟨hargs, hsent, _⟩ | ⟨hspaces, hlater, text, htext, hsent⟩ := hcases
  · obtain hnone | ⟨hsome, hblank⟩ := hread.beginning (read ++ args) rest hrest
    · rw [← hargs] at hnone
      rw [View.sendArguments_aliasWaits hname haliases (restore_of_none _ hnone)]
      refine ⟨[], (List.append_nil _).symm, hsame rfl (.inl ⟨?_, by simp [hsent], .inr ?_⟩)⟩
      · rw [Option.getD_some, hargs]
      · rw [← hargs]
        exact hnone
    · rw [← hargs] at hsome
      rw [View.sendArguments_alias hname haliases (restore_of_some _ hsome)]
      refine ⟨[k.json.dumps (call.input k codec)], by rw [hinput]; rfl,
        hsame rfl (.inr ⟨spaces_nil, ?_, [], spaces_nil, by simp [hsent]⟩)⟩
      intro other hother
      rw [List.append_cancel_left (hother.trans hrest.symm)]
      exact hblank
  · have hall := hlater (args ++ rest) (by rw [← List.append_assoc, hrest])
    have hargs : Spaces args := fun c hc => hall c (List.mem_append_left _ hc)
    have hboth := spaces_append hspaces hargs
    rw [View.sendArguments_aliasWaits hname haliases (restore_of_none _ (hread.blank _ hboth))]
    refine ⟨[], (List.append_nil _).symm,
      hsame rfl (.inr ⟨hboth, ?_, text, htext, by simp [hsent]⟩)⟩
    intro other hother
    rw [List.append_cancel_left (hother.trans hrest.symm)]
    exact fun c hc => hall c (List.mem_append_right _ hc)

/-- More arguments of any call that has its block. -/
theorem Sent.step {read sent args : List Char} (hread : Readable k codec call)
    (hbegins : read ++ args <+: call.arguments) (hstarted : v.ensureToolState.started = true)
    (hwire : v.ensureToolState.name = stripped isSpace (codec.decode call.wire))
    (h : Sent k codec call v read sent) :
    ∃ out : List (List Char), (v.emitToolArgDelta k args).events
        = v.events ++ out.map (.delta v.ensureToolState.blockIndex) ∧
      Sent k codec call (v.emitToolArgDelta k args) (read ++ args) (sent ++ out.flatten) := by
  cases hstate : v.state with
  | none =>
    rw [View.ensureToolState, hstate] at hstarted
    cases hstarted
  | some state =>
    have hensure : v.ensureToolState = state := by rw [View.ensureToolState, hstate]; rfl
    rw [hensure] at hwire ⊢
    rw [View.emitToolArgDelta, hstate]
    split_ifs with hempty
    · rw [hempty, List.append_nil]
      exact ⟨[], by simp, by simpa using h⟩
    · dsimp only
      by_cases hname : state.name = taskName
      · exact h.task_step hread hbegins hstate hwire hname
      · by_cases haliases : (View.aliases k state.name).entries = []
        · rw [View.sendArguments_plain hname haliases]
          obtain ⟨htask, hbuffer, hsent⟩ := h.plain (by rw [hensure]; exact hname)
            (by rw [hensure]; exact haliases)
          refine ⟨[args], rfl, ?_⟩
          have hsame : (v.emit (.delta state.blockIndex args)).ensureToolState = state := hensure
          constructor
          · rw [hsame]
            exact fun hother => absurd hother hname
          · rw [hsame]
            exact fun _ hother => absurd haliases hother
          · intro _ _
            exact ⟨htask, hbuffer, by simp [hsent]⟩
        · exact h.alias_step hread hbegins hstate hwire hname haliases

/-- What is sent depends on the state and the buffer of the call only. -/
theorem Sent.of_eq {read sent : List Char} (h : Sent k codec call v read sent)
    (hstate : w.state = v.state) (hbuffer : w.aliasBuffer = v.aliasBuffer) :
    Sent k codec call w read sent := by
  have hensure : w.ensureToolState = v.ensureToolState := by
    rw [View.ensureToolState, hstate, View.ensureToolState]
  constructor
  · rw [hensure, hbuffer]
    exact h.task
  · rw [hensure, hbuffer]
    exact h.aliased
  · rw [hensure, hbuffer]
    exact h.plain

/-- A call without a block, whose arguments are kept. -/
structure Waiting (codec : OpenAIToolNameCodec) (call : ToolCall) (v : View) (named : Bool)
    (read : List Char) : Prop where
  started : v.ensureToolState.started = false
  name : v.ensureToolState.name = []
  nameBuffer : v.nameBuffer = if named then some call.wire else none
  held : named = true → Waits codec call.wire
  preStartArgs : v.ensureToolState.preStartArgs = read
  taskArgBuffer : v.ensureToolState.taskArgBuffer = []
  taskArgsEmitted : v.ensureToolState.taskArgsEmitted = false
  aliasBuffer : v.aliasBuffer = none

/-- A call with its block, for which `sent` was sent. -/
structure Running (k : Context) (codec : OpenAIToolNameCodec) (call : ToolCall) (v : View)
    (index : Int) (read sent : List Char) : Prop where
  started : v.ensureToolState.started = true
  blockIndex : v.ensureToolState.blockIndex = index
  name : v.ensureToolState.name = stripped isSpace (codec.decode call.wire)
  nameBuffer : v.nameBuffer = none
  sent : Sent k codec call v read sent

variable {named : Bool} {read : List Char}

theorem Waiting.of_eq (h : Waiting codec call v named read) (hstate : w.state = v.state)
    (hname : w.nameBuffer = v.nameBuffer) (hbuffer : w.aliasBuffer = v.aliasBuffer) :
    Waiting codec call w named read := by
  have hensure : w.ensureToolState = v.ensureToolState := by
    rw [View.ensureToolState, hstate, View.ensureToolState]
  exact ⟨hensure ▸ h.started, hensure ▸ h.name, hname.trans h.nameBuffer, h.held,
    hensure ▸ h.preStartArgs, hensure ▸ h.taskArgBuffer, hensure ▸ h.taskArgsEmitted,
    hbuffer.trans h.aliasBuffer⟩

theorem Running.of_eq {index : Int} {sent : List Char} (h : Running k codec call v index read sent)
    (hstate : w.state = v.state) (hname : w.nameBuffer = v.nameBuffer)
    (hbuffer : w.aliasBuffer = v.aliasBuffer) : Running k codec call w index read sent := by
  have hensure : w.ensureToolState = v.ensureToolState := by
    rw [View.ensureToolState, hstate, View.ensureToolState]
  exact ⟨hensure ▸ h.started, hensure ▸ h.blockIndex, hensure ▸ h.name, hname.trans h.nameBuffer,
    h.sent.of_eq hstate hbuffer⟩

/-- A delta that gives the call no name. -/
theorem Waiting.wait (h : Waiting codec call v named read) (tc : ToolCallDelta) (next : Bool)
    (hnext : next = true → Waits codec call.wire)
    (hstep : View.nameStep k tc.name [] (if named then some call.wire else none)
      = ([], if next then some call.wire else none)) :
    Waiting codec call (v.processToolCall k tc) next (read ++ tc.arguments) ∧
      (v.processToolCall k tc).events = v.events ∧
      (v.processToolCall k tc).nextIndex = v.nextIndex := by
  have hblank : isBlank (View.nameStep k tc.name v.ensureToolState.name v.nameBuffer).1 = true := by
    rw [h.name, h.nameBuffer, hstep, isBlank_nil]
  obtain ⟨u, hnamed, hprocess⟩ := View.processToolCall_waits (k := k) hblank
  have hname := hnamed.name
  have hbuffer := hnamed.nameBuffer
  rw [h.name, h.nameBuffer, hstep] at hname hbuffer
  have hstarted := hnamed.started.trans h.started
  obtain ⟨hstate, hnameBuffer, haliasBuffer, hnextIndex, hevents⟩ :=
    View.readArguments_waits (k := k) hstarted (by rw [hname, isBlank_nil]) tc.arguments
  rw [hprocess]
  refine ⟨?_, hevents.trans hnamed.events, hnextIndex.trans hnamed.nextIndex⟩
  constructor
  · rw [hstate]
    exact hstarted
  · rw [hstate]
    exact hname
  · exact hnameBuffer.trans hbuffer
  · exact hnext
  · rw [hstate, ← h.preStartArgs, ← hnamed.preStartArgs]
  · rw [hstate]
    exact hnamed.taskArgBuffer.trans h.taskArgBuffer
  · rw [hstate]
    exact hnamed.taskArgsEmitted.trans h.taskArgsEmitted
  · exact haliasBuffer.trans (hnamed.aliasBuffer.trans h.aliasBuffer)

/-- More arguments of a call that has its block. -/
theorem Running.sends {index : Int} {sent : List Char}
    (h : Running k codec call v index read sent) (args : List Char) (hread : Readable k codec call)
    (hbegins : read ++ args <+: call.arguments) :
    ∃ out : List (List Char),
      (v.emitToolArgDelta k args).events = v.events ++ out.map (.delta index) ∧
      (v.emitToolArgDelta k args).nextIndex = v.nextIndex ∧
      Running k codec call (v.emitToolArgDelta k args) index (read ++ args)
        (sent ++ out.flatten) := by
  obtain ⟨out, hout, hsent⟩ := h.sent.step hread hbegins h.started h.name
  have hsends := View.emitToolArgDelta_sends (k := k) (v := v) args
  rw [h.blockIndex] at hout
  exact ⟨out, hout, hsends.nextIndex, hsends.started.trans h.started,
    hsends.blockIndex.trans h.blockIndex, hsends.name.trans h.name,
    hsends.nameBuffer.trans h.nameBuffer, hsent⟩

/-- A delta of a call that has its block. -/
theorem Running.step {index : Int} {sent : List Char} (h : Running k codec call v index read sent)
    (tc : ToolCallDelta) (hread : Readable k codec call)
    (hbegins : read ++ tc.arguments <+: call.arguments)
    (hstep : View.nameStep k tc.name (stripped isSpace (codec.decode call.wire)) none
      = (stripped isSpace (codec.decode call.wire), none)) :
    ∃ out : List (List Char),
      (v.processToolCall k tc).events = v.events ++ out.map (.delta index) ∧
      (v.processToolCall k tc).nextIndex = v.nextIndex ∧
      Running k codec call (v.processToolCall k tc) index (read ++ tc.arguments)
        (sent ++ out.flatten) := by
  obtain ⟨u, hnamed, hprocess⟩ := View.processToolCall_started (k := k) tc h.started
  have hname := hnamed.name
  have hbuffer := hnamed.nameBuffer
  rw [h.name, h.nameBuffer, hstep] at hname hbuffer
  have hu : Running k codec call u index read sent := by
    refine ⟨hnamed.started.trans h.started, hnamed.blockIndex.trans h.blockIndex, hname, hbuffer,
      ?_⟩
    constructor
    · rw [hname, hnamed.aliasBuffer, hnamed.taskArgsEmitted, hnamed.taskArgBuffer, ← h.name]
      exact h.sent.task
    · rw [hname, hnamed.aliasBuffer, hnamed.taskArgBuffer, ← h.name]
      exact h.sent.aliased
    · rw [hname, hnamed.aliasBuffer, hnamed.taskArgBuffer, ← h.name]
      exact h.sent.plain
  rw [hprocess, ← hnamed.events, ← hnamed.nextIndex]
  exact hu.sends tc.arguments hread hbegins

/-- The delta with which a call gets its name and its block. -/
theorem Waiting.start (h : Waiting codec call v named read) (tc : ToolCallDelta)
    (hread : Readable k codec call)
    (hbegins : read ++ tc.arguments <+: call.arguments)
    (hblank : isBlank (codec.decode call.wire) = false)
    (hstep : View.nameStep k tc.name [] (if named then some call.wire else none)
      = (codec.decode call.wire, none)) :
    ∃ (id name : List Char) (extraContent : Option Json) (out : List (List Char)),
      (v.processToolCall k tc).events = v.events ++
        .start v.nextIndex id name extraContent :: out.map (.delta v.nextIndex) ∧
      (v.processToolCall k tc).nextIndex = v.nextIndex + 1 ∧
      Running k codec call (v.processToolCall k tc) v.nextIndex (read ++ tc.arguments)
        out.flatten := by
  have hnot : isBlank (View.nameStep k tc.name v.ensureToolState.name v.nameBuffer).1 = false := by
    rw [h.name, h.nameBuffer, hstep, hblank]
  obtain ⟨u, w, recorded, hnamed, hstarts, hprocess⟩ :=
    View.processToolCall_starts (k := k) h.started hnot
  have huName := hnamed.name
  have huBuffer := hnamed.nameBuffer
  rw [h.name, h.nameBuffer, hstep] at huName huBuffer
  obtain ⟨id, extraContent, hevents⟩ := hstarts.events
  have hindex : w.ensureToolState.blockIndex = v.nextIndex := by
    rw [hstarts.blockIndex, hnamed.nextIndex]
  have htask : w.ensureToolState.taskArgBuffer = [] :=
    hstarts.taskArgBuffer.trans (hnamed.taskArgBuffer.trans h.taskArgBuffer)
  have halias : w.aliasBuffer = none :=
    hstarts.aliasBuffer.trans (hnamed.aliasBuffer.trans h.aliasBuffer)
  have hw : Running k codec call w v.nextIndex [] [] := by
    refine ⟨hstarts.started, hindex, by rw [hstarts.name, huName],
      hstarts.nameBuffer.trans huBuffer, ?_⟩
    constructor
    · intro _
      exact ⟨halias, .inl ⟨hstarts.taskArgsEmitted.trans
        (hnamed.taskArgsEmitted.trans h.taskArgsEmitted), htask, rfl, .inl rfl⟩⟩
    · intro _ _
      exact ⟨htask, .inl ⟨by rw [halias]; rfl, rfl, .inl rfl⟩⟩
    · intro _ _
      exact ⟨htask, halias, rfl⟩
  have hfirst : read <+: call.arguments := (List.prefix_append read tc.arguments).trans hbegins
  obtain ⟨out, hout, hnext, hrunning⟩ := hw.sends read hread hfirst
  rw [List.nil_append, List.nil_append] at hrunning
  rw [h.preStartArgs] at hprocess
  obtain ⟨more, hmore, hmoreNext, hmoreRunning⟩ := Running.sends
    (v := { w.emitToolArgDelta k read with recorded := recorded })
    (hrunning.of_eq rfl rfl rfl) tc.arguments hread hbegins
  rw [← hprocess] at hmore hmoreNext hmoreRunning
  refine ⟨id, stripped isSpace u.ensureToolState.name, extraContent, out ++ more, ?_, ?_, ?_⟩
  · rw [hmore]
    dsimp only
    rw [hout, hevents, hnamed.events, hnamed.nextIndex]
    simp
  · rw [hmoreNext]
    dsimp only
    rw [hnext, hstarts.nextIndex, hnamed.nextIndex]
  · rw [List.flatten_append]
    exact hmoreRunning

end Switchboard.Providers.ToolCalls
