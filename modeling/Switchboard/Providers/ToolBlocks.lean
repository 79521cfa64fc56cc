import Switchboard.Providers.ToolArguments

/-!
# One block for each call

The calls of a stream together: a delta of one call leaves the others alone, and the end of the
stream starts the blocks and sends the arguments that were held back.
-/

namespace Switchboard.Providers.ToolCalls

open Switchboard.Text Switchboard.Core.ToolNames

def Event.index : Event → Int
  | .start index _ _ _ => index
  | .delta index _ => index

def ToolCallDelta.named (tc : ToolCallDelta) : Bool := tc.name.getD [] ≠ []

/-- The arguments of a tool index, put together. -/
def argumentsOf (i : Nat) (deltas : List ToolCallDelta) : List Char :=
  (deltas.filter fun tc => tc.index = i).flatMap ToolCallDelta.arguments

/-- How many deltas of a tool index have a name. -/
def nameCount (i : Nat) (deltas : List ToolCallDelta) : Nat :=
  deltas.countP fun tc => tc.index = i && tc.named

/-- Deltas that carry the calls, in any order and in any pieces. A name comes whole; it may come
again if it has no spaces around it. -/
structure Carries (codec : OpenAIToolNameCodec) (calls : Dict Nat ToolCall)
    (deltas : List ToolCallDelta) : Prop where
  index : ∀ tc ∈ deltas, tc.index ∈ calls.keys
  name : ∀ tc ∈ deltas, ∀ call, calls.get? tc.index = some call → tc.named = true →
    tc.name = some call.wire
  arguments : ∀ i call, calls.get? i = some call → argumentsOf i deltas = call.arguments
  named : ∀ i call, calls.get? i = some call → 0 < nameCount i deltas
  once : ∀ i call, calls.get? i = some call →
    Trimmed (codec.decode call.wire) ∨ nameCount i deltas ≤ 1

/-- Each of the calls has one block, and the block has the input of the call. -/
structure OneBlockEach (k : Context) (codec : OpenAIToolNameCodec) (calls : Dict Nat ToolCall)
    (blocks : Dict Nat Int) (events : List Event) : Prop where
  starts : startIndices events = blocks.values
  distinct : blocks.values.Nodup
  keys : ∀ i, i ∈ blocks.keys ↔ i ∈ calls.keys
  input : ∀ i call index, calls.get? i = some call → blocks.get? i = some index →
    k.json.loads (blockJson index events) = some (call.input k codec)

theorem argumentsOf_append (i : Nat) (first second : List ToolCallDelta) :
    argumentsOf i (first ++ second) = argumentsOf i first ++ argumentsOf i second := by
  rw [argumentsOf, List.filter_append, List.flatMap_append]
  rfl

theorem argumentsOf_self (tc : ToolCallDelta) : argumentsOf tc.index [tc] = tc.arguments := by
  simp [argumentsOf]

theorem argumentsOf_other {tc : ToolCallDelta} {i : Nat} (h : i ≠ tc.index) :
    argumentsOf i [tc] = [] := by
  simp [argumentsOf, Ne.symm h]

theorem nameCount_append (i : Nat) (first second : List ToolCallDelta) :
    nameCount i (first ++ second) = nameCount i first + nameCount i second :=
  List.countP_append

theorem nameCount_other {tc : ToolCallDelta} {i : Nat} (h : i ≠ tc.index) :
    nameCount i [tc] = 0 := by
  simp [nameCount, Ne.symm h]

theorem nameCount_self (tc : ToolCallDelta) :
    nameCount tc.index [tc] = if tc.named then 1 else 0 := by
  rw [nameCount, List.countP_singleton]
  simp

/-! ### One call of a stream -/

variable {k : Context} {codec : OpenAIToolNameCodec} {requested : List (List Char)}
  {call : ToolCall} {v w : View} {named : Bool} {read : List Char} {block : Option Int}
  {tc : ToolCallDelta}

/-- A call that waits for its name, or has the block `block`. -/
def Status (k : Context) (codec : OpenAIToolNameCodec) (call : ToolCall) (v : View) (named : Bool)
    (read : List Char) (block : Option Int) : Prop :=
  (Waiting codec call v named read ∧ block = none) ∨
    (named = true ∧ ∃ index, block = some index ∧
      Running k codec call v index read (blockJson index v.events))

/-- A block is started or goes on, and nothing is sent for other blocks. -/
inductive Advances (v w : View) (before : Option Int) : Option Int → Prop
  | waits : w.nextIndex = v.nextIndex → w.events = v.events → before = none →
      Advances v w before none
  | sends (index : Int) (out : List (List Char)) : before = some index →
      w.nextIndex = v.nextIndex → w.events = v.events ++ out.map (.delta index) →
      Advances v w before (some index)
  | starts (id name : List Char) (extraContent : Option Json) (out : List (List Char)) :
      before = none → w.nextIndex = v.nextIndex + 1 →
      w.events = v.events ++
        .start v.nextIndex id name extraContent :: out.map (.delta v.nextIndex) →
      Advances v w before (some v.nextIndex)

/-- What a name of the call does to a call that waits. -/
theorem Coding.wireStep (hcoding : Coding k requested codec) (hwire : call.wire ≠ [])
    (hnamed : named = true → Waits codec call.wire) :
    (Waits codec call.wire →
      View.nameStep k (some call.wire) [] (if named then some call.wire else none)
        = ([], some call.wire)) ∧
    (¬ Waits codec call.wire →
      View.nameStep k (some call.wire) [] (if named then some call.wire else none)
        = (codec.decode call.wire, none)) := by
  have hmerge : mergeToolName ((if named then some call.wire else none).getD []) call.wire
      = call.wire := by
    cases named with
    | false => rfl
    | true => simp [mergeToolName]
  have hstep := @Coding.nameStep k (if named then some call.wire else none) codec requested hcoding
    call.wire hwire (by
    intro hsome
    cases named with
    | false => exact absurd rfl hsome
    | true => exact hcoding.wellFormed.hasAliases_of_prefix (hnamed rfl).2)
  rw [hmerge] at hstep
  exact hstep

/-- The name comes again after the block was started. -/
theorem Coding.wireAgain (hcoding : Coding k requested codec) (hwire : call.wire ≠ [])
    (hnot : ¬ Waits codec call.wire) (htrimmed : Trimmed (codec.decode call.wire)) :
    View.nameStep k (some call.wire) (stripped isSpace (codec.decode call.wire)) none
      = (stripped isSpace (codec.decode call.wire), none) := by
  have hread := (@Coding.decodeStreamed k none codec requested hcoding call.wire (absurd rfl)).2
    hnot
  obtain ⟨c, cs, hcs⟩ := List.exists_cons_of_ne_nil hwire
  rw [Option.getD_none, mergeToolName_nil] at hread
  rw [hcs] at hread htrimmed ⊢
  rw [View.nameStep, hread, htrimmed.1]
  simp [mergeToolName]

theorem View.nameStep_unnamed (h : tc.named = false) (name : List Char)
    (buffer : Option (List Char)) : View.nameStep k tc.name name buffer = (name, buffer) := by
  rw [ToolCallDelta.named, decide_eq_false_iff_not, not_not] at h
  rcases hname : tc.name with _ | _ | ⟨c, cs⟩
  · rfl
  · rfl
  · rw [hname] at h
    cases h

theorem blockJson_none {index : Int} {events : List Event}
    (h : ∀ event ∈ events, event.index ≠ index) : blockJson index events = [] := by
  rw [blockJson, List.flatMap_eq_nil_iff]
  intro event hevent
  cases event with
  | start => rfl
  | delta other text =>
    have hne : other ≠ index := h _ hevent
    simp [hne]

theorem blockJson_start (index other : Int) (id name : List Char) (extraContent : Option Json)
    (events : List Event) :
    blockJson index (.start other id name extraContent :: events) = blockJson index events := rfl

/-- One delta of a call. -/
theorem Status.step (hcoding : Coding k requested codec) (hknown : Known codec call)
    (hread : Readable k codec call) (hbound : ∀ event ∈ v.events, event.index < v.nextIndex)
    (hbegins : read ++ tc.arguments <+: call.arguments)
    (hname : tc.named = true → tc.name = some call.wire)
    (honce : Trimmed (codec.decode call.wire) ∨ (named = true → tc.named = false))
    (hnot : named = true → block ≠ none → ¬ Waits codec call.wire)
    (h : Status k codec call v named read block) :
    ∃ after, Advances v (v.processToolCall k tc) block after ∧
      (after ≠ none → block ≠ none ∨ ¬ Waits codec call.wire) ∧
      Status k codec call (v.processToolCall k tc) (named || tc.named) (read ++ tc.arguments)
        after := by
  have hwire : tc.named = true → call.wire ≠ [] := by
    intro htc hempty
    rw [ToolCallDelta.named, hname htc, hempty] at htc
    simp at htc
  obtain ⟨hwaiting, hblock⟩ | ⟨hnamed, index, hblock, hrunning⟩ := h
  · cases htc : tc.named with
    | false =>
      obtain ⟨hnext, hevents, hindex⟩ := hwaiting.wait (k := k) tc named hwaiting.held
        (View.nameStep_unnamed htc _ _)
      rw [Bool.or_false]
      exact ⟨none, .waits hindex hevents hblock, fun hsome => absurd rfl hsome, .inl ⟨hnext, rfl⟩⟩
    | true =>
      obtain ⟨hheld, hresolved⟩ := hcoding.wireStep (hwire htc) hwaiting.held
      rw [Bool.or_true]
      by_cases hwaits : Waits codec call.wire
      · obtain ⟨hnext, hevents, hindex⟩ := hwaiting.wait (k := k) tc true
          (fun _ => hwaits) (by rw [hname htc]; exact hheld hwaits)
        exact ⟨none, .waits hindex hevents hblock, fun hsome => absurd rfl hsome,
          .inl ⟨hnext, rfl⟩⟩
      · obtain ⟨id, name, extraContent, out, hevents, hindex, hrunning⟩ :=
          hwaiting.start (k := k) tc hread hbegins hknown.named
            (by rw [hname htc]; exact hresolved hwaits)
        refine ⟨some v.nextIndex, .starts id name extraContent out hblock hindex hevents,
          fun _ => .inr hwaits, .inr ⟨rfl, v.nextIndex, rfl, ?_⟩⟩
        have hfresh : blockJson v.nextIndex v.events = [] := blockJson_none fun event hevent =>
          ne_of_lt (hbound event hevent)
        rw [hevents, blockJson_append, hfresh, blockJson_start, blockJson_deltas]
        exact hrunning
  · have hstep : View.nameStep k tc.name (stripped isSpace (codec.decode call.wire)) none
        = (stripped isSpace (codec.decode call.wire), none) := by
      cases htc : tc.named with
      | false => exact View.nameStep_unnamed htc _ _
      | true =>
        obtain htrimmed | hnone := honce
        · rw [hname htc]
          exact hcoding.wireAgain (hwire htc) (hnot hnamed (by rw [hblock]; simp)) htrimmed
        · rw [hnone hnamed] at htc
          cases htc
    obtain ⟨out, hevents, hindex, hnext⟩ := hrunning.step tc hread hbegins hstep
    refine ⟨some index, .sends index out hblock hindex hevents,
      fun _ => .inl (by rw [hblock]; simp), .inr ⟨by rw [hnamed]; rfl, index, rfl, ?_⟩⟩
    rw [hevents, blockJson_append, blockJson_deltas]
    exact hnext

/-! ### All calls of a stream -/

/-- The dictionaries of two streams agree at a tool index. -/
structure SameCall (v w : View) : Prop where
  state : w.state = v.state
  nameBuffer : w.nameBuffer = v.nameBuffer
  aliasBuffer : w.aliasBuffer = v.aliasBuffer

/-- Nothing is kept for a tool index. -/
structure Idle (v : View) : Prop where
  state : v.state = none
  nameBuffer : v.nameBuffer = none
  aliasBuffer : v.aliasBuffer = none

/-- What holds after the deltas `seen`: `blocks` are the blocks that were started. -/
structure Sound (k : Context) (codec : OpenAIToolNameCodec) (calls : Dict Nat ToolCall)
    (seen : List ToolCallDelta) (blocks : Dict Nat Int) (s : Stream) : Prop where
  call : ∀ i call, calls.get? i = some call →
    Status k codec call (s.view i) (0 < nameCount i seen) (argumentsOf i seen) (blocks.get? i)
  idle : ∀ i, calls.get? i = none → Idle (s.view i) ∧ blocks.get? i = none
  starts : startIndices s.events = blocks.values
  distinct : blocks.values.Nodup
  bound : ∀ event ∈ s.events, event.index < s.nextIndex

theorem sound_new (k : Context) (codec : OpenAIToolNameCodec) (calls : Dict Nat ToolCall)
    (nextIndex : Nat) : Sound k codec calls [] .empty (Stream.new nextIndex) := by
  constructor
  · intro i call _
    refine .inl ⟨⟨rfl, rfl, rfl, ?_, rfl, rfl, rfl, rfl⟩, rfl⟩
    intro hnamed
    simp [nameCount] at hnamed
  · exact fun i _ => ⟨⟨rfl, rfl, rfl⟩, rfl⟩
  · rfl
  · exact List.nodup_nil
  · exact fun event hevent => nomatch hevent

namespace Stream

theorem view_put_of_ne (s : Stream) {i j : Nat} (h : j ≠ i) (v : View) :
    SameCall (s.view j) ((s.put i v).view j) := by
  have hentry : ∀ {ν : Type} (d : Dict Nat ν) (value : Option ν),
      (putEntry d i value).get? j = d.get? j := by
    intro ν d value
    cases value with
    | none => exact Dict.get?_erase_of_ne d h
    | some value => exact Dict.get?_set_of_ne d value h
  exact ⟨hentry _ _, hentry _ _, hentry _ _⟩

end Stream

theorem Idle.of_same (h : Idle v) (hsame : SameCall v w) : Idle w :=
  ⟨hsame.state.trans h.state, hsame.nameBuffer.trans h.nameBuffer,
    hsame.aliasBuffer.trans h.aliasBuffer⟩

theorem Status.of_same (h : Status k codec call v named read block) (hsame : SameCall v w)
    (hjson : ∀ index, block = some index → blockJson index w.events = blockJson index v.events) :
    Status k codec call w named read block := by
  obtain ⟨hwaiting, hblock⟩ | ⟨hnamed, index, hblock, hrunning⟩ := h
  · exact .inl ⟨hwaiting.of_eq hsame.state hsame.nameBuffer hsame.aliasBuffer, hblock⟩
  · refine .inr ⟨hnamed, index, hblock, ?_⟩
    rw [hjson index hblock]
    exact hrunning.of_eq hsame.state hsame.nameBuffer hsame.aliasBuffer

variable {calls : Dict Nat ToolCall} {seen next : List ToolCallDelta} {blocks : Dict Nat Int}
  {s t : Stream} {i : Nat}

theorem mem_startIndices {index : Int} {events : List Event} (h : index ∈ startIndices events) :
    ∃ event ∈ events, event.index = index := by
  rw [startIndices, List.mem_filterMap] at h
  obtain ⟨event, hevent, hindex⟩ := h
  cases event with
  | start other =>
    cases hindex
    exact ⟨_, hevent, rfl⟩
  | delta => cases hindex

/-- The blocks of two calls are different. -/
theorem Sound.block_ne (h : Sound k codec calls seen blocks s) {j : Nat} (hj : j ≠ i) {index : Int}
    (hi : blocks.get? i = some index) : blocks.get? j ≠ some index := by
  intro hsame
  have hnodup := h.distinct
  rw [Dict.values] at hnodup
  have hboth := List.inj_on_of_nodup_map hnodup (Dict.get?_eq_some.mp hi)
    (Dict.get?_eq_some.mp hsame) rfl
  exact hj (congrArg Prod.fst hboth).symm

theorem Sound.block_lt (h : Sound k codec calls seen blocks s) {index : Int}
    (hi : blocks.get? i = some index) : index < s.nextIndex := by
  have hmem : index ∈ blocks.values := Dict.mem_values.mpr ⟨i, hi⟩
  rw [← h.starts] at hmem
  obtain ⟨event, hevent, rfl⟩ := mem_startIndices hmem
  exact h.bound event hevent

/-- One call goes on, with events for its own block, and the others stay. -/
theorem Sound.grow (h : Sound k codec calls seen blocks s) {call : ToolCall}
    (hcall : calls.get? i = some call) (hother : ∀ j, j ≠ i → SameCall (s.view j) (t.view j))
    (hnames : ∀ j, j ≠ i → nameCount j next = nameCount j seen)
    (harguments : ∀ j, j ≠ i → argumentsOf j next = argumentsOf j seen) {more : List Event}
    (hevents : t.events = s.events ++ more)
    (hmine : ∀ j, j ≠ i → ∀ event ∈ more, blocks.get? j ≠ some event.index)
    {blocks' : Dict Nat Int} (hblocks : ∀ j, j ≠ i → blocks'.get? j = blocks.get? j)
    (hstatus : Status k codec call (t.view i) (0 < nameCount i next) (argumentsOf i next)
      (blocks'.get? i)) (hstarts : startIndices t.events = blocks'.values)
    (hdistinct : blocks'.values.Nodup) (hbound : ∀ event ∈ t.events, event.index < t.nextIndex) :
    Sound k codec calls next blocks' t := by
  constructor
  · intro j other hj
    by_cases hji : j = i
    · subst hji
      rw [hcall] at hj
      cases hj
      exact hstatus
    · rw [hnames j hji, harguments j hji, hblocks j hji]
      apply (h.call j other hj).of_same (hother j hji)
      intro index hindex
      have hnone : blockJson index more = [] := blockJson_none fun event hevent hsame =>
        hmine j hji event hevent (by rw [hsame, hindex])
      change blockJson index t.events = blockJson index s.events
      rw [hevents, blockJson_append, hnone, List.append_nil]
  · intro j hj
    have hji : j ≠ i := by
      rintro rfl
      rw [hcall] at hj
      cases hj
    rw [hblocks j hji]
    exact ⟨(h.idle j hj).1.of_same (hother j hji), (h.idle j hj).2⟩
  · exact hstarts
  · exact hdistinct
  · exact hbound

theorem deltas_index {index : Int} {out : List (List Char)} :
    ∀ event ∈ out.map (Event.delta index), event.index = index := by
  intro event hevent
  obtain ⟨text, _, rfl⟩ := List.mem_map.mp hevent
  rfl

/-- One call advances and the others stay. -/
theorem Sound.advance (h : Sound k codec calls seen blocks s) {call : ToolCall}
    (hcall : calls.get? i = some call) (hother : ∀ j, j ≠ i → SameCall (s.view j) (t.view j))
    (hnames : ∀ j, j ≠ i → nameCount j next = nameCount j seen)
    (harguments : ∀ j, j ≠ i → argumentsOf j next = argumentsOf j seen) {after : Option Int}
    (hadvances : Advances (s.view i) (t.view i) (blocks.get? i) after)
    (hstatus : Status k codec call (t.view i) (0 < nameCount i next) (argumentsOf i next) after) :
    ∃ blocks', Sound k codec calls next blocks' t ∧ blocks'.get? i = after ∧
      ∀ j, j ≠ i → blocks'.get? j = blocks.get? j := by
  cases hadvances with
  | waits hindex hevents hblock =>
    refine ⟨blocks, ?_, hblock, fun _ _ => rfl⟩
    change t.events = s.events at hevents
    change t.nextIndex = s.nextIndex at hindex
    refine h.grow hcall hother hnames harguments (hevents.trans (List.append_nil _).symm)
      (fun _ _ _ hevent => nomatch hevent) (fun _ _ => rfl) (by rw [hblock]; exact hstatus) ?_
      h.distinct ?_
    · rw [hevents, h.starts]
    · rw [hevents, hindex]
      exact h.bound
  | sends index out hblock hindex hevents =>
    refine ⟨blocks, ?_, hblock, fun _ _ => rfl⟩
    change t.events = s.events ++ out.map (.delta index) at hevents
    change t.nextIndex = s.nextIndex at hindex
    refine h.grow hcall hother hnames harguments hevents ?_ (fun _ _ => rfl)
      (by rw [hblock]; exact hstatus) ?_ h.distinct ?_
    · intro j hj event hevent
      rw [deltas_index event hevent]
      exact h.block_ne hj hblock
    · rw [hevents, startIndices_append, startIndices_deltas, List.append_nil, h.starts]
    · intro event hevent
      rw [hindex]
      rw [hevents] at hevent
      obtain hevent | hevent := List.mem_append.mp hevent
      · exact h.bound event hevent
      · rw [deltas_index event hevent]
        exact h.block_lt hblock
  | starts id name extraContent out hblock hindex hevents =>
    change t.events = s.events ++ .start s.nextIndex id name extraContent ::
      out.map (.delta s.nextIndex) at hevents
    change t.nextIndex = s.nextIndex + 1 at hindex
    have hfresh : i ∉ blocks.keys := Dict.get?_eq_none.mp hblock
    have hvalues : (blocks.set i (s.nextIndex : Int)).values
        = blocks.values ++ [(s.nextIndex : Int)] := by
      rw [Dict.set, dif_neg hfresh]
      simp [Dict.values]
    have hmore : ∀ event ∈ Event.start s.nextIndex id name extraContent ::
        out.map (.delta s.nextIndex), event.index = s.nextIndex := by
      intro event hevent
      obtain rfl | hevent := List.mem_cons.mp hevent
      · rfl
      · exact deltas_index event hevent
    refine ⟨blocks.set i s.nextIndex, ?_, Dict.get?_set_self _ _ _,
      fun j hj => Dict.get?_set_of_ne _ _ hj⟩
    refine h.grow hcall hother hnames harguments hevents ?_
      (fun j hj => Dict.get?_set_of_ne _ _ hj) (by rw [Dict.get?_set_self]; exact hstatus) ?_ ?_ ?_
    · intro j _ event hevent hsame
      rw [hmore event hevent] at hsame
      exact absurd (h.block_lt hsame) (lt_irrefl _)
    · rw [hevents, hvalues, startIndices_append, h.starts]
      change blocks.values ++ (s.nextIndex : Int) :: startIndices (out.map (.delta _)) = _
      rw [startIndices_deltas]
    · rw [hvalues, List.nodup_append]
      refine ⟨h.distinct, List.nodup_singleton _, ?_⟩
      intro index hmem other hother' hsame
      rw [List.mem_singleton] at hother'
      obtain ⟨j, hj⟩ := Dict.mem_values.mp hmem
      have hlt := h.block_lt hj
      omega
    · intro event hevent
      rw [hindex]
      rw [hevents] at hevent
      obtain hevent | hevent := List.mem_append.mp hevent
      · have hlt := h.bound event hevent
        omega
      · have hself := hmore event hevent
        omega

/-- Calls that the provider can read, for the names of a request. -/
structure Served (k : Context) (requested : List (List Char)) (codec : OpenAIToolNameCodec)
    (calls : Dict Nat ToolCall) : Prop where
  coding : Coding k requested codec
  known : ∀ i call, calls.get? i = some call → Known codec call
  readable : ∀ i call, calls.get? i = some call → Readable k codec call

/-- Names are known for the blocks that are started. -/
def Resolved (codec : OpenAIToolNameCodec) (calls : Dict Nat ToolCall) (blocks : Dict Nat Int) :
    Prop :=
  ∀ i call, calls.get? i = some call → blocks.get? i ≠ none → ¬ Waits codec call.wire

/-- One delta of a stream. -/
theorem Sound.step (hserved : Served k requested codec calls) {rest : List ToolCallDelta}
    (hcarries : Carries codec calls (seen ++ tc :: rest)) (hresolved : Resolved codec calls blocks)
    (h : Sound k codec calls seen blocks s) :
    ∃ blocks', Sound k codec calls (seen ++ [tc]) blocks' (s.processToolCall k tc) ∧
      Resolved codec calls blocks' := by
  have hmem : tc ∈ seen ++ tc :: rest := by simp
  obtain ⟨call, hcall⟩ := Dict.mem_keys.mp (hcarries.index tc hmem)
  have hbegins : argumentsOf tc.index seen ++ tc.arguments <+: call.arguments := by
    rw [← hcarries.arguments tc.index call hcall, argumentsOf_append, ← List.singleton_append,
      argumentsOf_append, argumentsOf_self, ← List.append_assoc]
    exact List.prefix_append _ _
  have honce : Trimmed (codec.decode call.wire) ∨
      (decide (0 < nameCount tc.index seen) = true → tc.named = false) := by
    obtain htrimmed | hle := hcarries.once tc.index call hcall
    · exact .inl htrimmed
    · right
      intro hpos
      rw [decide_eq_true_eq] at hpos
      rw [nameCount_append, ← List.singleton_append, nameCount_append, nameCount_self] at hle
      cases htc : tc.named with
      | false => rfl
      | true =>
        rw [htc, if_pos rfl] at hle
        omega
  obtain ⟨after, hadvances, hafter, hstatus⟩ := (h.call tc.index call hcall).step hserved.coding
    (hserved.known _ _ hcall) (hserved.readable _ _ hcall) h.bound hbegins
    (hcarries.name tc hmem call hcall) honce (fun _ => hresolved _ _ hcall)
  rw [← Stream.view_processToolCall] at hadvances hstatus
  have hnamed : (decide (0 < nameCount tc.index seen) || tc.named)
      = decide (0 < nameCount tc.index (seen ++ [tc])) := by
    rw [nameCount_append, nameCount_self]
    cases tc.named with
    | false => simp
    | true => simp
  rw [hnamed, ← argumentsOf_self, ← argumentsOf_append] at hstatus
  obtain ⟨blocks', hsound, hself, hothers⟩ := h.advance hcall
    (fun j hj => Stream.view_put_of_ne s hj _)
    (fun j hj => by rw [nameCount_append, nameCount_other hj, Nat.add_zero])
    (fun j hj => by rw [argumentsOf_append, argumentsOf_other hj, List.append_nil])
    hadvances hstatus
  refine ⟨blocks', hsound, ?_⟩
  intro j other hj hblock
  by_cases hji : j = tc.index
  · subst hji
    rw [hcall] at hj
    cases hj
    rw [hself] at hblock
    obtain hbefore | hnot := hafter hblock
    · exact hresolved _ _ hcall hbefore
    · exact hnot
  · rw [hothers j hji] at hblock
    exact hresolved j other hj hblock

/-- All deltas of a stream. -/
theorem Sound.run (hserved : Served k requested codec calls) {deltas : List ToolCallDelta}
    (hcarries : Carries codec calls (seen ++ deltas)) (hresolved : Resolved codec calls blocks)
    (h : Sound k codec calls seen blocks s) :
    ∃ blocks', Sound k codec calls (seen ++ deltas) blocks'
      (deltas.foldl (Stream.processToolCall k) s) := by
  induction deltas generalizing seen blocks s with
  | nil =>
    rw [List.append_nil]
    exact ⟨blocks, h⟩
  | cons tc deltas ih =>
    obtain ⟨blocks', hsound, hresolved'⟩ := h.step hserved hcarries hresolved
    rw [List.append_cons] at hcarries ⊢
    exact ih hcarries hresolved' hsound

/-! ### The end of the stream -/

/-- All deltas of the calls were read. -/
structure AllRead (calls : Dict Nat ToolCall) (seen : List ToolCallDelta) : Prop where
  named : ∀ i call, calls.get? i = some call → 0 < nameCount i seen
  arguments : ∀ i call, calls.get? i = some call → argumentsOf i seen = call.arguments

theorem SameCall.trans {u : View} (h : SameCall u v) (h' : SameCall v w) : SameCall u w :=
  ⟨h'.state.trans h.state, h'.nameBuffer.trans h.nameBuffer, h'.aliasBuffer.trans h.aliasBuffer⟩

theorem entries_erase_head {ν : Type} {d : Dict Nat ν} {entry : Nat × ν} {rest : List (Nat × ν)}
    (h : d.entries = entry :: rest) : (d.erase entry.1).entries = rest := by
  have hnodup := d.nodup
  rw [h, List.map_cons, List.nodup_cons] at hnodup
  rw [Dict.erase]
  dsimp only
  rw [h, List.filter_cons, if_neg (by simp), List.filter_eq_self]
  intro other hother
  have hne : other.1 ≠ entry.1 := fun hsame =>
    hnodup.1 (hsame ▸ List.mem_map_of_mem hother)
  simpa using hne

theorem get?_head {ν : Type} {d : Dict Nat ν} {entry : Nat × ν} {rest : List (Nat × ν)}
    (h : d.entries = entry :: rest) : d.get? entry.1 = some entry.2 := by
  rw [Dict.get?_eq_some, h]
  exact List.mem_cons_self

/-- A name that is held back at the end belongs to a call that waits. -/
theorem Sound.held (h : Sound k codec calls seen blocks s) {name : List Char}
    (hname : s.toolNameBuffers.get? i = some name) :
    ∃ call, calls.get? i = some call ∧ name = call.wire ∧ Waits codec call.wire ∧
      blocks.get? i = none ∧
      Waiting codec call { s.view i with nameBuffer := none } false (argumentsOf i seen) := by
  cases hcall : calls.get? i with
  | none =>
    have hnone : s.toolNameBuffers.get? i = none := (h.idle i hcall).1.nameBuffer
    rw [hname] at hnone
    cases hnone
  | some call =>
    obtain ⟨hwaiting, hblock⟩ | ⟨_, index, _, hrunning⟩ := h.call i call hcall
    · have hbuffer := hwaiting.nameBuffer
      change s.toolNameBuffers.get? i = _ at hbuffer
      rw [hname] at hbuffer
      split_ifs at hbuffer with hnamed
      cases hbuffer
      exact ⟨call, rfl, rfl, hwaiting.held hnamed, hblock, hwaiting.started, hwaiting.name, rfl,
        (fun hfalse => nomatch hfalse), hwaiting.preStartArgs, hwaiting.taskArgBuffer,
        hwaiting.taskArgsEmitted, hwaiting.aliasBuffer⟩
    · have hnone : s.toolNameBuffers.get? i = none := hrunning.nameBuffer
      rw [hname] at hnone
      cases hnone

/-- A name that was held back is flushed. -/
theorem Sound.flushName (hserved : Served k requested codec calls) (hall : AllRead calls seen)
    (h : Sound k codec calls seen blocks s) {name : List Char}
    (hname : s.toolNameBuffers.get? i = some name) :
    (∃ blocks', Sound k codec calls seen blocks' (s.flushName k (i, name))) ∧
      (s.flushName k (i, name)).toolNameBuffers.entries
        = (s.toolNameBuffers.erase i).entries := by
  obtain ⟨call, hcall, rfl, hwaits, hblock, hwaiting⟩ := h.held hname
  have hcoding := hserved.coding
  have hstep : View.nameStep { k with buffersNames := false } (some call.wire) []
      (if false then some call.wire else none) = (codec.decode call.wire, none) := by
    obtain ⟨c, cs, hcs⟩ := List.exists_cons_of_ne_nil hwaits.ne_nil
    rw [hcs] at hwaits ⊢
    simp [View.nameStep, decodeStreamedToolName, hcoding.toolNames, mergeToolName_nil,
      hcoding.wellFormed.hasAliases_of_prefix hwaits.2]
  have hreadable := hserved.readable i call hcall
  have hread : Readable { k with buffersNames := false } codec call :=
    ⟨hreadable.whole, hreadable.beginning, hreadable.blank, hreadable.written⟩
  have hall' := hall.arguments i call hcall
  obtain ⟨id, shown, extraContent, out, hevents, hindex, hrunning⟩ := hwaiting.start
    ⟨i, none, some call.wire, [], none⟩ hread
    (by rw [List.append_nil, hall']) (hserved.known i call hcall).named hstep
  generalize hv : ({ s.view i with nameBuffer := none } : View).processToolCall
    { k with buffersNames := false } ⟨i, none, some call.wire, [], none⟩ = v
    at hevents hindex hrunning
  change v.events = s.events ++ .start s.nextIndex id shown extraContent ::
    out.map (.delta s.nextIndex) at hevents
  rw [List.append_nil] at hrunning
  have hflush : s.flushName k (i, call.wire)
      = ({ s with toolNameBuffers := s.toolNameBuffers.erase i } : Stream).put i v := by
    rw [Stream.flushName, Stream.processToolCall, ← hv, Stream.view, Dict.get?_erase_self]
    rfl
  rw [hflush]
  have hview := Stream.view_put_self { s with toolNameBuffers := s.toolNameBuffers.erase i } i v
  constructor
  · have hafter : Running k codec call v s.nextIndex (argumentsOf i seen)
        (blockJson s.nextIndex v.events) := by
      have hfresh : blockJson s.nextIndex s.events = [] := blockJson_none fun event hevent =>
        ne_of_lt (h.bound event hevent)
      have hjson : blockJson s.nextIndex v.events = out.flatten := by
        rw [hevents, blockJson_append, hfresh, blockJson_start, blockJson_deltas, List.nil_append]
      rw [hjson]
      exact ⟨hrunning.started, hrunning.blockIndex, hrunning.name, hrunning.nameBuffer,
        hrunning.sent.task, hrunning.sent.aliased, hrunning.sent.plain⟩
    have herased : ∀ j, j ≠ i → SameCall (s.view j)
        (({ s with toolNameBuffers := s.toolNameBuffers.erase i } : Stream).view j) :=
      fun j hj => ⟨rfl, Dict.get?_erase_of_ne _ hj, rfl⟩
    obtain ⟨blocks', hsound, _⟩ := Sound.advance h hcall
      (fun j hj => (herased j hj).trans (Stream.view_put_of_ne _ hj v))
      (fun _ _ => rfl) (fun _ _ => rfl)
      (by
        rw [hview]
        exact .starts id shown extraContent out hblock hindex hevents)
      (.inr ⟨by simpa using hall.named i call hcall, s.nextIndex, rfl, by rw [hview]; exact hafter⟩)
    exact ⟨blocks', hsound⟩
  · rw [Stream.put, hrunning.nameBuffer, putEntry]
    simp [Dict.erase]

/-- All names that were held back are flushed. -/
theorem Sound.flushNames (hserved : Served k requested codec calls) (hall : AllRead calls seen)
    (h : Sound k codec calls seen blocks s) :
    ∃ blocks', Sound k codec calls seen blocks' (s.flushToolNameBuffers k) ∧
      (s.flushToolNameBuffers k).toolNameBuffers.entries = [] := by
  rw [Stream.flushToolNameBuffers]
  generalize hentries : s.toolNameBuffers.entries = entries
  induction entries generalizing s blocks with
  | nil => exact ⟨blocks, h, hentries⟩
  | cons entry entries ih =>
    obtain ⟨⟨blocks', hsound⟩, hrest⟩ := h.flushName hserved hall (get?_head hentries)
    rw [entries_erase_head hentries] at hrest
    exact ih hsound hrest

/-- A call has its block, and all of its arguments were read. -/
theorem Sound.running (hall : AllRead calls seen) (h : Sound k codec calls seen blocks s)
    (hnames : s.toolNameBuffers.entries = []) {call : ToolCall}
    (hcall : calls.get? i = some call) : ∃ index, blocks.get? i = some index ∧
      Running k codec call (s.view i) index call.arguments (blockJson index s.events) := by
  obtain ⟨hwaiting, _⟩ | ⟨_, index, hblock, hrunning⟩ := h.call i call hcall
  · have hbuffer := hwaiting.nameBuffer
    rw [if_pos (by simpa using hall.named i call hcall)] at hbuffer
    change s.toolNameBuffers.get? i = _ at hbuffer
    rw [Dict.get?_eq_some, hnames] at hbuffer
    cases hbuffer
  · rw [hall.arguments i call hcall] at hrunning
    exact ⟨index, hblock, hrunning⟩

/-- Arguments that were all read are not buffered. -/
theorem Readable.not_buffered (h : Readable k codec call) {buffer sent : List Char} :
    ¬ Buffered k buffer call.arguments sent := by
  rintro ⟨_, _, hempty | hnone⟩
  · have hblank := h.blank [] spaces_nil
    rw [← hempty, h.whole] at hblank
    cases hblank
  · rw [h.whole] at hnone
    cases hnone

/-- White space that was buffered for a tool with aliases is sent. -/
theorem Stream.flushAlias_eq {text : List Char} {state : ToolBlockState}
    (hstate : s.toolStates.get? i = some state) (hname : state.name ≠ taskName)
    (haliases : (View.aliases k state.name).entries ≠ [])
    (hblank : text ≠ [] → k.json.loads text = none) :
    ∃ out : List (List Char), out.flatten = text ∧ s.flushAlias k (i, text)
      = { s with
          events := s.events ++ out.map (.delta state.blockIndex),
          toolArgumentAliasBuffers := s.toolArgumentAliasBuffers.erase i } := by
  rw [Stream.flushAlias]
  split_ifs with hempty
  · exact ⟨[], hempty.symm, by simp⟩
  · refine ⟨[text], by simp, ?_⟩
    rw [hstate]
    dsimp only
    rw [restore_of_none _ (hblank hempty), if_neg (by simp [hname, haliases])]
    rfl

/-- Arguments that are left in the buffer of a tool with aliases are flushed. -/
theorem Sound.flushAlias (hserved : Served k requested codec calls) (hall : AllRead calls seen)
    (h : Sound k codec calls seen blocks s) (hnames : s.toolNameBuffers.entries = [])
    {text : List Char} (htext : s.toolArgumentAliasBuffers.get? i = some text) :
    (∃ blocks', Sound k codec calls seen blocks' (s.flushAlias k (i, text))) ∧
      (s.flushAlias k (i, text)).toolNameBuffers = s.toolNameBuffers ∧
      (s.flushAlias k (i, text)).toolArgumentAliasBuffers
        = s.toolArgumentAliasBuffers.erase i := by
  cases hcall : calls.get? i with
  | none =>
    have hnone : s.toolArgumentAliasBuffers.get? i = none := (h.idle i hcall).1.aliasBuffer
    rw [htext] at hnone
    cases hnone
  | some call =>
    obtain ⟨index, hblock, hrunning⟩ := h.running hall hnames hcall
    have hread := hserved.readable i call hcall
    have hview : (s.view i).aliasBuffer = some text := htext
    cases hstate : (s.view i).state with
    | none =>
      have hstarted := hrunning.started
      rw [View.ensureToolState, hstate] at hstarted
      cases hstarted
    | some state =>
      have hensure : (s.view i).ensureToolState = state := by
        rw [View.ensureToolState, hstate]
        rfl
      have hsent := hrunning.sent
      by_cases hname : state.name = taskName
      · have hnone := (hsent.task (by rw [hensure, hname])).1
        rw [hview] at hnone
        cases hnone
      · by_cases haliases : (View.aliases k state.name).entries = []
        · have hnone := (hsent.plain (by rwa [hensure]) (by rwa [hensure])).2.1
          rw [hview] at hnone
          cases hnone
        · obtain ⟨htask, hbuffered | ⟨hspaces, hlater, before, hbefore, hjson⟩⟩ :=
            hsent.aliased (by rwa [hensure]) (by rwa [hensure])
          · exact absurd hbuffered hread.not_buffered
          · rw [hview, Option.getD_some] at hspaces
            obtain ⟨out, hout, hflush⟩ := Stream.flushAlias_eq (k := k) (s := s) hstate hname
              haliases fun _ => hread.blank text hspaces
            have hindex : state.blockIndex = index := by rw [← hensure, hrunning.blockIndex]
            rw [hindex] at hflush
            rw [hflush]
            refine ⟨?_, rfl, rfl⟩
            have hafter : Running k codec call
                (({ s with
                  events := s.events ++ out.map (.delta index),
                  toolArgumentAliasBuffers := s.toolArgumentAliasBuffers.erase i } : Stream).view i)
                index call.arguments (blockJson index (s.events ++ out.map (.delta index))) := by
              refine ⟨hrunning.started, hrunning.blockIndex, hrunning.name, hrunning.nameBuffer, ?_⟩
              constructor
              · intro htaskName
                exact absurd ((congrArg ToolBlockState.name hensure).symm.trans htaskName) hname
              · intro _ _
                refine ⟨htask, .inr ?_⟩
                have hnone : (s.toolArgumentAliasBuffers.erase i).get? i = none :=
                  Dict.get?_erase_self _ _
                rw [Stream.view, hnone, blockJson_append, blockJson_deltas, hout, hjson]
                exact ⟨spaces_nil, hlater, before ++ text,
                  spaces_append hbefore hspaces, List.append_assoc _ _ _⟩
              · intro _ hnoAliases
                rw [← hensure] at haliases
                exact absurd hnoAliases haliases
            have hothers : ∀ j, j ≠ i → SameCall (s.view j)
                (({ s with
                  events := s.events ++ out.map (.delta index),
                  toolArgumentAliasBuffers := s.toolArgumentAliasBuffers.erase i } : Stream).view j)
                := fun j hj => ⟨rfl, rfl, Dict.get?_erase_of_ne _ hj⟩
            obtain ⟨blocks', hsound, _⟩ := Sound.advance h hcall hothers (fun _ _ => rfl)
              (fun _ _ => rfl) (.sends index out hblock rfl rfl)
              (.inr ⟨by simpa using hall.named i call hcall, index, rfl, by
                rw [hall.arguments i call hcall]
                exact hafter⟩)
            exact ⟨blocks', hsound⟩

/-- All buffers of tools with aliases are flushed. -/
theorem Sound.flushAliases (hserved : Served k requested codec calls) (hall : AllRead calls seen)
    (h : Sound k codec calls seen blocks s) (hnames : s.toolNameBuffers.entries = []) :
    ∃ blocks', Sound k codec calls seen blocks' (s.flushToolArgumentAliasBuffers k) ∧
      (s.flushToolArgumentAliasBuffers k).toolNameBuffers.entries = [] := by
  rw [Stream.flushToolArgumentAliasBuffers]
  generalize hentries : s.toolArgumentAliasBuffers.entries = entries
  induction entries generalizing s blocks with
  | nil => exact ⟨blocks, h, hnames⟩
  | cons entry entries ih =>
    obtain ⟨⟨blocks', hsound⟩, hsame, hrest⟩ :=
      h.flushAlias hserved hall hnames (get?_head hentries)
    exact ih hsound (by rw [← hnames, ← hsame])
      (by rw [← entries_erase_head hentries, ← hrest])

/-- No arguments of a task are left. -/
theorem Sound.flushTasks (hserved : Served k requested codec calls) (hall : AllRead calls seen)
    (h : Sound k codec calls seen blocks s) (hnames : s.toolNameBuffers.entries = []) :
    s.flushTaskArgBuffers k = s := by
  have hentry : ∀ entry ∈ s.toolStates.entries, s.flushTask k entry = s := by
    intro entry hmem
    have hstate : (s.view entry.1).state = some entry.2 := Dict.get?_eq_some.mpr hmem
    have hensure : (s.view entry.1).ensureToolState = entry.2 := by
      rw [View.ensureToolState, hstate]
      rfl
    cases hcall : calls.get? entry.1 with
    | none =>
      have hnone := (h.idle entry.1 hcall).1.state
      rw [hstate] at hnone
      cases hnone
    | some call =>
      obtain ⟨index, hblock, hrunning⟩ := h.running hall hnames hcall
      have hread := hserved.readable entry.1 call hcall
      have hsent := hrunning.sent
      rw [Stream.flushTask]
      apply if_pos
      rw [Bool.or_eq_true, decide_eq_true_eq, ← hensure]
      by_cases hname : (s.view entry.1).ensureToolState.name = taskName
      · obtain ⟨_, ⟨_, hbuffered⟩ | ⟨hemitted, _⟩⟩ := hsent.task hname
        · exact absurd hbuffered hread.not_buffered
        · exact .inr hemitted
      · by_cases haliases : (View.aliases k (s.view entry.1).ensureToolState.name).entries = []
        · exact .inl (hsent.plain hname haliases).1
        · exact .inl (hsent.aliased hname haliases).1
  rw [Stream.flushTaskArgBuffers]
  generalize s.toolStates.entries = entries at hentry
  induction entries with
  | nil => rfl
  | cons entry entries ih =>
    rw [List.foldl_cons, hentry entry List.mem_cons_self]
    exact ih fun other hother => hentry other (List.mem_cons_of_mem _ hother)

/-- The text that was sent for all arguments of a call is read back. -/
theorem Running.input (hread : Readable k codec call) {index : Int} {sent : List Char}
    (h : Running k codec call v index call.arguments sent) :
    k.json.loads sent = some (call.input k codec) := by
  by_cases hname : v.ensureToolState.name = taskName
  · obtain ⟨_, ⟨_, hbuffered⟩ | ⟨_, hsent⟩⟩ := h.sent.task hname
    · exact absurd hbuffered hread.not_buffered
    · rw [hsent, ← List.append_nil (k.json.dumps _)]
      exact hread.written [] spaces_nil
  · by_cases haliases : (View.aliases k v.ensureToolState.name).entries = []
    · obtain ⟨_, _, hsent⟩ := h.sent.plain hname haliases
      rw [h.name] at hname haliases
      rw [hsent, hread.whole, ToolCall.input, if_neg hname, if_neg (not_not.mpr haliases)]
    · obtain ⟨_, hbuffered | ⟨_, _, text, htext, hsent⟩⟩ := h.sent.aliased hname haliases
      · exact absurd hbuffered hread.not_buffered
      · rw [hsent]
        exact hread.written text htext

theorem Carries.allRead {deltas : List ToolCallDelta} (h : Carries codec calls deltas) :
    AllRead calls deltas :=
  ⟨h.named, h.arguments⟩

/-- A stream of calls ends with one block for each of them. -/
theorem Carries.finish (hserved : Served k requested codec calls) {deltas : List ToolCallDelta}
    (hcarries : Carries codec calls deltas) (nextIndex : Nat) :
    ∃ (t : Stream) (blocks : Dict Nat Int),
      (deltas.foldl (Stream.processToolCall k) (Stream.new nextIndex)).finish k = some t ∧
      OneBlockEach k codec calls blocks t.events := by
  have hall := hcarries.allRead
  obtain ⟨blocks, hsound⟩ := (sound_new k codec calls nextIndex).run hserved
    (show Carries codec calls ([] ++ deltas) from hcarries)
    (fun _ _ _ hblock => absurd rfl hblock)
  rw [List.nil_append] at hsound
  generalize deltas.foldl (Stream.processToolCall k) (Stream.new nextIndex) = s at hsound ⊢
  obtain ⟨blocks₁, hnamed, hnone⟩ := hsound.flushNames hserved hall
  obtain ⟨blocks₂, hflushed, hempty⟩ := hnamed.flushAliases hserved hall hnone
  have htasks := hflushed.flushTasks hserved hall hempty
  have hfinish : s.finish k
      = some ((s.flushToolNameBuffers k).flushToolArgumentAliasBuffers k) := by
    rw [Stream.finish, htasks]
    apply if_neg
    rw [List.any_eq_true]
    rintro ⟨name, hname, hnot⟩
    obtain ⟨i, hi⟩ := Dict.mem_values.mp hname
    obtain ⟨call, hcall, rfl, hwaits, _⟩ := hsound.held hi
    rw [hserved.coding.toolNames] at hnot
    simp [(hserved.known i call hcall).ends hwaits] at hnot
  refine ⟨_, blocks₂, hfinish, hflushed.starts, hflushed.distinct, ?_, ?_⟩
  · intro i
    constructor
    · intro hmem
      obtain ⟨index, hindex⟩ := Dict.mem_keys.mp hmem
      by_contra hnot
      rw [(hflushed.idle i (Dict.get?_eq_none.mpr hnot)).2] at hindex
      cases hindex
    · intro hmem
      obtain ⟨call, hcall⟩ := Dict.mem_keys.mp hmem
      obtain ⟨index, hblock, _⟩ := hflushed.running hall hempty hcall
      exact Dict.mem_keys.mpr ⟨index, hblock⟩
  · intro i call index hcall hblock
    obtain ⟨other, hother, hrunning⟩ := hflushed.running hall hempty hcall
    rw [hblock] at hother
    cases hother
    exact hrunning.input (hserved.readable i call hcall)

/-- However the arguments of the calls are cut, and however the pieces of several calls are mixed,
every call gets one block, and the block has the input that it has when the calls are carried in
any other way, as one delta each. -/
theorem tool_arguments_reassembled {sha256 : List Char → List (Fin 16)} {fuel : Nat}
    (hcodec : OpenAIToolNameCodec.fromNames sha256 fuel requested = some codec)
    (hk : k.toolNames = some codec ∧ k.buffersNames = true)
    (hcalls : ∀ i call, calls.get? i = some call → Known codec call ∧ Readable k codec call)
    {deltas whole : List ToolCallDelta} (hdeltas : Carries codec calls deltas)
    (hwhole : Carries codec calls whole) (nextIndex : Nat) :
    ∃ (s t : Stream) (blocks wholeBlocks : Dict Nat Int),
      (deltas.foldl (Stream.processToolCall k) (Stream.new nextIndex)).finish k = some s ∧
      (whole.foldl (Stream.processToolCall k) (Stream.new nextIndex)).finish k = some t ∧
      OneBlockEach k codec calls blocks s.events ∧
      OneBlockEach k codec calls wholeBlocks t.events ∧
      ∀ i index wholeIndex, blocks.get? i = some index → wholeBlocks.get? i = some wholeIndex →
        k.json.loads (blockJson index s.events) = k.json.loads (blockJson wholeIndex t.events) := by
  have hserved : Served k requested codec calls :=
    ⟨⟨hk.1, hk.2, OpenAIToolNameCodec.wellFormed_fromNames sha256 hcodec⟩,
      fun i call hcall => (hcalls i call hcall).1, fun i call hcall => (hcalls i call hcall).2⟩
  obtain ⟨s, blocks, hs, heach⟩ := hdeltas.finish hserved nextIndex
  obtain ⟨t, wholeBlocks, ht, hwholeEach⟩ := hwhole.finish hserved nextIndex
  refine ⟨s, t, blocks, wholeBlocks, hs, ht, heach, hwholeEach, ?_⟩
  intro i index wholeIndex hindex hwholeIndex
  obtain ⟨call, hcall⟩ := Dict.mem_keys.mp ((heach.keys i).mp (Dict.mem_keys.mpr ⟨index, hindex⟩))
  rw [heach.input i call index hcall hindex, hwholeEach.input i call wholeIndex hcall hwholeIndex]

/-! ### A call whose arguments begin before its name -/

/-- `json` on the text of the empty object. -/
def emptyObjectJson : JsonCodec where
  loads
    | '{' :: '}' :: rest => if rest.all isJsonSpace then some (.obj []) else none
    | _ => none
  dumps _ := ['{', '}']

def emptyObjectContext : Context :=
  ⟨emptyObjectJson, fun _ => [], some readCodec, true, .empty⟩

def emptyObjectCall : ToolCall := ⟨readTool, ['{', '}'], []⟩

def emptyObjectCalls : Dict Nat ToolCall := Dict.empty.set 0 emptyObjectCall

def mixedDeltas : List ToolCallDelta :=
  [⟨0, some ['c'], none, ['{'], none⟩, ⟨0, none, some readTool, ['}'], none⟩]

def wholeDelta : List ToolCallDelta := [⟨0, some ['c'], some readTool, ['{', '}'], none⟩]

theorem emptyObjectCalls_get {i : Nat} {call : ToolCall}
    (h : emptyObjectCalls.get? i = some call) : i = 0 ∧ call = emptyObjectCall := by
  rw [emptyObjectCalls, Dict.get?_set] at h
  split_ifs at h with hi
  · cases h
    exact ⟨hi, rfl⟩
  · cases h

theorem emptyObjectCall_input :
    emptyObjectCall.input emptyObjectContext readCodec = .obj [] := by rfl

theorem emptyObject_known : Known readCodec emptyObjectCall :=
  ⟨by decide, fun _ => by decide⟩

theorem emptyObject_readable : Readable emptyObjectContext readCodec emptyObjectCall where
  whole := rfl
  beginning := by
    intro part rest hparts
    change part ++ rest = ['{', '}'] at hparts
    rcases part with _ | ⟨a, _ | ⟨b, part⟩⟩
    · exact .inl rfl
    · left
      obtain ⟨rfl, _⟩ := List.cons.inj hparts
      rfl
    · right
      simp only [List.cons_append, List.cons.injEq, List.append_eq_nil_iff] at hparts
      obtain ⟨rfl, rfl, rfl, rfl⟩ := hparts
      exact ⟨rfl, spaces_nil⟩
  blank := by
    intro text htext
    cases text with
    | nil => rfl
    | cons c text =>
      have hc := htext c List.mem_cons_self
      simp only [emptyObjectContext, emptyObjectJson]
      split
      · rename_i hshape
        cases hshape
        cases hc
      · rfl
  written := by
    intro text htext
    rw [emptyObjectCall_input]
    exact if_pos (List.all_eq_true.mpr htext)

theorem mixedDeltas_carries : Carries readCodec emptyObjectCalls mixedDeltas := by
  constructor
  · decide
  · intro tc htc call hcall hnamed
    obtain ⟨_, rfl⟩ := emptyObjectCalls_get hcall
    simp only [mixedDeltas, List.mem_cons, List.not_mem_nil, or_false] at htc
    obtain rfl | rfl := htc
    · cases hnamed
    · rfl
  · intro i call hcall
    obtain ⟨rfl, rfl⟩ := emptyObjectCalls_get hcall
    rfl
  · intro i call hcall
    obtain ⟨rfl, rfl⟩ := emptyObjectCalls_get hcall
    decide
  · intro i call hcall
    obtain ⟨rfl, rfl⟩ := emptyObjectCalls_get hcall
    exact .inr (by decide)

theorem wholeDelta_carries : Carries readCodec emptyObjectCalls wholeDelta := by
  constructor
  · decide
  · intro tc htc call hcall _
    obtain ⟨_, rfl⟩ := emptyObjectCalls_get hcall
    rw [wholeDelta, List.mem_singleton] at htc
    rw [htc]
    rfl
  · intro i call hcall
    obtain ⟨rfl, rfl⟩ := emptyObjectCalls_get hcall
    rfl
  · intro i call hcall
    obtain ⟨rfl, rfl⟩ := emptyObjectCalls_get hcall
    decide
  · intro i call hcall
    obtain ⟨rfl, rfl⟩ := emptyObjectCalls_get hcall
    exact .inr (by decide)

theorem tool_arguments_reassembled_sample :
    ∃ (s t : Stream) (blocks wholeBlocks : Dict Nat Int),
      (mixedDeltas.foldl (Stream.processToolCall emptyObjectContext) (Stream.new 0)).finish
        emptyObjectContext = some s ∧
      (wholeDelta.foldl (Stream.processToolCall emptyObjectContext) (Stream.new 0)).finish
        emptyObjectContext = some t ∧
      OneBlockEach emptyObjectContext readCodec emptyObjectCalls blocks s.events ∧
      OneBlockEach emptyObjectContext readCodec emptyObjectCalls wholeBlocks t.events ∧
      ∀ i index wholeIndex, blocks.get? i = some index → wholeBlocks.get? i = some wholeIndex →
        emptyObjectContext.json.loads (blockJson index s.events)
          = emptyObjectContext.json.loads (blockJson wholeIndex t.events) :=
  tool_arguments_reassembled fromNames_readTool ⟨rfl, rfl⟩
    (fun _ _ hcall => (emptyObjectCalls_get hcall).2 ▸ ⟨emptyObject_known, emptyObject_readable⟩)
    mixedDeltas_carries wholeDelta_carries 0

end Switchboard.Providers.ToolCalls
