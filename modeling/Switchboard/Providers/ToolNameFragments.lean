import Switchboard.Providers.ToolCalls

/-!
# Names in fragments

What name a block carries when the name of the call arrives in several deltas.
-/

namespace Switchboard.Providers.ToolCalls

open Switchboard.Text Switchboard.Core.ToolNames

/-- The names of the blocks that were started. -/
def startNames (events : List Event) : List (List Char) :=
  events.filterMap fun
    | .start _ _ name _ => some name
    | .delta _ _ => none

/-- The names of the blocks of a stream that ends. -/
def startedNames (k : Context) (nextIndex : Nat) (deltas : List ToolCallDelta) :
    Option (List (List Char)) :=
  ((deltas.foldl (Stream.processToolCall k) (Stream.new nextIndex)).finish k).map fun s =>
    startNames s.events

/-- Deltas of one tool index that carry the fragments of a name. -/
structure NameDeltas (i : Nat) (fragments : List (List Char)) (deltas : List ToolCallDelta) :
    Prop where
  index : ∀ tc ∈ deltas, tc.index = i
  names : deltas.map ToolCallDelta.name = fragments.map some

/-- Deltas of the tool index that carry no name. -/
def Nameless (i : Nat) (deltas : List ToolCallDelta) : Prop :=
  ∀ tc ∈ deltas, tc.index = i ∧ tc.name = none

/-- A text that is held back, because an alias begins with it. -/
def Waits (codec : OpenAIToolNameCodec) (value : List Char) : Prop :=
  codec.isAlias value = false ∧ codec.isAliasPrefix value = true

/-- At every cut behind `before` what came before the cut is held back, and neither it nor the next
fragment begins with the other. -/
def Held (codec : OpenAIToolNameCodec) : List Char → List (List Char) → Prop
  | _, [] => True
  | before, fragment :: rest =>
    Waits codec before ∧ ¬ before <+: fragment ∧ ¬ fragment <+: before ∧
      Held codec (before ++ fragment) rest

theorem startNames_append (first second : List Event) :
    startNames (first ++ second) = startNames first ++ startNames second :=
  List.filterMap_append

theorem startNames_deltas (index : Int) (out : List (List Char)) :
    startNames (out.map (.delta index)) = [] := by
  rw [startNames, List.filterMap_eq_nil_iff]
  intro event hevent
  obtain ⟨text, _, rfl⟩ := List.mem_map.mp hevent
  rfl

/-! ### One tool index -/

/-- A call without a block, of whose name `buffer` is held back. -/
structure Pending (v : View) (buffer : Option (List Char)) (names : List (List Char)) : Prop where
  started : v.ensureToolState.started = false
  name : v.ensureToolState.name = []
  nameBuffer : v.nameBuffer = buffer
  names : startNames v.events = names

/-- A call with a block. -/
structure Open (v : View) (names : List (List Char)) : Prop where
  started : v.ensureToolState.started = true
  names : startNames v.events = names

variable {k : Context} {v : View} {tc : ToolCallDelta} {names : List (List Char)}
  {buffer : Option (List Char)}

theorem Open.of_sends {w : View} (h : Open v names) (hsends : View.Sends v w) : Open w names := by
  obtain ⟨out, hout⟩ := hsends.events
  exact ⟨hsends.started.trans h.started, by
    rw [hout, startNames_append, startNames_deltas, List.append_nil, h.names]⟩

theorem Open.step (h : Open v names) : Open (v.processToolCall k tc) names := by
  obtain ⟨u, hnamed, hprocess⟩ := View.processToolCall_started (k := k) tc h.started
  rw [hprocess]
  have hu : Open u names := ⟨hnamed.started.trans h.started, by rw [hnamed.events, h.names]⟩
  exact hu.of_sends (View.emitToolArgDelta_sends _)

theorem isBlank_nil : isBlank [] = true := by decide

/-- A delta without a name, or with one that is held back. -/
theorem Pending.wait (h : Pending v buffer names) {next : Option (List Char)}
    (hstep : View.nameStep k tc.name [] buffer = ([], next)) :
    Pending (v.processToolCall k tc) next names := by
  have hblank : isBlank (View.nameStep k tc.name v.ensureToolState.name v.nameBuffer).1 = true := by
    rw [h.name, h.nameBuffer, hstep, isBlank_nil]
  obtain ⟨u, hnamed, hprocess⟩ := View.processToolCall_waits (k := k) hblank
  have hname := hnamed.name
  have hbuffer := hnamed.nameBuffer
  rw [h.name, h.nameBuffer, hstep] at hname hbuffer
  have hstarted := hnamed.started.trans h.started
  obtain ⟨hstate, hnameBuffer, _, _, hevents⟩ := View.readArguments_waits (k := k) hstarted
    (by rw [hname, isBlank_nil]) tc.arguments
  rw [hprocess]
  exact ⟨by rw [hstate]; exact hstarted, by rw [hstate]; exact hname,
    hnameBuffer.trans hbuffer, by rw [hevents, hnamed.events, h.names]⟩

/-- A delta with which the name is known. -/
theorem Pending.resolve (h : Pending v buffer names) (tc : ToolCallDelta) {name : List Char}
    {next : Option (List Char)} (hstep : View.nameStep k tc.name [] buffer = (name, next))
    (hname : isBlank name = false) :
    Open (v.processToolCall k tc) (names ++ [stripped isSpace name]) ∧
      (v.processToolCall k tc).nameBuffer = next := by
  have hnot : isBlank (View.nameStep k tc.name v.ensureToolState.name v.nameBuffer).1 = false := by
    rw [h.name, h.nameBuffer, hstep, hname]
  obtain ⟨u, w, recorded, hnamed, hstarts, hprocess⟩ :=
    View.processToolCall_starts (k := k) h.started hnot
  have huName := hnamed.name
  have huBuffer := hnamed.nameBuffer
  rw [h.name, h.nameBuffer, hstep] at huName huBuffer
  obtain ⟨id, extraContent, hevents⟩ := hstarts.events
  have hw : Open w (names ++ [stripped isSpace name]) := by
    refine ⟨hstarts.started, ?_⟩
    rw [hevents, startNames_append, hnamed.events, h.names, huName]
    rfl
  have hpre := View.emitToolArgDelta_sends (k := k) (v := w) v.ensureToolState.preStartArgs
  have hopen := hw.of_sends hpre
  generalize hx : ({ w.emitToolArgDelta k v.ensureToolState.preStartArgs with
    recorded := recorded } : View) = x at hprocess
  have hxOpen : Open x (names ++ [stripped isSpace name]) := by
    rw [← hx]
    exact ⟨hopen.started, hopen.names⟩
  have hsends := View.emitToolArgDelta_sends (k := k) (v := x) tc.arguments
  rw [hprocess]
  refine ⟨hxOpen.of_sends hsends, ?_⟩
  rw [hsends.nameBuffer, ← hx]
  exact (hpre.nameBuffer.trans hstarts.nameBuffer).trans huBuffer

/-! ### One stream -/

namespace Stream

theorem view_put_self (s : Stream) (i : Nat) (v : View) : (s.put i v).view i = v := by
  have hentry : ∀ {ν : Type} (d : Dict Nat ν) (value : Option ν),
      (putEntry d i value).get? i = value := by
    intro ν d value
    cases value with
    | none => exact Dict.get?_erase_self d i
    | some value => exact Dict.get?_set_self d i value
  rw [view, put]
  simp only [hentry]

theorem view_processToolCall {k : Context} {s : Stream} {tc : ToolCallDelta} :
    (s.processToolCall k tc).view tc.index = (s.view tc.index).processToolCall k tc :=
  view_put_self _ _ _

theorem view_foldl {k : Context} {i : Nat} {deltas : List ToolCallDelta}
    (hindex : ∀ tc ∈ deltas, tc.index = i) (s : Stream) :
    (deltas.foldl (processToolCall k) s).view i
      = deltas.foldl (View.processToolCall k) (s.view i) := by
  induction deltas generalizing s with
  | nil => rfl
  | cons tc deltas ih =>
    have htc := hindex tc List.mem_cons_self
    rw [List.foldl_cons, ih (fun t ht => hindex t (List.mem_cons_of_mem _ ht)), List.foldl_cons,
      ← htc, view_processToolCall]

/-- Only names of the tool index are held back. -/
def Only (i : Nat) (s : Stream) : Prop := ∀ j, j ≠ i → s.toolNameBuffers.get? j = none

theorem Only.processToolCall {i : Nat} {s : Stream} {k : Context} {tc : ToolCallDelta}
    (h : Only i s) (htc : tc.index = i) : Only i (s.processToolCall k tc) := by
  intro j hj
  rw [Stream.processToolCall, put, htc]
  dsimp only
  cases ((s.view i).processToolCall k tc).nameBuffer with
  | none => exact (Dict.get?_erase_of_ne _ hj).trans (h j hj)
  | some value => exact (Dict.get?_set_of_ne _ _ hj).trans (h j hj)

theorem Only.foldl {i : Nat} {k : Context} {deltas : List ToolCallDelta}
    (hindex : ∀ tc ∈ deltas, tc.index = i) {s : Stream} (h : Only i s) :
    Only i (deltas.foldl (Stream.processToolCall k) s) := by
  induction deltas generalizing s with
  | nil => exact h
  | cons tc deltas ih =>
    exact ih (fun t ht => hindex t (List.mem_cons_of_mem _ ht))
      (h.processToolCall (hindex tc List.mem_cons_self))

theorem Only.entries {i : Nat} {s : Stream} (h : Only i s) :
    s.toolNameBuffers.entries = ((s.view i).nameBuffer.map (i, ·)).toList :=
  Dict.entries_of_only h

theorem startNames_flushAlias (k : Context) (s : Stream) (entry : Nat × List Char) :
    startNames (s.flushAlias k entry).events = startNames s.events := by
  rw [flushAlias]
  split_ifs
  · rfl
  · cases s.toolStates.get? entry.1 with
    | none => rfl
    | some state =>
      dsimp only
      split_ifs
      · rfl
      · rw [startNames_append]
        exact List.append_nil _

theorem startNames_flushTask (k : Context) (s : Stream) (entry : Nat × ToolBlockState) :
    startNames (s.flushTask k entry).events = startNames s.events := by
  rw [flushTask]
  split_ifs
  · rfl
  · rw [startNames_append]
    exact List.append_nil _

theorem startNames_foldl {β : Type} {f : Stream → β → Stream} {l : List β}
    (hf : ∀ s entry, startNames (f s entry).events = startNames s.events) (s : Stream) :
    startNames (l.foldl f s).events = startNames s.events := by
  induction l generalizing s with
  | nil => rfl
  | cons entry l ih => rw [List.foldl_cons, ih, hf]

theorem startNames_finish {k : Context} {s t : Stream} (h : s.finish k = some t) :
    startNames t.events = startNames (s.flushToolNameBuffers k).events := by
  rw [finish] at h
  split_ifs at h
  cases h
  rw [flushTaskArgBuffers, startNames_foldl (startNames_flushTask k),
    flushToolArgumentAliasBuffers, startNames_foldl (startNames_flushAlias k)]

end Stream

/-! ### The fragments -/

theorem mergeToolName_nil (incoming : List Char) : mergeToolName [] incoming = incoming := rfl

/-- Fragments neither of which begins with the other are put together. -/
theorem mergeToolName_append {existing incoming : List Char} (hexisting : existing ≠ [])
    (hlonger : ¬ existing <+: incoming) (hshorter : ¬ incoming <+: existing) :
    mergeToolName existing incoming = existing ++ incoming := by
  rw [← List.isPrefixOf_iff_prefix, Bool.not_eq_true] at hlonger hshorter
  simp [mergeToolName, hexisting, hlonger, hshorter]

/-- Merged fragments are as long as both together only when nothing was taken for a repetition. -/
theorem mergeToolName_length {existing incoming : List Char} (hexisting : existing ≠ [])
    (hincoming : incoming ≠ []) :
    (mergeToolName existing incoming).length ≤ existing.length + incoming.length ∧
      ((mergeToolName existing incoming).length = existing.length + incoming.length →
        ¬ existing <+: incoming ∧ ¬ incoming <+: existing) := by
  have hleft := List.length_pos_iff.mpr hexisting
  have hright := List.length_pos_iff.mpr hincoming
  by_cases hlonger : existing <+: incoming
  · have hmerge : mergeToolName existing incoming = incoming := by
      simp [mergeToolName, List.isPrefixOf_iff_prefix.mpr hlonger]
    rw [hmerge]
    exact ⟨by omega, by omega⟩
  · by_cases hshorter : incoming <+: existing
    · have hmerge : mergeToolName existing incoming = existing := by
        have hnot : existing.isPrefixOf incoming = false := by
          rw [← Bool.not_eq_true, List.isPrefixOf_iff_prefix]
          exact hlonger
        simp [mergeToolName, hexisting, hnot, List.isPrefixOf_iff_prefix.mpr hshorter]
      rw [hmerge]
      exact ⟨by omega, by omega⟩
    · rw [mergeToolName_append hexisting hlonger hshorter, List.length_append]
      exact ⟨le_rfl, fun _ => ⟨hlonger, hshorter⟩⟩

theorem mem_mergeToolName {existing incoming : List Char} {c : Char}
    (h : c ∈ mergeToolName existing incoming) : c ∈ existing ∨ c ∈ incoming := by
  rw [mergeToolName] at h
  split_ifs at h
  · exact .inr h
  · exact .inl h
  · exact List.mem_append.mp h

theorem mergeToolName_ne_nil {existing incoming : List Char} (hincoming : incoming ≠ []) :
    mergeToolName existing incoming ≠ [] := by
  rw [mergeToolName]
  split_ifs with hlonger
  · exact hincoming
  · rintro rfl
    simp at hlonger
  · simp [hincoming]

/-- The names of the request, as the provider gets them. -/
structure Coding (k : Context) (names : List (List Char)) (codec : OpenAIToolNameCodec) :
    Prop where
  toolNames : k.toolNames = some codec
  buffersNames : k.buffersNames = true
  wellFormed : codec.WellFormed names

variable {codec : OpenAIToolNameCodec} {requested : List (List Char)}

theorem Waits.ne_nil {value : List Char} (h : Waits codec value) : value ≠ [] := by
  rintro rfl
  cases h.2

/-- What is read from a name, or held back of it. -/
theorem Coding.decodeStreamed (hcoding : Coding k requested codec) (fragment : List Char)
    (hbuffer : buffer ≠ none → codec.hasAliases = true) :
    (Waits codec (mergeToolName (buffer.getD []) fragment) →
      decodeStreamedToolName k fragment buffer
        = (none, some (mergeToolName (buffer.getD []) fragment))) ∧
    (¬ Waits codec (mergeToolName (buffer.getD []) fragment) →
      decodeStreamedToolName k fragment buffer
        = (some (codec.decode (mergeToolName (buffer.getD []) fragment)), none)) := by
  rw [decodeStreamedToolName, hcoding.toolNames]
  cases halias : codec.hasAliases with
  | false =>
    have hnone : buffer = none := by
      by_contra hsome
      rw [hbuffer hsome] at halias
      cases halias
    subst hnone
    have hnotAlias : codec.isAlias fragment = false := by
      cases his : codec.isAlias fragment with
      | false => rfl
      | true =>
        rw [hcoding.wellFormed.hasAliases_of_alias his] at halias
        cases halias
    constructor
    · intro hwaits
      rw [hcoding.wellFormed.hasAliases_of_prefix hwaits.2] at halias
      cases halias
    · intro _
      simp [halias, mergeToolName_nil, OpenAIToolNameCodec.decode_of_not_alias hnotAlias]
  | true =>
    simp only [halias, hcoding.buffersNames, Bool.not_true, Bool.false_eq_true, if_false]
    generalize mergeToolName (buffer.getD []) fragment = combined
    constructor
    · rintro ⟨hnotAlias, hbegins⟩
      simp [hnotAlias, hbegins]
    · intro hnot
      cases hisAlias : codec.isAlias combined with
      | true => simp
      | false =>
        have hnotPrefix : codec.isAliasPrefix combined = false := by
          cases hbegins : codec.isAliasPrefix combined with
          | false => rfl
          | true => exact absurd ⟨hisAlias, hbegins⟩ hnot
        simp [hnotPrefix]

/-- What a fragment does to a call without a name. -/
theorem Coding.nameStep (hcoding : Coding k requested codec) {fragment : List Char}
    (hfragment : fragment ≠ []) (hbuffer : buffer ≠ none → codec.hasAliases = true) :
    (Waits codec (mergeToolName (buffer.getD []) fragment) →
      View.nameStep k (some fragment) [] buffer
        = ([], some (mergeToolName (buffer.getD []) fragment))) ∧
    (¬ Waits codec (mergeToolName (buffer.getD []) fragment) →
      View.nameStep k (some fragment) [] buffer
        = (codec.decode (mergeToolName (buffer.getD []) fragment), none)) := by
  obtain ⟨hheld, hread⟩ := hcoding.decodeStreamed fragment hbuffer
  obtain ⟨c, cs, rfl⟩ := List.exists_cons_of_ne_nil hfragment
  rw [View.nameStep]
  constructor
  · intro hwaits
    rw [hheld hwaits]
    rfl
  · intro hnot
    rw [hread hnot]
    rfl

/-- After fragments that were put together to `value`. -/
def AfterName (codec : OpenAIToolNameCodec) (v : View) (value : List Char) : Prop :=
  (Waits codec value ∧ Pending v (some value) []) ∨
    (¬ Waits codec value ∧ Open v [stripped isSpace (codec.decode value)])

theorem Coding.fragment (hcoding : Coding k requested codec) (hpending : Pending v buffer [])
    {fragment : List Char} (hfragment : fragment ≠ []) (htc : tc.name = some fragment)
    (hbuffer : buffer ≠ none → codec.hasAliases = true)
    (hblank : ¬ Waits codec (mergeToolName (buffer.getD []) fragment) →
      isBlank (codec.decode (mergeToolName (buffer.getD []) fragment)) = false) :
    AfterName codec (v.processToolCall k tc) (mergeToolName (buffer.getD []) fragment) ∧
      (¬ Waits codec (mergeToolName (buffer.getD []) fragment) →
        (v.processToolCall k tc).nameBuffer = none) := by
  obtain ⟨hheld, hknown⟩ := hcoding.nameStep hfragment hbuffer
  by_cases hwaits : Waits codec (mergeToolName (buffer.getD []) fragment)
  · have hstep := hheld hwaits
    rw [← htc] at hstep
    exact ⟨.inl ⟨hwaits, hpending.wait hstep⟩, fun hnot => absurd hwaits hnot⟩
  · have hstep := hknown hwaits
    rw [← htc] at hstep
    obtain ⟨hopen, hnone⟩ := hpending.resolve tc hstep (hblank hwaits)
    rw [List.nil_append] at hopen
    exact ⟨.inr ⟨hwaits, hopen⟩, fun _ => hnone⟩

/-- Fragments that are held back at every cut are put together to the name. -/
theorem Coding.held (hcoding : Coding k requested codec) {rest : List (List Char)}
    {deltas : List ToolCallDelta} {before : List Char}
    (hnames : deltas.map ToolCallDelta.name = rest.map some)
    (hne : ∀ fragment ∈ rest, fragment ≠ []) (hheld : Held codec before rest)
    (hafter : AfterName codec v before) (hnone : ¬ Waits codec before → v.nameBuffer = none)
    (hblank : isBlank (codec.decode (before ++ rest.flatten)) = false) :
    AfterName codec (deltas.foldl (View.processToolCall k) v) (before ++ rest.flatten) ∧
      (¬ Waits codec (before ++ rest.flatten) →
        (deltas.foldl (View.processToolCall k) v).nameBuffer = none) := by
  induction rest generalizing before deltas v with
  | nil =>
    rw [List.map_nil, List.map_eq_nil_iff] at hnames
    subst hnames
    rw [List.flatten_nil, List.append_nil]
    exact ⟨hafter, hnone⟩
  | cons fragment rest ih =>
    obtain ⟨hwaits, hlonger, hshorter, hlater⟩ := hheld
    obtain ⟨_, hpending⟩ | ⟨hnot, _⟩ := hafter
    · cases deltas with
      | nil => simp at hnames
      | cons tc deltas =>
        rw [List.map_cons, List.map_cons, List.cons.injEq] at hnames
        have hmerge : mergeToolName ((some before).getD []) fragment = before ++ fragment :=
          mergeToolName_append hwaits.ne_nil hlonger hshorter
        rw [List.flatten_cons, ← List.append_assoc] at hblank ⊢
        have hnext := hcoding.fragment hpending (hne fragment List.mem_cons_self) hnames.1
          (fun _ => hcoding.wellFormed.hasAliases_of_prefix hwaits.2) (by
            rw [hmerge]
            intro hnot
            cases rest with
            | nil => simpa using hblank
            | cons other rest => exact absurd hlater.1 hnot)
        rw [hmerge] at hnext
        rw [List.foldl_cons]
        exact ih hnames.2 (fun f hf => hne f (List.mem_cons_of_mem _ hf)) hlater hnext.1 hnext.2
          hblank
    · exact absurd hwaits hnot

theorem Open.run {deltas : List ToolCallDelta} (h : Open v names) :
    Open (deltas.foldl (View.processToolCall k) v) names := by
  induction deltas generalizing v with
  | nil => exact h
  | cons tc deltas ih => exact ih h.step

/-- What any fragments are put together to: as much as all of them only when they are held back at
every cut. -/
theorem Coding.outcome (hcoding : Coding k requested codec) {rest : List (List Char)}
    {deltas : List ToolCallDelta} {before : List Char}
    (hnames : deltas.map ToolCallDelta.name = rest.map some)
    (hne : ∀ fragment ∈ rest, fragment ≠ []) (hbefore : before ≠ [])
    (hafter : AfterName codec v before)
    (hblank : ∀ value : List Char, value ≠ [] → (∀ c ∈ value, c ∈ before ∨ c ∈ rest.flatten) →
      isBlank (codec.decode value) = false) :
    ∃ value, value ≠ [] ∧ (∀ c ∈ value, c ∈ before ∨ c ∈ rest.flatten) ∧
      AfterName codec (deltas.foldl (View.processToolCall k) v) value ∧
      value.length ≤ before.length + rest.flatten.length ∧
      (value.length = before.length + rest.flatten.length → Held codec before rest) := by
  induction rest generalizing before deltas v with
  | nil =>
    rw [List.map_nil, List.map_eq_nil_iff] at hnames
    subst hnames
    exact ⟨before, hbefore, fun c hc => .inl hc, hafter, by simp, fun _ => trivial⟩
  | cons fragment rest ih =>
    have hfragment := hne fragment List.mem_cons_self
    have hpos := List.length_pos_iff.mpr hfragment
    have hlen : (fragment :: rest).flatten.length = fragment.length + rest.flatten.length := by
      rw [List.flatten_cons, List.length_append]
    obtain ⟨hwaits, hpending⟩ | ⟨hnot, hopen⟩ := hafter
    · cases deltas with
      | nil => simp at hnames
      | cons tc deltas =>
        rw [List.map_cons, List.map_cons, List.cons.injEq] at hnames
        have hchars : ∀ c ∈ mergeToolName before fragment,
            c ∈ before ∨ c ∈ (fragment :: rest).flatten := by
          intro c hc
          obtain hc | hc := mem_mergeToolName hc
          · exact .inl hc
          · exact .inr (by rw [List.flatten_cons]; exact List.mem_append_left _ hc)
        have hmergedNe := @mergeToolName_ne_nil before fragment hfragment
        have hnext := (hcoding.fragment hpending hfragment hnames.1
          (fun _ => hcoding.wellFormed.hasAliases_of_prefix hwaits.2)
          fun _ => hblank _ hmergedNe hchars).1
        obtain ⟨hle, hboth⟩ := mergeToolName_length hbefore hfragment
        have hsub : ∀ c, c ∈ mergeToolName before fragment ∨ c ∈ rest.flatten →
            c ∈ before ∨ c ∈ (fragment :: rest).flatten := by
          intro c hc
          obtain hc | hc := hc
          · exact hchars c hc
          · exact .inr (by rw [List.flatten_cons]; exact List.mem_append_right _ hc)
        obtain ⟨value, hvalue, hmem, hlast, hvalueLen, hall⟩ := ih hnames.2
          (fun f hf => hne f (List.mem_cons_of_mem _ hf)) hmergedNe hnext
          fun value hvalue hmem => hblank value hvalue fun c hc => hsub c (hmem c hc)
        refine ⟨value, hvalue, fun c hc => hsub c (hmem c hc), hlast, ?_, ?_⟩
        · omega
        · intro hwhole
          have hmerged : (mergeToolName before fragment).length
              = before.length + fragment.length := by omega
          obtain ⟨hlonger, hshorter⟩ := hboth hmerged
          refine ⟨hwaits, hlonger, hshorter, ?_⟩
          rw [← mergeToolName_append hbefore hlonger hshorter]
          exact hall (by omega)
    · refine ⟨before, hbefore, fun c hc => .inl hc, .inr ⟨hnot, hopen.run⟩, by omega, ?_⟩
      intro hwhole
      omega

/-! ### The end of the stream -/

theorem View.nameStep_nameless (name : List Char) :
    View.nameStep k none name buffer = (name, buffer) := rfl

theorem AfterName.later {value : List Char} (h : AfterName codec v value)
    {deltas : List ToolCallDelta} (hnames : ∀ tc ∈ deltas, tc.name = none) :
    AfterName codec (deltas.foldl (View.processToolCall k) v) value := by
  induction deltas generalizing v with
  | nil => exact h
  | cons tc deltas ih =>
    rw [List.foldl_cons]
    apply ih _ fun t ht => hnames t (List.mem_cons_of_mem _ ht)
    obtain ⟨hwaits, hpending⟩ | ⟨hnot, hopen⟩ := h
    · refine .inl ⟨hwaits, hpending.wait ?_⟩
      rw [hnames tc List.mem_cons_self]
      exact View.nameStep_nameless _
    · exact .inr ⟨hnot, hopen.step⟩

theorem Open.nameBuffer_later (h : Open v names) (hnone : v.nameBuffer = none)
    {deltas : List ToolCallDelta} (hnames : ∀ tc ∈ deltas, tc.name = none) :
    (deltas.foldl (View.processToolCall k) v).nameBuffer = none := by
  induction deltas generalizing v with
  | nil => exact hnone
  | cons tc deltas ih =>
    rw [List.foldl_cons]
    apply ih (h.step) _ fun t ht => hnames t (List.mem_cons_of_mem _ ht)
    obtain ⟨u, hnamed, hprocess⟩ := View.processToolCall_started (k := k) tc h.started
    rw [hprocess, (View.emitToolArgDelta_sends _).nameBuffer, hnamed.nameBuffer,
      hnames tc List.mem_cons_self]
    exact hnone

namespace Stream

variable {s : Stream} {i : Nat} {value : List Char}

theorem Only.finish_none (honly : Only i s) (hnone : (s.view i).nameBuffer = none) :
    (s.finish k).map (fun t => startNames t.events) = some (startNames s.events) := by
  have hentries := honly.entries
  rw [hnone] at hentries
  have hfinish : ∃ t, s.finish k = some t := by
    rw [finish, Dict.values, hentries]
    exact ⟨_, rfl⟩
  obtain ⟨t, ht⟩ := hfinish
  rw [ht, Option.map_some, startNames_finish ht, flushToolNameBuffers, hentries]
  rfl

theorem Only.finish_some (honly : Only i s) (hsome : (s.view i).nameBuffer = some value)
    (hk : k.toolNames = some codec) :
    (s.finish k).map (fun t => startNames t.events) = if codec.isUnchangedName value then
      some (startNames (s.flushName k (i, value)).events) else none := by
  have hentries := honly.entries
  rw [hsome] at hentries
  cases hunchanged : codec.isUnchangedName value with
  | true =>
    have hfinish : ∃ t, s.finish k = some t := by
      rw [finish, Dict.values, hentries, hk]
      simp [hunchanged]
    obtain ⟨t, ht⟩ := hfinish
    rw [ht, Option.map_some, startNames_finish ht, flushToolNameBuffers, hentries, if_pos rfl]
    rfl
  | false =>
    rw [finish, Dict.values, hentries, hk]
    simp [hunchanged]

theorem flushName_events :
    (s.flushName k (i, value)).events
      = (({ s.view i with nameBuffer := none } : View).processToolCall
        { k with buffersNames := false } ⟨i, none, some value, [], none⟩).events := by
  have hview : ({ s with toolNameBuffers := s.toolNameBuffers.erase i } : Stream).view i
      = { s.view i with nameBuffer := none } := by
    rw [view, Dict.get?_erase_self]
    rfl
  rw [flushName, processToolCall, put]
  dsimp only
  rw [hview]

end Stream

/-- A name that was held back to the end is taken as it is. -/
theorem Coding.flushed (hcoding : Coding k requested codec) {value : List Char} {i : Nat}
    (hwaits : Waits codec value) (hpending : Pending v (some value) [])
    (hblank : isBlank (codec.decode value) = false) :
    startNames (({ v with nameBuffer := none } : View).processToolCall
        { k with buffersNames := false } ⟨i, none, some value, [], none⟩).events
      = [stripped isSpace (codec.decode value)] := by
  have hempty : Pending { v with nameBuffer := none } none [] :=
    ⟨hpending.started, hpending.name, rfl, hpending.names⟩
  have hstep : View.nameStep { k with buffersNames := false } (some value) [] none
      = (codec.decode value, none) := by
    obtain ⟨c, cs, rfl⟩ := List.exists_cons_of_ne_nil hwaits.ne_nil
    simp [View.nameStep, decodeStreamedToolName, hcoding.toolNames, mergeToolName_nil,
      hcoding.wellFormed.hasAliases_of_prefix hwaits.2]
  have hresolved := hempty.resolve ⟨i, none, some value, [], none⟩ hstep hblank
  exact hresolved.1.names

/-- The blocks of a stream whose fragments were put together to `value`. -/
theorem Coding.finished (hcoding : Coding k requested codec) {s : Stream} {i : Nat}
    {value : List Char} (honly : Stream.Only i s) (hafter : AfterName codec (s.view i) value)
    (hblank : isBlank (codec.decode value) = false) {names : List (List Char)}
    (h : (s.finish k).map (fun t => startNames t.events) = some names) :
    names = [stripped isSpace (codec.decode value)] := by
  obtain ⟨hwaits, hpending⟩ | ⟨hnot, hopen⟩ := hafter
  · rw [honly.finish_some hpending.nameBuffer hcoding.toolNames] at h
    split_ifs at h
    rw [Stream.flushName_events, hcoding.flushed hwaits hpending hblank] at h
    exact (Option.some.inj h).symm
  · cases hbuffer : (s.view i).nameBuffer with
    | none =>
      rw [honly.finish_none hbuffer] at h
      exact (Option.some.inj h).symm.trans hopen.names
    | some held =>
      rw [honly.finish_some hbuffer hcoding.toolNames] at h
      split_ifs at h
      have hlast : Open { s.view i with nameBuffer := none }
          [stripped isSpace (codec.decode value)] := ⟨hopen.started, hopen.names⟩
      rw [Stream.flushName_events, hlast.step.names] at h
      exact (Option.some.inj h).symm

/-- A name of the wire that was put together gets its block. -/
theorem Coding.finishes (hcoding : Coding k requested codec) {s : Stream} {i : Nat}
    {wire : List Char} (honly : Stream.Only i s) (hafter : AfterName codec (s.view i) wire)
    (hwire : codec.IsWireName wire) (hblank : isBlank (codec.decode wire) = false)
    (hnone : ¬ Waits codec wire → (s.view i).nameBuffer = none) :
    (s.finish k).map (fun t => startNames t.events)
      = some [stripped isSpace (codec.decode wire)] := by
  obtain ⟨hwaits, hpending⟩ | ⟨hnot, hopen⟩ := hafter
  · have hunchanged : codec.isUnchangedName wire = true := by
      obtain hunchanged | halias := hwire
      · exact hunchanged
      · rw [hwaits.1] at halias
        cases halias
    rw [honly.finish_some hpending.nameBuffer hcoding.toolNames, if_pos hunchanged,
      Stream.flushName_events, hcoding.flushed hwaits hpending hblank]
  · rw [honly.finish_none (hnone hnot)]
    exact congrArg some hopen.names

/-! ### Whole names -/

/-- A name without spaces around it. -/
def Trimmed (name : List Char) : Prop := stripped isSpace name = name ∧ name ≠ []

theorem Trimmed.not_blank {name : List Char} (h : Trimmed name) : isBlank name = false := by
  rw [isBlank, h.1]
  simpa using h.2

theorem pending_new (nextIndex i : Nat) : Pending ((Stream.new nextIndex).view i) none [] :=
  ⟨rfl, rfl, rfl, rfl⟩

theorem only_new (nextIndex i : Nat) : Stream.Only i (Stream.new nextIndex) := fun _ _ => rfl

/-- What the fragments of a name come to, if no part of it is blank. -/
theorem Coding.fragments (hcoding : Coding k requested codec) {first : List Char}
    {rest : List (List Char)} {deltas later : List ToolCallDelta} {i : Nat} (nextIndex : Nat)
    (hne : ∀ fragment ∈ first :: rest, fragment ≠ [])
    (hdeltas : NameDeltas i (first :: rest) deltas) (hlater : Nameless i later) :
    (Held codec first rest → isBlank (codec.decode (first :: rest).flatten) = false →
      codec.IsWireName (first :: rest).flatten →
      startedNames k nextIndex (deltas ++ later)
        = some [stripped isSpace (codec.decode (first :: rest).flatten)]) ∧
    ((∀ value : List Char, value ≠ [] → (∀ c ∈ value, c ∈ (first :: rest).flatten) →
        isBlank (codec.decode value) = false) →
      ∀ names, startedNames k nextIndex (deltas ++ later) = some names →
      ∃ value, value ≠ [] ∧ (∀ c ∈ value, c ∈ (first :: rest).flatten) ∧
        names = [stripped isSpace (codec.decode value)] ∧
        value.length ≤ (first :: rest).flatten.length ∧
        (value.length = (first :: rest).flatten.length → Held codec first rest)) := by
  have hindex : ∀ tc ∈ deltas ++ later, tc.index = i := by
    intro tc htc
    obtain htc | htc := List.mem_append.mp htc
    · exact hdeltas.index tc htc
    · exact (hlater tc htc).1
  have honly := (only_new nextIndex i).foldl (k := k) hindex
  have hview := Stream.view_foldl (k := k) hindex (Stream.new nextIndex)
  have hnameless : ∀ tc ∈ later, tc.name = none := fun tc htc => (hlater tc htc).2
  have hfirst := hne first List.mem_cons_self
  have hrest : ∀ fragment ∈ rest, fragment ≠ [] := fun f hf => hne f (List.mem_cons_of_mem _ hf)
  have hnames := hdeltas.names
  cases deltas with
  | nil => simp at hnames
  | cons tc deltas =>
    rw [List.map_cons, List.map_cons, List.cons.injEq] at hnames
    have hstart := fun hblank => hcoding.fragment (pending_new nextIndex i) hfirst hnames.1
      (fun hsome => absurd rfl hsome) hblank
    simp only [Option.getD_none, mergeToolName_nil] at hstart
    rw [List.flatten_cons]
    constructor
    · intro hheld hblank hwire
      have hone := hstart fun hnot => by
        cases rest with
        | nil => simpa using hblank
        | cons other rest => exact absurd hheld.1 hnot
      obtain ⟨hafter, hnone⟩ := hcoding.held hnames.2 hrest hheld hone.1 hone.2 hblank
      apply hcoding.finishes honly _ hwire hblank
      · intro hnot
        rw [hview, List.foldl_append]
        obtain ⟨hwaits, _⟩ | ⟨_, hopen⟩ := hafter
        · exact absurd hwaits hnot
        · exact hopen.nameBuffer_later (hnone hnot) hnameless
      · rw [hview, List.foldl_append]
        exact hafter.later hnameless
    · intro hblank names hfinish
      have hone := hstart fun _ => hblank first hfirst fun c hc => List.mem_append_left _ hc
      obtain ⟨value, hvalue, hmem, hafter, hle, hall⟩ :=
        hcoding.outcome hnames.2 hrest hfirst hone.1 fun value hvalue hmem => hblank value hvalue fun c hc => List.mem_append.mpr (hmem c hc)
      have hchars : ∀ c ∈ value, c ∈ first ++ rest.flatten := fun c hc =>
        List.mem_append.mpr (hmem c hc)
      refine ⟨value, hvalue, hchars, ?_, by rwa [List.length_append], ?_⟩
      · apply hcoding.finished honly _ (hblank value hvalue hchars) hfinish
        rw [hview, List.foldl_append]
        exact hafter.later hnameless
      · rw [List.length_append]
        exact hall

theorem Coding.not_blank (hcoding : Coding k requested codec)
    (htrimmed : ∀ name ∈ requested, stripped isSpace name = name) {value : List Char}
    (hvalue : value ≠ []) (hchars : ∀ c ∈ value, portableChar c = true) :
    Trimmed (codec.decode value) := by
  cases halias : codec.isAlias value with
  | true =>
    obtain ⟨name, hname⟩ := OpenAIToolNameCodec.isAlias_iff.mp halias
    have hdecode : codec.decode value = name := by
      rw [OpenAIToolNameCodec.decode, hname]
      rfl
    obtain ⟨hmem, hne, _⟩ := hcoding.wellFormed.original hname
    rw [hdecode]
    exact ⟨htrimmed name hmem, hne⟩
  | false =>
    rw [OpenAIToolNameCodec.decode_of_not_alias halias]
    exact ⟨stripped_of_portable hchars, hvalue⟩

/-- When a name that arrives in fragments is the name of its block: it is enough that the decoded
name has no spaces around it and that the fragments are held back at every cut. For requests whose
names have no spaces around them it is also necessary. -/
theorem tool_name_reassembled {sha256 : List Char → List (Fin 16)} {fuel : Nat}
    (hcodec : OpenAIToolNameCodec.fromNames sha256 fuel requested = some codec)
    (hk : k.toolNames = some codec ∧ k.buffersNames = true) {first : List Char}
    {rest : List (List Char)} (hne : ∀ fragment ∈ first :: rest, fragment ≠ [])
    (hwire : codec.IsWireName (first :: rest).flatten) {i nextIndex : Nat}
    {deltas later : List ToolCallDelta} (hdeltas : NameDeltas i (first :: rest) deltas)
    (hlater : Nameless i later) :
    (Trimmed (codec.decode (first :: rest).flatten) ∧ Held codec first rest →
      startedNames k nextIndex (deltas ++ later)
          = some [codec.decode (first :: rest).flatten] ∧
        ∀ whole, NameDeltas i [(first :: rest).flatten] whole →
          startedNames k nextIndex (whole ++ later)
            = startedNames k nextIndex (deltas ++ later)) ∧
    ((∀ name ∈ requested, stripped isSpace name = name) →
      startedNames k nextIndex (deltas ++ later)
          = some [codec.decode (first :: rest).flatten] →
      Trimmed (codec.decode (first :: rest).flatten) ∧ Held codec first rest) := by
  have hwf := OpenAIToolNameCodec.wellFormed_fromNames sha256 hcodec
  have hcoding : Coding k requested codec := ⟨hk.1, hk.2, hwf⟩
  have hwhole := hcoding.fragments nextIndex hne hdeltas hlater
  have hwireNe : (first :: rest).flatten ≠ [] := by
    rw [List.flatten_cons]
    exact fun hempty => hne first List.mem_cons_self (List.append_eq_nil_iff.mp hempty).1
  have hportable := hwf.portable_wire hwire
  constructor
  · rintro ⟨htrimmed, hheld⟩
    have hnames := hwhole.1 hheld htrimmed.not_blank hwire
    rw [htrimmed.1] at hnames
    refine ⟨hnames, ?_⟩
    intro whole hwholeDeltas
    have hone := (hcoding.fragments nextIndex (by simpa using hwireNe)
      hwholeDeltas hlater).1 trivial (by simpa using htrimmed.not_blank) (by simpa using hwire)
    rw [hone, hnames, List.flatten_singleton, htrimmed.1]
  · intro hrequested hnames
    have hchars : ∀ c ∈ (first :: rest).flatten, portableChar c = true := by
      rw [isPortable, Bool.and_eq_true, List.all_eq_true] at hportable
      exact hportable.2
    have htrimmed : ∀ value : List Char, value ≠ [] → (∀ c ∈ value, c ∈ (first :: rest).flatten) →
        Trimmed (codec.decode value) := fun value hvalue hmem =>
      hcoding.not_blank hrequested hvalue fun c hc => hchars c (hmem c hc)
    have hself := htrimmed _ hwireNe fun c hc => hc
    obtain ⟨value, hvalue, hmem, hvalueName, hle, hall⟩ :=
      hwhole.2 (fun value hvalue hmem => (htrimmed value hvalue hmem).not_blank) _ hnames
    rw [(htrimmed value hvalue hmem).1, List.cons.injEq] at hvalueName
    have hvaluePortable : isPortable value = true := by
      have hpos := List.length_pos_iff.mpr hvalue
      simp only [isPortable, Bool.and_eq_true, decide_eq_true_eq, List.all_eq_true] at hportable ⊢
      exact ⟨by omega, fun c hc => hchars c (hmem c hc)⟩
    have hsame := hwf.decode_injective hwire hvaluePortable hvalueName.1.symm
    exact ⟨hself, hall (by rw [hsame])⟩

/-! ### A name that is cut -/

def readTool : List Char := ['R', 'e', 'a', 'd']

def readCodec : OpenAIToolNameCodec := ⟨.empty, .empty, [readTool]⟩

theorem fromNames_readTool :
    OpenAIToolNameCodec.fromNames (fun _ => []) 0 [readTool] = some readCodec := rfl

def readContext : Context :=
  ⟨⟨fun _ => none, fun _ => []⟩, fun _ => [], some readCodec, true, .empty⟩

def cutDeltas : List ToolCallDelta :=
  [⟨0, some ['c'], some ['R', 'e'], [], none⟩, ⟨0, none, some ['a', 'd'], [], none⟩]

theorem cutDeltas_names : NameDeltas 0 [['R', 'e'], ['a', 'd']] cutDeltas :=
  ⟨by simp [cutDeltas], rfl⟩

/-- The block is started with the first fragment. -/
theorem cut_name_lost :
    ¬ ∀ (sha256 : List Char → List (Fin 16)) (fuel : Nat) (requested : List (List Char))
      (codec : OpenAIToolNameCodec) (k : Context) (fragments : List (List Char))
      (i nextIndex : Nat) (deltas later : List ToolCallDelta),
      OpenAIToolNameCodec.fromNames sha256 fuel requested = some codec →
      k.toolNames = some codec ∧ k.buffersNames = true →
      (∀ fragment ∈ fragments, fragment ≠ []) → codec.IsWireName fragments.flatten →
      NameDeltas i fragments deltas → Nameless i later →
      startedNames k nextIndex (deltas ++ later) = some [codec.decode fragments.flatten] := by
  intro hnames
  have hcut := hnames (fun _ => []) 0 [readTool] readCodec readContext [['R', 'e'], ['a', 'd']] 0 0
    cutDeltas [] fromNames_readTool ⟨rfl, rfl⟩ (by decide) (.inl (by decide)) cutDeltas_names
    (fun _ hnone => nomatch hnone)
  have hfirst : startedNames readContext 0 (cutDeltas ++ []) = some [['R', 'e']] := by decide
  rw [hfirst] at hcut
  exact absurd hcut (by decide)

theorem tool_name_reassembled_sample :
    (Trimmed (readCodec.decode [['R', 'e'], ['a', 'd']].flatten) ∧
        Held readCodec ['R', 'e'] [['a', 'd']] →
      startedNames readContext 0 (cutDeltas ++ [])
          = some [readCodec.decode [['R', 'e'], ['a', 'd']].flatten] ∧
        ∀ whole, NameDeltas 0 [[['R', 'e'], ['a', 'd']].flatten] whole →
          startedNames readContext 0 (whole ++ [])
            = startedNames readContext 0 (cutDeltas ++ [])) ∧
    ((∀ name ∈ [readTool], stripped isSpace name = name) →
      startedNames readContext 0 (cutDeltas ++ [])
          = some [readCodec.decode [['R', 'e'], ['a', 'd']].flatten] →
      Trimmed (readCodec.decode [['R', 'e'], ['a', 'd']].flatten) ∧
        Held readCodec ['R', 'e'] [['a', 'd']]) :=
  tool_name_reassembled fromNames_readTool ⟨rfl, rfl⟩ (by decide) (.inl (by decide))
    cutDeltas_names (fun _ hnone => nomatch hnone)

end Switchboard.Providers.ToolCalls
