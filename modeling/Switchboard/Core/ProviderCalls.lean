import Mathlib
import Switchboard.Core.LedgerDiscipline
import Switchboard.Core.LedgerReads
import Switchboard.Core.ProviderStream
import Switchboard.Library.Except

/-!
# Tool calls of a Responses stream

What the stream does for one call, as steps on the ledger and the state of the call. A delta that
comes after the call was stopped is late.
-/

namespace Switchboard.Core.ProviderStream

open AnthropicStream
open AnthropicStreamLedger (Sound Gone Step Silent silent_own)
open Relation

/-! ## Steps -/

/-- States of a call that the ledger does not tell apart. -/
structure SameCall (t t' : ToolState) : Prop where
  toolIndex : t'.toolIndex = t.toolIndex
  started : t'.started = t.started
  stopped : t'.stopped = t.stopped

/-- Steps of a call; an argument text may be replaced only if it is `changed`. -/
inductive CallStep (late changed : Prop) :
    AnthropicStreamLedger × ToolState → AnthropicStreamLedger × ToolState → Prop
  | close (l : AnthropicStreamLedger) (t : ToolState) :
      CallStep late changed (l, t) (l.closeContentBlocks, t)
  | start (l : AnthropicStreamLedger) (t : ToolState) (hwaiting : t.started = false) :
      CallStep late changed (l, t)
        (l.startToolBlock t.toolIndex t.callId.toList t.name.toList none, t.begun)
  | send {l l' : AnthropicStreamLedger} {t t' : ToolState} {text : String}
      (hstarted : t.started = true) (hlate : t.stopped = true → late)
      (hsend : l.emitToolDelta t.toolIndex text = some l') (hsame : SameCall t t')
      (harguments : t'.arguments = t.arguments ++ text) : CallStep late changed (l, t) (l', t')
  | stop {l l' : AnthropicStreamLedger} {t : ToolState} (hstarted : t.started = true)
      (hrunning : t.stopped = false) (hstop : l.stopToolBlock t.toolIndex = some l') :
      CallStep late changed (l, t) (l'.releaseTool t.toolIndex, { t with stopped := true })
  | edit (l : AnthropicStreamLedger) {t t' : ToolState} (hsame : SameCall t t')
      (harguments : t'.arguments = t.arguments ∨ changed) : CallStep late changed (l, t) (l, t')

abbrev CallSteps (late changed : Prop) := ReflTransGen (CallStep late changed)

variable {late changed : Prop} {l l' : AnthropicStreamLedger} {t t' : ToolState}

theorem steps_startToolBlock (k : ℕ) (toolId name : List Char) (extraContent : Option Json) :
    ReflTransGen (Step Silent) l (l.startToolBlock k toolId name extraContent) :=
  .tail (.single (.withBlocks _)) (.start _ (silent_own.tool toolId name extraContent))

/-- The steps of a call are steps of the ledger. -/
theorem CallStep.steps {x y : AnthropicStreamLedger × ToolState} (h : CallStep late changed x y) :
    ReflTransGen (Step Silent) x.1 y.1 := by
  cases h with
  | close => exact AnthropicStreamLedger.steps_closeContentBlocks
  | start => exact steps_startToolBlock ..
  | @send l l' t t' text _ _ hsend =>
    obtain ⟨tool, -, rfl⟩ := Option.map_eq_some_iff.mp hsend
    exact .single (.delta _ _ _)
  | @stop l l' t _ _ hstop =>
    obtain ⟨tool, -, rfl⟩ := Option.map_eq_some_iff.mp hstop
    exact .tail (.single (.stop _)) (.withBlocks _)
  | edit => exact .refl

theorem CallSteps.steps {x y : AnthropicStreamLedger × ToolState}
    (h : CallSteps late changed x y) : ReflTransGen (Step Silent) x.1 y.1 := by
  induction h with
  | refl => exact .refl
  | tail _ hlast ih => exact ih.trans hlast.steps

theorem CallSteps.toolIndex {x y : AnthropicStreamLedger × ToolState}
    (h : CallSteps late changed x y) : y.2.toolIndex = x.2.toolIndex := by
  induction h with
  | refl => rfl
  | tail _ hlast ih =>
    rw [← ih]
    cases hlast with
    | close => rfl
    | start => rfl
    | send _ _ _ hsame => exact hsame.toolIndex
    | stop => rfl
    | edit _ hsame => exact hsame.toolIndex

/-! ## What the ledger knows of a call -/

/-- The ledger has the call just if it was started, and open just if it was not stopped. -/
structure Linked (l : AnthropicStreamLedger) (t : ToolState) : Prop where
  waiting : t.started = false → l.blocks.toolStates.get? t.toolIndex = none ∧ t.stopped = false
  running : t.started = true → ∃ tool, l.blocks.toolStates.get? t.toolIndex = some tool ∧
    tool.started = !t.stopped ∧ (t.stopped = true → l.Gone tool.blockIndex)

theorem Linked.congr (h : Linked l t) (hsame : SameCall t t')
    (hget : l'.blocks.toolStates.get? t.toolIndex = l.blocks.toolStates.get? t.toolIndex)
    (hsent : l.sent <+: l'.sent) : Linked l' t' := by
  refine ⟨fun hstarted => ?_, fun hstarted => ?_⟩
  · rw [hsame.started] at hstarted
    rw [hsame.toolIndex, hsame.stopped, hget]
    exact h.waiting hstarted
  · rw [hsame.started] at hstarted
    obtain ⟨tool, htool, hopen, hgone⟩ := h.running hstarted
    refine ⟨tool, ?_, ?_, ?_⟩
    · rw [hsame.toolIndex, hget, htool]
    · rw [hsame.stopped, hopen]
    · rw [hsame.stopped]
      exact fun hstopped => (hgone hstopped).grows hsent

/-- What a step of a call keeps, and that it leaves other calls alone. -/
structure Kept (x y : AnthropicStreamLedger × ToolState) : Prop where
  sound : y.1.Sound
  linked : Linked y.1 y.2
  other : ∀ k, k ≠ x.2.toolIndex → y.1.blocks.toolStates.get? k = x.1.blocks.toolStates.get? k

theorem CallStep.keeps {x y : AnthropicStreamLedger × ToolState} (h : CallStep False changed x y)
    (hsound : x.1.Sound) (hlinked : Linked x.1 x.2) : Kept x y := by
  have hgrows := AnthropicStreamLedger.grows_of_steps h.steps
  cases h with
  | close l t =>
    obtain ⟨hclosed, hblocks⟩ := hsound.closeContentBlocks
    have hget (k : ℕ) : l.closeContentBlocks.blocks.toolStates.get? k =
        l.blocks.toolStates.get? k := by rw [hblocks]
    exact ⟨hclosed, hlinked.congr ⟨rfl, rfl, rfl⟩ (hget _) hgrows, fun k _ => hget k⟩
  | start l t hwaiting =>
    obtain ⟨hnone, hrunning⟩ := hlinked.waiting hwaiting
    have hfree : l.ToolFree t.toolIndex := by
      intro tool htool
      rw [hnone] at htool
      cases htool
    set tool := l.startedTool t.toolIndex t.callId.toList t.name.toList none with htool
    have hget (k : ℕ) : (l.startToolBlock t.toolIndex t.callId.toList t.name.toList none
        ).blocks.toolStates.get? k =
          if k = t.toolIndex then some tool else l.blocks.toolStates.get? k := by
      rw [AnthropicStreamLedger.startToolBlock_blocks]
      exact Dict.get?_set ..
    refine ⟨hsound.startToolBlock hfree _ _ _, ⟨fun hstarted => ?_, fun _ => ?_⟩, fun k hk => ?_⟩
    · cases hstarted
    · refine ⟨tool, (hget _).trans (if_pos rfl), ?_, fun hstopped => ?_⟩
      · rw [htool, AnthropicStreamLedger.startedTool_started]
        exact (congrArg (!·) hrunning).symm
      · exact absurd (hrunning.symm.trans hstopped) (by decide)
    · exact (hget k).trans (if_neg hk)
  | @send l l' t t' text hstarted hlate hsend hsame =>
    obtain ⟨tool, htool, hopen, -⟩ := hlinked.running hstarted
    have hrunning : t.stopped = false := Bool.eq_false_iff.mpr fun hstopped => hlate hstopped
    rw [hrunning] at hopen
    obtain ⟨hdelta, hblocks⟩ := hsound.emitToolDelta htool hopen hsend
    have hget (k : ℕ) : l'.blocks.toolStates.get? k = l.blocks.toolStates.get? k := by rw [hblocks]
    exact ⟨hdelta, hlinked.congr hsame (hget _) hgrows, fun k _ => hget k⟩
  | @stop l l' t hstarted hrunning hstop =>
    obtain ⟨tool, htool, hopen, -⟩ := hlinked.running hstarted
    rw [hrunning] at hopen
    obtain ⟨hstopped, hblocks⟩ := hsound.stopToolBlock htool hopen hstop
    have hget (k : ℕ) : (l'.releaseTool t.toolIndex).blocks.toolStates.get? k =
        if k = t.toolIndex then some { tool with started := false }
        else l.blocks.toolStates.get? k := by
      rw [hblocks, AnthropicStreamLedger.releaseTool, Dict.get?_modify, htool, Option.map_some]
    refine ⟨hstopped, ⟨fun hwaiting => ?_, fun _ => ?_⟩, fun k hk => ?_⟩
    · exact absurd (hstarted.symm.trans hwaiting) (by decide)
    · refine ⟨_, (hget _).trans (if_pos rfl), rfl, fun _ c hc => ?_⟩
      rw [AnthropicStreamLedger.stopToolBlock, htool] at hstop
      cases hstop
      have hsent : (AnthropicStreamLedger.contentBlockStop l tool.blockIndex).sent =
        l.sent ++ [stopEvent tool.blockIndex] := AnthropicStreamLedger.contentBlockStop_sent ..
      have hwatch : checkEvents false (l.sent ++ [stopEvent tool.blockIndex]) = .ok c := hsent ▸ hc
      obtain ⟨c₀, hc₀, hcheck⟩ := Monitor.watch_concat_ok.mp hwatch
      obtain ⟨-, rfl⟩ := checkEvent_stop.mp hcheck
      obtain ⟨htidy, c₁, hallowed⟩ := hsound
      cases hallowed.checks.symm.trans hc₀
      have hopenAt := (htidy.open_iff tool.blockIndex "tool_use").mpr
        (Or.inr (Or.inr ⟨rfl, t.toolIndex, tool, htool, hopen, rfl⟩))
      obtain ⟨state, hstate, -⟩ := hopenAt
      exact ⟨(hallowed.tracks.seen _).mpr ⟨state, hstate⟩, Dict.get?_erase_self ..⟩
    · exact (hget k).trans (if_neg hk)
  | edit l hsame => exact ⟨hsound, hlinked.congr hsame rfl hgrows, fun _ _ => rfl⟩

theorem CallSteps.keeps {x y : AnthropicStreamLedger × ToolState} (h : CallSteps False changed x y)
    (hsound : x.1.Sound) (hlinked : Linked x.1 x.2) : Kept x y := by
  induction h with
  | refl => exact ⟨hsound, hlinked, fun _ _ => rfl⟩
  | tail hsteps hlast ih =>
    have hkept := hlast.keeps ih.sound ih.linked
    refine ⟨hkept.sound, hkept.linked, fun k hk => ?_⟩
    rw [hkept.other k (by rwa [CallSteps.toolIndex hsteps]), ih.other k hk]

/-! ## What the stream does for a call -/

/-- Some arguments were sent. -/
def ToolState.Answered (t : ToolState) : Prop :=
  t.receivedDelta = true ∨ t.argumentsEmitted = true

/-- The state of a call whose arguments are valid. -/
def ToolState.validated (t : ToolState) : ToolState :=
  { t with argumentsComplete := true, validArguments := true }

/-- What the stream knows of a call after each event. -/
structure Settled (t : ToolState) : Prop where
  started : t.Answered → t.started = true
  arguments : t.arguments ≠ "" → t.Answered
  stopped : t.stopped = true → t.Answered

variable {ext : Externals} {s s' : ResponsesProviderStream}

/-- What one event does for a call: it changes the ledger and the state of the call. -/
structure Serves (late changed : Prop) (s : ResponsesProviderStream) (t : ToolState)
    (s' : ResponsesProviderStream) (t' : ToolState) : Prop where
  steps : CallSteps late changed (s.ledger, t) (s'.ledger, t')
  settled : Settled t'
  frame : s' = { s with ledger := s'.ledger, generatedOutput := s'.generatedOutput }

/-- Flags of a call that was answered. -/
theorem Serves.edit {b b' : ToolState} (h : Serves late changed s t s' b) (hsame : SameCall b b')
    (hstarted : b.started = true) (hanswered : b'.Answered)
    (harguments : b'.arguments = b.arguments ∨ changed) : Serves late changed s t s' b' :=
  ⟨.tail h.steps (.edit _ hsame harguments),
    ⟨fun _ => hsame.started.trans hstarted, fun _ => hanswered, fun _ => hanswered⟩, h.frame⟩

namespace ResponsesProviderStream

theorem begun_of_started (h : t.started = true) : t.begun = t := by
  cases t
  cases h
  rfl

theorem steps_begin (s : ResponsesProviderStream) (t : ToolState) :
    CallSteps late changed (s.ledger, t)
      ((s.closeContentBlocks.ensureToolStarted t).ledger, t.begun) := by
  unfold ensureToolStarted
  cases hstarted : t.started with
  | true =>
    rw [begun_of_started hstarted]
    exact .single (.close _ _)
  | false => exact .tail (.single (.close _ _)) (.start _ _ hstarted)

theorem frame_begin (s : ResponsesProviderStream) (t : ToolState) :
    s.closeContentBlocks.ensureToolStarted t =
      { s with
        ledger := (s.closeContentBlocks.ensureToolStarted t).ledger
        generatedOutput := (s.closeContentBlocks.ensureToolStarted t).generatedOutput } := by
  unfold ensureToolStarted
  split_ifs <;> rfl

theorem emitToolDelta_eq_ok {text : String} (h : s.emitToolDelta t text = .ok s') :
    s.ledger.emitToolDelta t.toolIndex text = some s'.ledger ∧
      s' = { s with ledger := s'.ledger, generatedOutput := s'.generatedOutput } := by
  unfold emitToolDelta at h
  split at h
  · next hdelta =>
    cases h
    exact ⟨hdelta, rfl⟩
  · cases h

theorem stopTool_eq_ok (h : s.stopTool t = .ok s') :
    (∃ ledger, s.ledger.stopToolBlock t.toolIndex = some ledger ∧
      s'.ledger = ledger.releaseTool t.toolIndex) ∧
      s' = { s with ledger := s'.ledger, generatedOutput := s'.generatedOutput } := by
  unfold stopTool at h
  split at h
  · next ledger hstop =>
    cases h
    exact ⟨⟨ledger, hstop, rfl⟩, rfl⟩
  · cases h

theorem validateToolArguments_eq_ok : validateToolArguments ext t = .ok t' ↔
    t.arguments ≠ "" ∧ (∃ fields, ext.loads t.arguments = some (.obj fields)) ∧
      t' = t.validated := by
  unfold validateToolArguments
  split_ifs with hempty
  · simp [hempty]
  · split
    · next fields hloads => simp [hempty, hloads, ToolState.validated, eq_comm]
    · next value hnot hloads => simpa [hempty, hloads] using fun fields h => absurd h (hnot fields)
    · next hloads => simp [hloads]

theorem arguments_eq_of_parts {parts : List String} (h : t.argumentParts = some parts) :
    t.arguments = String.join parts := by
  rw [ToolState.arguments, h, Option.getD_some]

theorem frame_trans {m : ResponsesProviderStream}
    (hfirst : m = { s with ledger := m.ledger, generatedOutput := m.generatedOutput })
    (hthen : s' = { m with ledger := s'.ledger, generatedOutput := s'.generatedOutput }) :
    s' = { s with ledger := s'.ledger, generatedOutput := s'.generatedOutput } :=
  hthen.trans <| congrArg (fun x : ResponsesProviderStream =>
    { x with ledger := s'.ledger, generatedOutput := s'.generatedOutput }) hfirst

/-- Deltas are late for a call that was stopped. -/
theorem toolDeltaState_serves {delta : String} (hsettled : Settled t)
    (h : s.toolDeltaState t delta = .ok (s', t')) :
    Serves (t.stopped = true ∧ delta ≠ "") False s t s' t' := by
  unfold toolDeltaState at h
  dsimp only at h
  split_ifs at h with hsize hdelta
  · cases h
    exact ⟨.tail (steps_begin s t) (.edit _ ⟨rfl, rfl, rfl⟩ (Or.inl rfl)),
      ⟨fun _ => rfl, hsettled.arguments, hsettled.stopped⟩, frame_begin s t⟩
  · obtain ⟨m, hemit, hmade⟩ := bind_eq_ok.mp h
    cases hmade
    obtain ⟨hsend, hframe⟩ := emitToolDelta_eq_ok hemit
    refine ⟨.tail (steps_begin s t) ?_, ?_, frame_trans (frame_begin s t) hframe⟩
    · refine .send rfl (fun hstopped => ⟨hstopped, hdelta⟩) hsend ⟨rfl, rfl, rfl⟩ ?_
      simp [ToolState.arguments, ToolState.begun]
    · exact ⟨fun _ => rfl, fun _ => Or.inl rfl, fun _ => Or.inl rfl⟩

/-- The arguments of a call that was not answered yet, sent as a whole. -/
theorem emitArguments_serves {arguments : String} {b : ToolState} (hsettled : Settled t)
    (hunanswered : ¬ t.Answered)
    (h : (s.closeContentBlocks.ensureToolStarted t).emitArguments b arguments = .ok (s', t'))
    (hbegun : SameCall t.begun b) :
    Serves late changed s t s' t' ∧ t'.Answered ∧ t'.started = true := by
  have hempty : t.arguments = "" := by
    by_contra hne
    exact hunanswered (hsettled.arguments hne)
  obtain ⟨m, hemit, hmade⟩ := bind_eq_ok.mp h
  cases hmade
  obtain ⟨hsend, hframe⟩ := emitToolDelta_eq_ok hemit
  rw [hbegun.toolIndex] at hsend
  refine ⟨⟨.tail (steps_begin s t) ?_, ?_, frame_trans (frame_begin s t) hframe⟩, ?_⟩
  · refine .send rfl (fun hstopped => absurd (hsettled.stopped hstopped) hunanswered) hsend
      ⟨hbegun.toolIndex, hbegun.started, hbegun.stopped⟩ ?_
    have hbefore : t.begun.arguments = "" := hempty
    rw [hbefore]
    simp [ToolState.arguments]
  · exact ⟨fun _ => hbegun.started, fun _ => Or.inr rfl, fun _ => Or.inr rfl⟩
  · exact ⟨Or.inr rfl, hbegun.started⟩

/-- Only a text that was sent as a whole may be replaced. -/
theorem argumentsDoneState_serves {arguments : String} (hsettled : Settled t)
    (h : s.argumentsDoneState ext t arguments = .ok (s', t')) :
    Serves late
      (t.argumentsEmitted = true ∧ t.receivedDelta = false ∧ arguments ≠ t.arguments) s t s' t' := by
  set changed := t.argumentsEmitted = true ∧ t.receivedDelta = false ∧ arguments ≠ t.arguments
    with hchanged
  unfold argumentsDoneState at h
  split_ifs at h with hsize
  obtain ⟨⟨m, b⟩, hsent, hmade⟩ := bind_eq_ok.mp h
  obtain ⟨b', hvalid, hmade⟩ := bind_eq_ok.mp hmade
  cases hmade
  obtain ⟨hnonempty, -, rfl⟩ := validateToolArguments_eq_ok.mp hvalid
  dsimp only [sendArguments] at hsent hnonempty
  have hbegins : Serves late changed s t (s.closeContentBlocks.ensureToolStarted t) t.begun :=
    ⟨steps_begin s t, ⟨fun _ => rfl, hsettled.arguments, hsettled.stopped⟩, frame_begin s t⟩
  have hstays : Serves late changed s t s t := ⟨.refl, hsettled, rfl⟩
  split_ifs at hsent with hemitted hgiven
  · have hanswered : t.Answered := Or.inr hemitted
    cases hsent
    refine hstays.edit ⟨rfl, rfl, rfl⟩ (hsettled.started hanswered) hanswered ?_
    cases hreceived : t.receivedDelta with
    | true => exact Or.inl (by simp [ToolState.arguments, ToolState.validated, hreceived,
        ToolState.withArguments])
    | false =>
      by_cases hsame : arguments = t.arguments
      · refine Or.inl (Eq.trans ?_ hsame)
        simp [ToolState.arguments, ToolState.validated, hreceived, ToolState.withArguments]
      · exact Or.inr ⟨hemitted, hreceived, hsame⟩
  · have hunanswered : ¬ t.Answered := by
      rintro (hyes | hyes)
      · simp [ToolState.withArguments, hyes] at hgiven
      · exact hemitted hyes
    obtain ⟨hserves, hanswered, hstarted⟩ :=
      emitArguments_serves hsettled hunanswered hsent ⟨rfl, rfl, rfl⟩
    exact hserves.edit ⟨rfl, rfl, rfl⟩ hstarted hanswered (Or.inl rfl)
  · cases hsent
    cases hreceived : t.receivedDelta with
    | true =>
      exact hbegins.edit ⟨rfl, rfl, rfl⟩ rfl (Or.inl hreceived)
        (Or.inl (by simp [ToolState.arguments, ToolState.validated, hreceived, ToolState.begun,
          ToolState.withArguments]))
    | false =>
      simp [ToolState.arguments, ToolState.begun, ToolState.withArguments, hreceived] at hnonempty hgiven
      exact absurd hgiven hnonempty

/-- The end of a call. -/
theorem itemDoneState_serves {arguments : Option String} (hsettled : Settled t)
    (h : s.itemDoneState ext t arguments = .ok (s', t')) : Serves late changed s t s' t' := by
  obtain ⟨⟨m, b⟩, hsent, hmade⟩ := bind_eq_ok.mp h
  obtain ⟨b', hvalid, hstop⟩ := bind_eq_ok.mp hmade
  obtain ⟨hnonempty, -, rfl⟩ := validateToolArguments_eq_ok.mp hvalid
  dsimp only at hnonempty hstop
  have hserves : Serves late changed s t m b ∧ b.started = true := by
    unfold itemArguments at hsent
    split at hsent
    · next given hgiven =>
      split_ifs at hgiven hsent with hanswered
      · have hunanswered : ¬ t.Answered := by
          rintro (hyes | hyes) <;> exact hanswered (by simp [ToolState.begun, hyes])
        obtain ⟨hserves, -, hstarted⟩ :=
          emitArguments_serves hsettled hunanswered hsent ⟨rfl, rfl, rfl⟩
        exact ⟨hserves, hstarted⟩
    · cases hsent
      exact ⟨⟨steps_begin s t, ⟨fun _ => rfl, hsettled.arguments, hsettled.stopped⟩,
        frame_begin s t⟩, rfl⟩
  obtain ⟨hserves, hstarted⟩ := hserves
  have hanswered : b.Answered := hserves.settled.arguments hnonempty
  have hvalidated : Serves late changed s t m b.validated :=
    hserves.edit ⟨rfl, rfl, rfl⟩ hstarted hanswered (Or.inl rfl)
  unfold stopCall at hstop
  split_ifs at hstop with hstopped
  · cases hstop
    exact hvalidated
  · obtain ⟨n, htool, hmade⟩ := bind_eq_ok.mp hstop
    cases hmade
    obtain ⟨⟨ledger, hledger, heq⟩, hframe⟩ := stopTool_eq_ok htool
    refine ⟨.tail hvalidated.steps ?_, ⟨fun _ => hstarted, fun _ => hanswered, fun _ => hanswered⟩,
      frame_trans hvalidated.frame hframe⟩
    rw [heq]
    exact .stop hstarted (Bool.eq_false_iff.mpr hstopped) hledger

end ResponsesProviderStream

end Switchboard.Core.ProviderStream
