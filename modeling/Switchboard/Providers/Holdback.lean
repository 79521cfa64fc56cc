import Switchboard.Library.Run
import Switchboard.Providers.StreamRecovery

/-!
# Held events are not lost

Runs of one `RecoveryController`. Each pushed event gets a number, and a log keeps what
was pushed, what the calls returned and which events were dropped while they were held.
-/

namespace Switchboard.Providers

variable {α : Type}

/-- A buffer with the log of its past. -/
structure HoldbackRun (α : Type) where
  buffer : RecoveryHoldbackBuffer (ℕ × α)
  pushed : List (ℕ × α) := []
  released : List (ℕ × α) := []
  discarded : List ℕ := []

/-- The calls of the controller. -/
inductive HoldbackOp (α : Type) where
  | push (event : α) (started now : ℚ)
  | restartDeadline (now : ℚ)
  | flush
  | flushUncommitted (decision : RecoveryDecision)
  | discard
  | advanceFailure (failure : StreamFailure)

namespace HoldbackRun

/-- The numbers of the events that were neither released nor dropped. -/
def pending (r : HoldbackRun α) : List ℕ :=
  (r.pushed.map Prod.fst).filter fun n => n ∉ r.released.map Prod.fst ∧ n ∉ r.discarded

def next (size : α → ℕ) (r : HoldbackRun α) : HoldbackOp α → HoldbackRun α
  | .push event started now =>
    let event := (r.pushed.length, event)
    let (out, buffer) := r.buffer.push (fun e => size e.2) event started now
    { r with buffer := buffer, pushed := r.pushed ++ [event], released := r.released ++ out }
  | .restartDeadline now => { r with buffer := r.buffer.restartDeadline now }
  | .flush =>
    let (out, buffer) := r.buffer.flush
    { r with buffer := buffer, released := r.released ++ out }
  | .flushUncommitted decision =>
    let (out, buffer) := r.buffer.flushUncommitted decision
    { r with buffer := buffer, released := r.released ++ out }
  | .discard =>
    { r with buffer := r.buffer.discard, discarded := r.discarded ++ r.pending }
  | .advanceFailure failure =>
    let (decision, buffer) := r.buffer.advanceFailure failure
    { r with
      buffer := buffer
      discarded :=
        if decision.action = .earlyRetry then r.discarded ++ r.pending else r.discarded }

end HoldbackRun

/-- Runs of a controller with any limits. -/
def holdbackSystem (size : α → ℕ) : System (HoldbackRun α) (HoldbackOp α) where
  init r := ∃ holdbackSeconds maxBytes,
    r = { buffer := { holdbackSeconds := holdbackSeconds, maxBytes := maxBytes } }
  step r op r' := r' = r.next size op

/-! ## Calls of the buffer -/

namespace RecoveryHoldbackBuffer

variable {b : RecoveryHoldbackBuffer α}

theorem push_committed (h : b.committed = true) (size : α → ℕ) (event : α) (started now : ℚ) :
    b.push size event started now = ([event], b) := by
  unfold push
  rw [if_pos h]

theorem flush_committed (h : b.committed = true) : b.flush = ([], b) := by
  unfold flush
  rw [if_pos h]

theorem flush_held (h : b.committed = false) :
    b.flush.1 = b.events ∧ b.flush.2.events = [] ∧ b.flush.2.committed = true := by
  unfold flush
  rw [if_neg (by simp [h])]
  exact ⟨rfl, rfl, rfl⟩

/-- A push on a holding buffer holds the event too, or releases all that is held. -/
theorem push_held (h : b.committed = false) (size : α → ℕ) (event : α) (started now : ℚ) :
    ((b.push size event started now).1 = [] ∧
      (b.push size event started now).2.events = b.events ++ [event] ∧
      (b.push size event started now).2.committed = false) ∨
    ((b.push size event started now).1 = b.events ++ [event] ∧
      (b.push size event started now).2.events = [] ∧
      (b.push size event started now).2.committed = true) := by
  unfold push
  rw [if_neg (by simp [h])]
  dsimp only
  split_ifs
  · obtain ⟨hout, hevents, hcommitted⟩ := flush_held (b := { b with
      startedAt := some (b.startedAt.getD started), events := b.events ++ [event]
      bytes := b.bytes + size event }) h
    exact Or.inr ⟨hout, hevents, hcommitted⟩
  · exact Or.inl ⟨rfl, rfl, h⟩

theorem restartDeadline_events (b : RecoveryHoldbackBuffer α) (now : ℚ) :
    (b.restartDeadline now).events = b.events ∧
      (b.restartDeadline now).committed = b.committed := by
  unfold restartDeadline
  split_ifs <;> exact ⟨rfl, rfl⟩

/-- A stream is started from scratch only while everything is still held. -/
theorem earlyRetry_held {failure : StreamFailure}
    (h : (b.advanceFailure failure).1.action = .earlyRetry) : b.committed = false := by
  unfold advanceFailure StreamFailure.decide at h
  dsimp only at h
  cases hc : b.committed with
  | false => rfl
  | true =>
    rw [hc] at h
    split_ifs at h with hretry hmid
    simp at hretry

theorem advanceFailure_buffer (b : RecoveryHoldbackBuffer α) (failure : StreamFailure) :
    (b.advanceFailure failure).2 =
      if (b.advanceFailure failure).1.action = .earlyRetry then b.renew else b := rfl

end RecoveryHoldbackBuffer

/-! ## The invariant -/

namespace HoldbackRun

variable {r : HoldbackRun α} {size : α → ℕ}

/-- What the log says about the buffer. -/
structure Sound (r : HoldbackRun α) : Prop where
  numbered : r.pushed.map Prod.fst = List.range r.pushed.length
  order : r.released ++ r.buffer.events = r.pushed.filter fun e => e.1 ∉ r.discarded
  discarded : ∀ n ∈ r.discarded, n < r.pushed.length ∧ n ∉ r.released.map Prod.fst
  holding : r.buffer.committed = false → r.released = []
  committed : r.buffer.committed = true → r.buffer.events = []

theorem Sound.lt_of_mem (h : r.Sound) {e : ℕ × α} (he : e ∈ r.pushed) : e.1 < r.pushed.length := by
  have hmem : e.1 ∈ r.pushed.map Prod.fst := List.mem_map_of_mem he
  rw [h.numbered, List.mem_range] at hmem
  exact hmem

/-- The numbers that the log calls pending are those of the held events. -/
theorem Sound.pending_eq (h : r.Sound) : r.pending = r.buffer.events.map Prod.fst := by
  have hfilter : r.pending =
      ((r.pushed.filter fun e => e.1 ∉ r.discarded).map Prod.fst).filter
        fun n => n ∉ r.released.map Prod.fst := by
    unfold pending
    rw [List.filter_map, List.filter_map, List.filter_filter]
    congr 1
    apply List.filter_congr
    intro e _
    simp
  have hnodup : ((r.released ++ r.buffer.events).map Prod.fst).Nodup := by
    rw [h.order]
    have hsub : ((r.pushed.filter fun e => e.1 ∉ r.discarded).map Prod.fst).Sublist
        (r.pushed.map Prod.fst) := List.filter_sublist.map _
    refine hsub.nodup ?_
    rw [h.numbered]
    exact List.nodup_range
  rw [List.map_append, List.nodup_append] at hnodup
  rw [hfilter, ← h.order, List.map_append, List.filter_append,
    List.filter_eq_nil_iff.mpr (by simp), List.nil_append, List.filter_eq_self.mpr]
  intro n hn
  simpa using fun hr => hnodup.2.2 _ hr n hn rfl

/-- Dropping what is held. -/
theorem Sound.drop (h : r.Sound) {buffer : RecoveryHoldbackBuffer (ℕ × α)}
    (hevents : buffer.events = []) (hcommitted : buffer.committed = r.buffer.committed) :
    { r with buffer := buffer, discarded := r.discarded ++ r.pending }.Sound := by
  refine ⟨h.numbered, ?_, ?_, fun hc => h.holding (hcommitted ▸ hc), fun _ => hevents⟩
  · have hdrop : (r.pushed.filter fun e => e.1 ∉ r.discarded ++ r.pending) =
        (r.released ++ r.buffer.events).filter fun e => e.1 ∉ r.pending := by
      rw [h.order, List.filter_filter]
      apply List.filter_congr
      intro e _
      simp [Bool.and_comm]
    have hheld : ∀ e ∈ r.buffer.events, e.1 ∈ r.pending := by
      intro e he
      rw [h.pending_eq]
      exact List.mem_map_of_mem he
    have hreleased : ∀ e ∈ r.released, e.1 ∉ r.pending := by
      intro e he hp
      unfold pending at hp
      have hnot := (of_decide_eq_true (List.mem_filter.mp hp).2).1
      exact hnot (List.mem_map_of_mem he)
    simp only [hevents, List.append_nil]
    rw [hdrop, List.filter_append, List.filter_eq_self.mpr (by simpa using hreleased),
      List.filter_eq_nil_iff.mpr (by simpa using hheld), List.append_nil]
  · intro n hn
    rcases List.mem_append.mp hn with hn | hn
    · exact h.discarded n hn
    · unfold pending at hn
      obtain ⟨hpushed, hnot⟩ := List.mem_filter.mp hn
      rw [h.numbered, List.mem_range] at hpushed
      exact ⟨hpushed, (of_decide_eq_true hnot).1⟩

/-- Releasing all that is held. -/
theorem Sound.release (h : r.Sound) :
    { r with buffer := r.buffer.flush.2, released := r.released ++ r.buffer.flush.1 }.Sound := by
  cases hc : r.buffer.committed with
  | true =>
    rw [RecoveryHoldbackBuffer.flush_committed hc]
    simpa using h
  | false =>
    obtain ⟨hout, hevents, hcommitted⟩ := RecoveryHoldbackBuffer.flush_held hc
    refine ⟨h.numbered, ?_, ?_, fun hf => ?_, fun _ => hevents⟩
    · simp only [hout, hevents, List.append_nil]
      exact h.order
    · intro n hn
      obtain ⟨hlt, hnot⟩ := h.discarded n hn
      refine ⟨hlt, ?_⟩
      simp only [hout]
      have hheld : ∀ e ∈ r.buffer.events, e.1 ≠ n := by
        rintro e he rfl
        have hmem : e ∈ r.released ++ r.buffer.events := List.mem_append_right _ he
        rw [h.order, List.mem_filter] at hmem
        exact of_decide_eq_true hmem.2 hn
      simpa using ⟨by simpa using hnot, fun a ha => hheld (n, a) ha rfl⟩
    · simp only at hf
      rw [hcommitted] at hf
      cases hf

theorem Sound.push (h : r.Sound) (event : α) (started now : ℚ) :
    (r.next size (.push event started now)).Sound := by
  have hfresh : r.pushed.length ∉ r.discarded := fun hn => lt_irrefl _ (h.discarded _ hn).1
  have hnumbered : (r.pushed ++ [(r.pushed.length, event)]).map Prod.fst =
      List.range (r.pushed ++ [(r.pushed.length, event)]).length := by
    rw [List.map_append, h.numbered, List.length_append, List.length_singleton,
      List.range_succ]
    rfl
  have hfilter : ((r.pushed ++ [(r.pushed.length, event)]).filter fun e => e.1 ∉ r.discarded) =
      r.released ++ (r.buffer.events ++ [(r.pushed.length, event)]) := by
    rw [List.filter_append, ← h.order, List.append_assoc]
    simp [hfresh]
  have hdiscarded : ∀ out, (∀ e ∈ out, e ∈ r.buffer.events ++ [(r.pushed.length, event)]) →
      ∀ n ∈ r.discarded, n < (r.pushed ++ [(r.pushed.length, event)]).length ∧
        n ∉ (r.released ++ out).map Prod.fst := by
    intro out hout n hn
    obtain ⟨hlt, hnot⟩ := h.discarded n hn
    refine ⟨by simp; omega, ?_⟩
    rw [List.map_append, List.mem_append, not_or]
    refine ⟨hnot, fun hmem => ?_⟩
    obtain ⟨e, he, rfl⟩ := List.mem_map.mp hmem
    have hin : e ∈ r.released ++ (r.buffer.events ++ [(r.pushed.length, event)]) :=
      List.mem_append_right _ (hout e he)
    rw [← hfilter, List.mem_filter] at hin
    exact of_decide_eq_true hin.2 hn
  unfold next
  dsimp only
  cases hc : r.buffer.committed with
  | true =>
    rw [RecoveryHoldbackBuffer.push_committed hc]
    refine ⟨hnumbered, ?_, hdiscarded _ ?_, fun hf => ?_, fun _ => h.committed hc⟩
    · rw [hfilter, h.committed hc]
      simp
    · intro e he
      exact List.mem_append_right _ he
    · rw [hc] at hf
      cases hf
  | false =>
    rcases RecoveryHoldbackBuffer.push_held hc (fun e => size e.2) (r.pushed.length, event)
      started now with ⟨hout, hevents, hstill⟩ | ⟨hout, hevents, hnow⟩
    · refine ⟨hnumbered, ?_, hdiscarded _ ?_, fun _ => ?_, fun hf => ?_⟩
      · rw [hfilter]
        simp only [hout, hevents, List.append_nil]
      · rw [hout]
        exact fun e he => nomatch he
      · rw [hout, h.holding hc]
        rfl
      · rw [hstill] at hf
        cases hf
    · refine ⟨hnumbered, ?_, hdiscarded _ ?_, fun hf => ?_, fun _ => hevents⟩
      · rw [hfilter]
        simp only [hout, hevents, List.append_nil]
      · rw [hout]
        exact fun e he => he
      · rw [hnow] at hf
        cases hf

/-- A change of the buffer that moves no event. -/
theorem Sound.keep (h : r.Sound) {buffer : RecoveryHoldbackBuffer (ℕ × α)}
    (hevents : buffer.events = r.buffer.events) (hcommitted : buffer.committed = r.buffer.committed) :
    { r with buffer := buffer }.Sound where
  numbered := h.numbered
  order := by
    simp only [hevents]
    exact h.order
  discarded := h.discarded
  holding := fun hc => h.holding (hcommitted ▸ hc)
  committed := fun hc => hevents.trans (h.committed (hcommitted ▸ hc))

/-- The step lemma. -/
theorem Sound.next (h : r.Sound) (op : HoldbackOp α) : (r.next size op).Sound := by
  cases op with
  | push event started now => exact h.push event started now
  | restartDeadline now =>
    obtain ⟨hevents, hcommitted⟩ := r.buffer.restartDeadline_events now
    exact h.keep hevents hcommitted
  | flush => exact h.release
  | flushUncommitted decision =>
    unfold HoldbackRun.next RecoveryHoldbackBuffer.flushUncommitted
    dsimp only
    split_ifs
    · exact h.release
    · simpa using h
  | discard => exact h.drop rfl rfl
  | advanceFailure failure =>
    unfold HoldbackRun.next
    dsimp only
    rw [RecoveryHoldbackBuffer.advanceFailure_buffer]
    split_ifs with hretry
    · exact h.drop rfl (RecoveryHoldbackBuffer.earlyRetry_held hretry).symm
    · exact h

/-- No call takes a commitment back. -/
theorem committed_next (hc : r.buffer.committed = true) (op : HoldbackOp α) :
    (r.next size op).buffer.committed = true := by
  cases op with
  | push event started now =>
    unfold HoldbackRun.next
    dsimp only
    rw [RecoveryHoldbackBuffer.push_committed hc]
    exact hc
  | restartDeadline now => exact (r.buffer.restartDeadline_events now).2.trans hc
  | flush =>
    unfold HoldbackRun.next
    dsimp only
    rw [RecoveryHoldbackBuffer.flush_committed hc]
    exact hc
  | flushUncommitted decision =>
    unfold HoldbackRun.next RecoveryHoldbackBuffer.flushUncommitted
    dsimp only
    rw [RecoveryHoldbackBuffer.flush_committed hc]
    split_ifs <;> exact hc
  | discard => exact hc
  | advanceFailure failure =>
    unfold HoldbackRun.next
    dsimp only
    rw [RecoveryHoldbackBuffer.advanceFailure_buffer]
    split_ifs with hretry
    · rw [RecoveryHoldbackBuffer.earlyRetry_held hretry] at hc
      cases hc
    · exact hc

end HoldbackRun

theorem HoldbackRun.sound_of_reachable {size : α → ℕ} {r : HoldbackRun α}
    (hr : (holdbackSystem size).Reachable r) : r.Sound := by
  refine hr.invariant (P := HoldbackRun.Sound) ?_ ?_
  · rintro r ⟨holdbackSeconds, maxBytes, rfl⟩
    exact ⟨rfl, rfl, (fun n hn => nomatch hn), fun _ => rfl, fun _ => rfl⟩
  · rintro r op _ - h rfl
    exact h.next op

/-- The events returned by the calls, followed by those still held, are the pushed ones
without those dropped while they were held, each once and in order. A retry from scratch
is decided only while nothing was returned, and once the buffer has committed it holds
nothing and returns every later push at once. -/
theorem holdback_loss_free {size : α → ℕ} {r : HoldbackRun α}
    (hr : (holdbackSystem size).Reachable r) :
    r.released ++ r.buffer.events = (r.pushed.filter fun e => e.1 ∉ r.discarded) ∧
      r.pushed.map Prod.fst = List.range r.pushed.length ∧
      (∀ n ∈ r.discarded, n ∉ r.released.map Prod.fst) ∧
      (∀ failure, (r.buffer.advanceFailure failure).1.action = .earlyRetry → r.released = []) ∧
      (r.buffer.committed = true → ∀ ops r', (holdbackSystem size).Run r ops r' →
        r'.buffer.events = [] ∧ ∀ event started now,
          (r'.next size (.push event started now)).released =
            r'.released ++ [(r'.pushed.length, event)]) := by
  have h := HoldbackRun.sound_of_reachable hr
  refine ⟨h.order, h.numbered, fun n hn => (h.discarded n hn).2, ?_, ?_⟩
  · intro failure hretry
    exact h.holding (RecoveryHoldbackBuffer.earlyRetry_held hretry)
  · intro hc ops r' hrun
    have hc' : r'.buffer.committed = true :=
      hrun.preserves (fun s op _ hs hstep => hstep ▸ HoldbackRun.committed_next hs op) hc
    have h' := HoldbackRun.sound_of_reachable (hrun.reachable hr)
    refine ⟨h'.committed hc', fun event started now => ?_⟩
    unfold HoldbackRun.next
    dsimp only
    rw [RecoveryHoldbackBuffer.push_committed hc']

section Example

/-- Two events are held, the second push releases both, and a third is released at once. -/
def sampleHoldback : HoldbackRun String :=
  ([.push "a" 0 0, .discard, .push "b" 0 0, .push "c" 0 1, .push "d" 2 2] :
    List (HoldbackOp String)).foldl (HoldbackRun.next String.length)
    { buffer := { holdbackSeconds := 3 / 4, maxBytes := 65536 } }

example : sampleHoldback.released = [(1, "b"), (2, "c"), (3, "d")] := by decide +kernel

theorem sampleHoldback_reachable :
    (holdbackSystem String.length).Reachable sampleHoldback :=
  System.Reachable.foldl (fun _ _ => rfl) _ (.start ⟨_, _, rfl⟩)

theorem holdback_loss_free_sample :
    sampleHoldback.released ++ sampleHoldback.buffer.events =
        (sampleHoldback.pushed.filter fun e => e.1 ∉ sampleHoldback.discarded) ∧
      (sampleHoldback.next String.length (.push "e" 5 5)).released =
        sampleHoldback.released ++ [(4, "e")] :=
  have h := holdback_loss_free sampleHoldback_reachable
  ⟨h.1, (h.2.2.2.2 (by decide +kernel) [] _ (.nil _)).2 "e" 5 5⟩

end Example

end Switchboard.Providers
