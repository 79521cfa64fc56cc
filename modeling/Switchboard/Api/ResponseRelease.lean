import Switchboard.Api.ResponseStreams

/-!
# A bound resource is released once

Only the cleanup task calls a release, and no caller is through before that task is. What stops
the call is a close of the body that raises no `Exception`.
-/

namespace Switchboard.Api.ResponseStreams

variable {ρ : Type} {s t : ManagedStreamingResponse ρ}

/-- The events that the response and its callers bring about themselves. -/
def ResponseEvent.internal : ResponseEvent ρ → Prop
  | .streamEnds .. | .wake _ | .startCleanup | .bodyCloses _ | .releaseReturns _ => True
  | .bindRelease _ | .execute | .aclose | .cancel _ => False

def CleanupTask.remaining : CleanupTask → ℕ
  | .scheduled => 3
  | .closing => 2
  | .releasing _ => 1
  | .done .. => 0

/-- A stream that ends may start the cleanup task. -/
def Caller.remaining : Caller → ℕ
  | .streaming => 5
  | .waiting .. => 1
  | .finished _ => 0

namespace ManagedStreamingResponse

/-- The internal events that can still happen. -/
def work (s : ManagedStreamingResponse ρ) : ℕ :=
  (s.callers.map Caller.remaining).sum + (s.cleanup.map CleanupTask.remaining).getD 0

/-- The calls that the progress of the cleanup task stands for. -/
def due (s : ManagedStreamingResponse ρ) : List ρ :=
  match s.cleanup with
  | some (.releasing closed) | some (.done closed _) =>
    if closed.suppressed = none then s.release.toList else []
  | _ => []

structure Accounted (s : ManagedStreamingResponse ρ) : Prop where
  calls : s.calls = s.due
  waiting : s.cleanup = none → ∀ caller ∈ s.callers, caller = .streaming
  finished : ∀ outcome, Caller.finished outcome ∈ s.callers →
    ∃ closed result, s.cleanup = some (.done closed result)

theorem accounted_new : Accounted ({} : ManagedStreamingResponse ρ) :=
  ⟨rfl, fun _ _ h => absurd h List.not_mem_nil, fun _ h => absurd h List.not_mem_nil⟩

/-- What a caller does next, and whether it starts the task. -/
theorem close_cases (s : ManagedStreamingResponse ρ) (preserved : Outcome) :
    (s.cleanup = none ∧
      s.close preserved = ({ s with cleanup := some .scheduled }, .waiting preserved false)) ∨
    (∃ closed result outcome, s.cleanup = some (.done closed result) ∧
      s.close preserved = (s, .finished outcome)) ∨
    (∃ task, s.cleanup = some task ∧ s.close preserved = (s, .waiting preserved false)) := by
  unfold close
  cases hcleanup : s.cleanup with
  | none => exact Or.inl ⟨rfl, rfl⟩
  | some task =>
    cases task with
    | done closed result => exact Or.inr (Or.inl ⟨_, _, _, rfl, rfl⟩)
    | scheduled => exact Or.inr (Or.inr ⟨_, rfl, rfl⟩)
    | closing => exact Or.inr (Or.inr ⟨_, rfl, rfl⟩)
    | releasing closed => exact Or.inr (Or.inr ⟨_, rfl, rfl⟩)

theorem suppressed_twice (closed : Outcome) : closed.suppressed.suppressed = closed.suppressed := by
  cases closed with
  | none => rfl
  | some raised => cases raised <;> rfl

theorem afterBodyClosed_cases (s : ManagedStreamingResponse ρ) (closed : Outcome) :
    (closed.suppressed ≠ none ∧ s.afterBodyClosed closed =
      { s with cleanup := some (.done closed closed.suppressed) }) ∨
    (closed.suppressed = none ∧ s.release = none ∧ s.afterBodyClosed closed =
      { s with cleanup := some (.done closed none) }) ∨
    ∃ release, closed.suppressed = none ∧ s.release = some release ∧ s.afterBodyClosed closed =
      { s with cleanup := some (.releasing closed), calls := s.calls ++ [release] } := by
  rw [afterBodyClosed, closeStreamInput, suppressed_twice]
  cases hraised : closed.suppressed with
  | some raised => exact Or.inl ⟨nofun, rfl⟩
  | none =>
    cases hrelease : s.release with
    | none => exact Or.inr (Or.inl ⟨rfl, rfl, rfl⟩)
    | some release => exact Or.inr (Or.inr ⟨release, rfl, rfl, rfl⟩)

/-- What an event does, where it can happen. -/
inductive Stepped (s : ManagedStreamingResponse ρ) :
    ResponseEvent ρ → ManagedStreamingResponse ρ → Prop
  | refused (release) : Stepped s (.bindRelease release) s
  | bound (release) : s.release = none → s.cleanup = none →
      Stepped s (.bindRelease release) { s with release := some release }
  | executed : Stepped s .execute { s with callers := s.callers ++ [.streaming] }
  | closes : Stepped s .aclose
      { (s.close none).1 with callers := s.callers ++ [(s.close none).2] }
  | streamEnds {i outcome} : s.callers[i]? = some .streaming →
      Stepped s (.streamEnds i outcome)
        { (s.close outcome).1 with callers := s.callers.set i (s.close outcome).2 }
  | cancelled {i preserved before} : s.callers[i]? = some (.waiting preserved before) →
      Stepped s (.cancel i) { s with callers := s.callers.set i (.waiting preserved true) }
  | woken {i preserved before closed result} (outcome) :
      s.callers[i]? = some (.waiting preserved before) → s.cleanup = some (.done closed result) →
      Stepped s (.wake i) { s with callers := s.callers.set i (.finished outcome) }
  | started : s.cleanup = some .scheduled →
      Stepped s .startCleanup { s with cleanup := some .closing }
  | bodyClosed (closed) : s.cleanup = some .closing →
      Stepped s (.bodyCloses closed) (s.afterBodyClosed closed)
  | released {closed} (outcome) : s.cleanup = some (.releasing closed) →
      Stepped s (.releaseReturns outcome)
        { s with cleanup := some (.done closed outcome.suppressed) }

theorem stepped_of_step {event : ResponseEvent ρ} (h : s.step event = some t) :
    Stepped s event t := by
  cases event with
  | bindRelease release =>
    rw [step, bindRelease] at h
    split_ifs at h with hbound hstarted
    · cases h
      exact .refused release
    · cases h
      exact .refused release
    · cases h
      exact .bound release (by simpa using hbound) (by simpa using hstarted)
  | execute =>
    cases h
    exact .executed
  | aclose =>
    cases h
    exact .closes
  | streamEnds i outcome =>
    simp only [step] at h
    split at h
    · next hcaller =>
      cases h
      exact .streamEnds hcaller
    · cases h
  | cancel i =>
    simp only [step] at h
    split at h
    · next hcaller =>
      cases h
      exact .cancelled hcaller
    · cases h
  | wake i =>
    simp only [step] at h
    split at h
    · next hcaller hcleanup =>
      cases h
      exact .woken _ hcaller hcleanup
    · cases h
  | startCleanup =>
    simp only [step] at h
    split at h
    · next hcleanup =>
      cases h
      exact .started hcleanup
    · cases h
  | bodyCloses outcome =>
    simp only [step] at h
    split at h
    · next hcleanup =>
      cases h
      exact .bodyClosed outcome hcleanup
    · cases h
  | releaseReturns outcome =>
    simp only [step] at h
    split at h
    · next hcleanup =>
      cases h
      exact .released outcome hcleanup
    · cases h

/-- A caller that begins to close keeps the account, wherever it stands in the list. -/
theorem Accounted.close (hs : s.Accounted) (preserved : Outcome) {callers : List Caller}
    (hcallers : ∀ caller ∈ callers, caller ∈ s.callers ∨ caller = (s.close preserved).2) :
    Accounted { (s.close preserved).1 with callers := callers } := by
  rcases s.close_cases preserved with ⟨hnone, hclose⟩ | ⟨closed, result, outcome, hdone, hclose⟩ |
    ⟨task, htask, hclose⟩
  · rw [hclose] at hcallers ⊢
    refine ⟨?_, nofun, fun outcome hmem => ?_⟩
    · simpa [due, hnone] using hs.calls
    · rcases hcallers _ hmem with hin | hnew
      · obtain ⟨closed, result, hdone⟩ := hs.finished outcome hin
        rw [hnone] at hdone
        cases hdone
      · cases hnew
  · rw [hclose] at hcallers ⊢
    refine ⟨hs.calls, fun hnone => ?_, fun _ _ => ⟨closed, result, hdone⟩⟩
    rw [hdone] at hnone
    cases hnone
  · rw [hclose] at hcallers ⊢
    refine ⟨hs.calls, fun hnone => ?_, fun outcome hmem => ?_⟩
    · rw [htask] at hnone
      cases hnone
    · rcases hcallers _ hmem with hin | hnew
      · exact hs.finished outcome hin
      · cases hnew

theorem accounted_step {event : ResponseEvent ρ} (hs : s.Accounted)
    (h : s.step event = some t) : t.Accounted := by
  cases stepped_of_step h with
  | refused release => exact hs
  | bound release hunbound hnone =>
    refine ⟨?_, hs.waiting, hs.finished⟩
    simpa [due, hnone] using hs.calls
  | executed =>
    refine ⟨hs.calls, fun hnone caller hmem => ?_, fun outcome hmem => ?_⟩
    · rcases List.mem_append.mp hmem with hin | hnew
      · exact hs.waiting hnone caller hin
      · exact List.mem_singleton.mp hnew
    · rcases List.mem_append.mp hmem with hin | hnew
      · exact hs.finished outcome hin
      · cases List.mem_singleton.mp hnew
  | closes =>
    exact hs.close none fun caller hmem =>
      (List.mem_append.mp hmem).imp_right List.mem_singleton.mp
  | streamEnds hcaller =>
    exact hs.close _ fun caller hmem => List.mem_or_eq_of_mem_set hmem
  | cancelled hcaller =>
    have hwaiting := List.mem_of_getElem? hcaller
    refine ⟨hs.calls, fun hnone => ?_, fun outcome hmem => ?_⟩
    · cases hs.waiting hnone _ hwaiting
    · rcases List.mem_or_eq_of_mem_set hmem with hin | hnew
      · exact hs.finished outcome hin
      · cases hnew
  | woken outcome hcaller hdone =>
    refine ⟨hs.calls, fun hnone => ?_, fun _ _ => ⟨_, _, hdone⟩⟩
    rw [hdone] at hnone
    cases hnone
  | started hscheduled =>
    refine ⟨?_, nofun, fun outcome hmem => ?_⟩
    · simpa [due, hscheduled] using hs.calls
    · obtain ⟨closed, result, hdone⟩ := hs.finished outcome hmem
      rw [hscheduled] at hdone
      cases hdone
  | bodyClosed closed hclosing =>
    have hcalls : s.calls = [] := by simpa [due, hclosing] using hs.calls
    have hnot : ∀ outcome, Caller.finished outcome ∉ s.callers := by
      intro outcome hmem
      obtain ⟨_, _, hdone⟩ := hs.finished outcome hmem
      rw [hclosing] at hdone
      cases hdone
    rcases s.afterBodyClosed_cases closed with ⟨hraised, hafter⟩ | ⟨hquiet, hrelease, hafter⟩ |
      ⟨release, hquiet, hrelease, hafter⟩
    · rw [hafter]
      exact ⟨by simp [due, hcalls, hraised], nofun, fun outcome hmem => absurd hmem (hnot outcome)⟩
    · rw [hafter]
      exact ⟨by simp [due, hcalls, hrelease], nofun, fun outcome hmem => absurd hmem (hnot outcome)⟩
    · rw [hafter]
      exact ⟨by simp [due, hcalls, hquiet, hrelease], nofun,
        fun outcome hmem => absurd hmem (hnot outcome)⟩
  | released outcome hreleasing =>
    refine ⟨?_, nofun, fun _ _ => ⟨_, _, rfl⟩⟩
    simpa [due, hreleasing] using hs.calls

theorem accounted_of_reachable (h : (responseSystem ρ).Reachable s) : s.Accounted := by
  refine h.invariant ?_ ?_
  · rintro s rfl
    exact accounted_new
  · exact fun _ _ _ _ hs hstep => accounted_step hs hstep

/-! ## Every run ends -/

theorem sum_map_set {callers : List Caller} {i : ℕ} {old : Caller} (new : Caller)
    (h : callers[i]? = some old) :
    ((callers.set i new).map Caller.remaining).sum + old.remaining =
      (callers.map Caller.remaining).sum + new.remaining := by
  induction callers generalizing i with
  | nil => cases h
  | cons caller callers ih =>
    cases i with
    | zero =>
      cases h
      simp only [List.set_cons_zero, List.map_cons, List.sum_cons]
      omega
    | succ i =>
      have hrest := ih h
      simp only [List.set_cons_succ, List.map_cons, List.sum_cons]
      omega

theorem work_internal {event : ResponseEvent ρ} (h : s.step event = some t)
    (hinternal : event.internal) : t.work < s.work := by
  cases stepped_of_step h with
  | refused release => exact hinternal.elim
  | bound release hunbound hnone => exact hinternal.elim
  | executed => exact hinternal.elim
  | closes => exact hinternal.elim
  | cancelled hcaller => exact hinternal.elim
  | streamEnds hcaller =>
    rename_i i outcome
    have hsum := sum_map_set (s.close outcome).2 hcaller
    rcases s.close_cases outcome with ⟨hnone, hclose⟩ | ⟨_, _, _, hdone, hclose⟩ |
      ⟨task, htask, hclose⟩
    · rw [hclose] at hsum ⊢
      simp only [Caller.remaining] at hsum
      simp only [work, hnone, Option.map_some, Option.map_none, Option.getD_some, Option.getD_none,
        CleanupTask.remaining]
      omega
    · rw [hclose] at hsum ⊢
      simp only [Caller.remaining] at hsum
      simp only [work]
      omega
    · rw [hclose] at hsum ⊢
      simp only [Caller.remaining] at hsum
      simp only [work]
      omega
  | woken outcome hcaller hdone =>
    have hsum := sum_map_set (.finished outcome) hcaller
    simp only [Caller.remaining] at hsum
    simp only [work]
    omega
  | started hscheduled =>
    simp only [work, hscheduled, Option.map_some, Option.getD_some, CleanupTask.remaining]
    omega
  | bodyClosed closed hclosing =>
    rcases s.afterBodyClosed_cases closed with ⟨-, hafter⟩ | ⟨-, -, hafter⟩ | ⟨_, -, -, hafter⟩ <;>
    · rw [hafter]
      simp only [work, hclosing, Option.map_some, Option.getD_some, CleanupTask.remaining]
      omega
  | released outcome hreleasing =>
    simp only [work, hreleasing, Option.map_some, Option.getD_some, CleanupTask.remaining]
    omega

/-- A cancellation leaves to a caller what it waits for. -/
theorem work_cancel {i : ℕ} (h : s.step (.cancel i) = some t) :
    t.work = s.work ∧ t.cleanup = s.cleanup ∧ t.calls = s.calls := by
  cases stepped_of_step h with
  | cancelled hcaller =>
    rename_i preserved before
    have hsum := sum_map_set (.waiting preserved true) hcaller
    simp only [Caller.remaining] at hsum
    refine ⟨?_, rfl, rfl⟩
    simp only [work]
    omega

/-- A caller that is not through does not wait in vain. -/
theorem Accounted.progress (hs : s.Accounted) {caller : Caller} (hcaller : caller ∈ s.callers)
    (hopen : ∀ outcome, caller ≠ .finished outcome) :
    ∃ event, ResponseEvent.internal event ∧ (s.step event).isSome = true := by
  obtain ⟨i, hi⟩ := List.getElem?_of_mem hcaller
  cases caller with
  | finished outcome => exact absurd rfl (hopen outcome)
  | streaming => exact ⟨.streamEnds i none, trivial, by simp [step, hi]⟩
  | waiting preserved cancellation =>
    cases hcleanup : s.cleanup with
    | none => cases hs.waiting hcleanup _ hcaller
    | some task =>
      cases task with
      | scheduled => exact ⟨.startCleanup, trivial, by simp [step, hcleanup]⟩
      | closing => exact ⟨.bodyCloses none, trivial, by simp [step, hcleanup]⟩
      | releasing closed => exact ⟨.releaseReturns none, trivial, by simp [step, hcleanup]⟩
      | done closed result => exact ⟨.wake i, trivial, by simp [step, hi, hcleanup]⟩

/-- What is promised of the release of a response. -/
structure ReleasedOnce (s : ManagedStreamingResponse ρ) : Prop where
  atMostOnce : s.calls.length ≤ 1
  /-- Once a caller is through, the release was called, unless the close of the body raised what
  is no `Exception`. -/
  finished : ∀ release outcome, s.release = some release → Caller.finished outcome ∈ s.callers →
    ∃ closed result, s.cleanup = some (.done closed result) ∧
      s.calls = if closed.suppressed = none then [release] else []
  /-- While a caller is not through, something is left to happen. -/
  progress : (∃ caller ∈ s.callers, ∀ outcome, caller ≠ .finished outcome) →
    ∃ event, ResponseEvent.internal event ∧ (s.step event).isSome = true
  /-- What happens brings the end nearer, and cancellations do not put it off. -/
  ends : ∀ event t, s.step event = some t → (event.internal → t.work < s.work) ∧
    ∀ i, event = .cancel i → t.work = s.work ∧ t.cleanup = s.cleanup ∧ t.calls = s.calls

theorem Accounted.releasedOnce (hs : s.Accounted) : s.ReleasedOnce := by
  refine ⟨?_, ?_, ?_, ?_⟩
  · rw [hs.calls, due]
    split
    · split_ifs
      · cases s.release <;> simp
      · simp
    · split_ifs
      · cases s.release <;> simp
      · simp
    · simp
  · intro release outcome hrelease hmem
    obtain ⟨closed, result, hdone⟩ := hs.finished outcome hmem
    refine ⟨closed, result, hdone, ?_⟩
    rw [hs.calls, due, hdone, hrelease]
    rfl
  · rintro ⟨caller, hcaller, hopen⟩
    exact hs.progress hcaller hopen
  · intro event t h
    refine ⟨work_internal h, ?_⟩
    rintro i rfl
    exact work_cancel h

end ManagedStreamingResponse

/-! ## Binding -/

/-- A managed response that is bound already, or whose cleanup has started. -/
def Response.refuses : Response ρ → Prop
  | .managed s => s.release.isSome = true ∨ s.cleanup.isSome = true
  | _ => False

/-- What `bind_response_lifetime` does with the release, for any response. -/
structure BoundOnce (response : Response ρ) (release : ρ) (released : Outcome) : Prop where
  managed : ∀ s, response = .managed s → ¬ response.refuses →
    bindResponseLifetime response release released =
      (.ok (.managed { s with release := some release }), [])
  refused : response.refuses → bindResponseLifetime response release released =
    (.error (.exception "RuntimeError"), [])
  others : (∀ s, response ≠ .managed s) →
    (bindResponseLifetime response release released).2 = [release]

theorem boundOnce (response : Response ρ) (release : ρ) (released : Outcome) :
    BoundOnce response release released := by
  cases response with
  | managed s =>
    refine ⟨?_, ?_, fun h => absurd rfl (h s)⟩
    · rintro _ ⟨⟩ hopen
      rw [Response.refuses, not_or] at hopen
      rw [bindResponseLifetime, ManagedStreamingResponse.bindRelease, if_neg hopen.1,
        if_neg hopen.2]
    · intro hrefuses
      rw [bindResponseLifetime, ManagedStreamingResponse.bindRelease]
      rcases hrefuses with hbound | hstarted
      · rw [if_pos hbound]
      · split_ifs <;> rfl
  | streaming closed =>
    refine ⟨nofun, False.elim, fun _ => ?_⟩
    simp only [bindResponseLifetime]
    split <;> rfl
  | other =>
    refine ⟨nofun, False.elim, fun _ => ?_⟩
    simp only [bindResponseLifetime]
    split <;> rfl

def cancelledClose : List (ResponseEvent String) :=
  [.bindRelease "lease", .aclose, .startCleanup, .bodyCloses (some .cancelled), .wake 0]

end Switchboard.Api.ResponseStreams
