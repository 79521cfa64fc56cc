import Mathlib.Data.Finset.Basic
import Mathlib.Data.Rat.Defs
import Switchboard.Library.Run

/-!
# Provider admission

`providers/admission.py` with the limiter of `core/rate_limit.py`. A frame `φ` is
one call of `open_attempt` and the attempt it returns; `owner` gives the retry
session it belongs to. The sections under the condition, under the limiter lock
and between two suspensions are functions on the state; a frame is suspended at
one of the points of `AdmissionPc`, where it may also be cancelled.
-/

namespace Switchboard.Providers

/-- The limits of one controller, as its constructor checks them. -/
structure AdmissionConfig where
  rateLimit : ℕ
  rateWindow : ℚ
  maxConcurrency : ℕ
  maxAttempts : ℕ
  baseDelay : ℚ
  maxDelay : ℚ
  jitter : ℚ
  rateLimit_pos : 0 < rateLimit
  rateWindow_pos : 0 < rateWindow
  maxConcurrency_pos : 0 < maxConcurrency
  maxAttempts_pos : 0 < maxAttempts
  baseDelay_nonneg : 0 ≤ baseDelay
  baseDelay_le : baseDelay ≤ maxDelay
  jitter_nonneg : 0 ≤ jitter

/-- `_retry_delay` for the sampled jitter and the seconds of a `retry-after`. -/
def AdmissionConfig.retryDelay (cfg : AdmissionConfig) (attempt : ℕ) (sample : ℚ)
    (retryAfter : Option ℚ) : ℚ :=
  max (min (cfg.baseDelay * 2 ^ (attempt - 1)) cfg.maxDelay + sample) (retryAfter.getD 0)

/-- The budget of one logical execution; its `max_attempts` is the controller's. -/
structure ProviderRetrySession (ε : Type) where
  attemptsStarted : ℕ := 0
  terminalError : Option ε := none

structure GatePermit where
  generation : Option ℕ
  probe : Bool
deriving DecidableEq, Repr

structure RecoveryEpisode (σ ε : Type) where
  generation : ℕ
  leader : Option σ
  readyAt : ℚ
  lastError : ε
  waiters : Finset σ := ∅
  probeActive : Bool := false
  terminalUntil : Option ℚ := none

/-- What the owner of an attempt reports. A failure carries what was computed
before the condition is entered. -/
inductive AttemptOutcome (ε : Type) where
  | succeeded
  | corrected
  | rejected
  | failed (error : ε) (canRetry : Bool) (delay terminalDelay : ℚ)

/-- Where a call of `open_attempt`, or the attempt it returned, is suspended. -/
inductive AdmissionPc (ε : Type) where
  | idle
  /-- `_wait_for_gate` is about to begin a round. -/
  | gate
  /-- A waiter of an episode waits on the condition. -/
  | coalesced (generation : ℕ)
  /-- A leader waits on the condition for a probe of its own session. -/
  | parked
  /-- A leader sleeps, or is about to enter the condition afterwards. -/
  | leading (generation : ℕ) (wakeAt : ℚ)
  /-- The wait of a waiter was cancelled; it regains the condition first. -/
  | leavingWait (generation : ℕ)
  /-- `_abandon_waiting_leader` is about to enter the condition. -/
  | leavingLead (generation : ℕ)
  /-- `acquire_if` is about to take the limiter lock, or sleeps. -/
  | limiting (permit : GatePermit)
  /-- The concurrency semaphore is awaited. -/
  | slotting (permit : GatePermit)
  /-- `_abandon_probe_permit` is about to enter the condition; then the gate is
  tried again or the cancellation goes on. -/
  | abandoningPermit (permit : GatePermit) (again : Bool)
  /-- `open_attempt` has returned an attempt. -/
  | attempt (permit : GatePermit) (resolved : Bool)
  /-- An outcome is reported; the condition is not entered yet. -/
  | reporting (permit : GatePermit) (outcome : AttemptOutcome ε)
  /-- `aclose` waits for the shielded `_attempt_abandoned`. -/
  | closing (permit : GatePermit)
  /-- The shielded call is done; `aclose` has not resumed yet. -/
  | releasing
  /-- `aclose` was cancelled; the shielded call goes on by itself. -/
  | detached (permit : GatePermit)
  /-- Abandoning the permit was cancelled. -/
  | leaked (permit : GatePermit)
  | ended

structure AdmissionState (σ φ ε : Type) where
  now : ℚ
  episode : Option (RecoveryEpisode σ ε)
  nextGeneration : ℕ
  times : List ℚ
  slots : ℕ
  sessions : σ → ProviderRetrySession ε
  pc : φ → AdmissionPc ε

namespace AdmissionState

variable {σ φ ε : Type} [DecidableEq σ] [DecidableEq φ]

/-- `can_attempt` -/
def canAttempt (cfg : AdmissionConfig) (s : AdmissionState σ φ ε) (x : σ) : Bool :=
  (s.sessions x).attemptsStarted < cfg.maxAttempts

def goto (s : AdmissionState σ φ ε) (f : φ) (p : AdmissionPc ε) : AdmissionState σ φ ε :=
  { s with pc := Function.update s.pc f p }

/-! ## Sections under the condition -/

def startRecoveryEpisode (s : AdmissionState σ φ ε) (leader : Option σ) (readyAt : ℚ)
    (lastError : ε) : AdmissionState σ φ ε :=
  { s with
    nextGeneration := s.nextGeneration + 1
    episode := some
      { generation := s.nextGeneration, leader := leader, readyAt := readyAt,
        lastError := lastError } }

/-- `_matching_probe` -/
def matchingProbe (s : AdmissionState σ φ ε) (x : σ) (p : GatePermit) :
    Option (RecoveryEpisode σ ε) :=
  s.episode.filter fun e =>
    p.probe && p.generation = some e.generation && e.leader = some x && e.probeActive

/-- `_permit_is_current` -/
def permitIsCurrent (s : AdmissionState σ φ ε) (x : σ) (p : GatePermit) : Bool :=
  if p.probe = false then s.episode.isNone
  else s.episode.any fun e =>
    p.generation = some e.generation && e.terminalUntil.isNone && e.leader = some x &&
      e.probeActive

/-- Replace the open episode. -/
def setEpisode (s : AdmissionState σ φ ε) (e : RecoveryEpisode σ ε) : AdmissionState σ φ ε :=
  { s with episode := some e }

/-- `_attempt_succeeded` -/
def attemptSucceeded (s : AdmissionState σ φ ε) (x : σ) (p : GatePermit) :
    AdmissionState σ φ ε :=
  match s.matchingProbe x p with
  | none => s
  | some _ => { s with episode := none }

/-- `_attempt_corrected` -/
def attemptCorrected (s : AdmissionState σ φ ε) (x : σ) (p : GatePermit) :
    AdmissionState σ φ ε :=
  match s.matchingProbe x p with
  | none => s
  | some e => s.setEpisode { e with probeActive := false, readyAt := s.now }

/-- `_attempt_rejected` -/
def attemptRejected (s : AdmissionState σ φ ε) (x : σ) (p : GatePermit) :
    AdmissionState σ φ ε :=
  match s.matchingProbe x p with
  | none => s
  | some _ => { s with episode := none }

/-- The body that `_attempt_abandoned` and `_abandon_probe_permit` share. -/
def giveUpProbe (s : AdmissionState σ φ ε) (x : σ) (p : GatePermit) : AdmissionState σ φ ε :=
  match s.matchingProbe x p with
  | none => s
  | some e => s.setEpisode { e with leader := none, probeActive := false, readyAt := s.now }

/-- `_attempt_abandoned` -/
def attemptAbandoned (s : AdmissionState σ φ ε) (x : σ) (p : GatePermit) :
    AdmissionState σ φ ε :=
  s.giveUpProbe x p

/-- `_abandon_probe_permit` -/
def abandonProbePermit (s : AdmissionState σ φ ε) (x : σ) (p : GatePermit) :
    AdmissionState σ φ ε :=
  s.giveUpProbe x p

/-- `_fail_recovery` for every waiter of an episode. -/
def failWaiters (s : AdmissionState σ φ ε) (waiters : Finset σ) (error : ε) :
    AdmissionState σ φ ε :=
  { s with
    sessions := fun y =>
      if y ∈ waiters then { s.sessions y with terminalError := some error } else s.sessions y }

/-- Make an episode terminal and fail the callers coalesced on it. -/
def exhaustEpisode (s : AdmissionState σ φ ε) (e : RecoveryEpisode σ ε) (error : ε)
    (terminalDelay : ℚ) : AdmissionState σ φ ε :=
  (s.failWaiters e.waiters error).setEpisode
    { e with
      lastError := error
      leader := none
      probeActive := false
      terminalUntil := some (s.now + terminalDelay)
      waiters := ∅ }

/-- `_attempt_failed` -/
def attemptFailed (s : AdmissionState σ φ ε) (x : σ) (p : GatePermit) (error : ε)
    (canRetry : Bool) (delay terminalDelay : ℚ) : AdmissionState σ φ ε :=
  if canRetry then
    match s.episode, s.matchingProbe x p with
    | none, _ => s.startRecoveryEpisode (some x) (s.now + delay) error
    | some e, some _ =>
      s.setEpisode
        { e with lastError := error, probeActive := false, readyAt := s.now + delay }
    | some e, none =>
      match e.terminalUntil with
      | some _ => s.failWaiters {x} e.lastError
      | none => s.setEpisode { e with waiters := insert x e.waiters }
  else
    match s.episode, s.matchingProbe x p with
    | none, _ =>
      let s := s.startRecoveryEpisode none s.now error
      match s.episode with
      | none => s
      | some e => s.exhaustEpisode e error terminalDelay
    | some e, some _ => s.exhaustEpisode e error terminalDelay
    | some _, none => s

/-- `_abandon_waiting_leader` -/
def abandonWaitingLeader (s : AdmissionState σ φ ε) (x : σ) (generation : ℕ) :
    AdmissionState σ φ ε :=
  match s.episode with
  | none => s
  | some e =>
    if e.generation ≠ generation ∨ e.leader ≠ some x ∨ e.probeActive = true then s
    else s.setEpisode { e with leader := none }

/-- A cancelled waiter leaves the episode it waited on. -/
def discardWaiter (s : AdmissionState σ φ ε) (x : σ) (generation : ℕ) : AdmissionState σ φ ε :=
  match s.episode with
  | none => s
  | some e =>
    if e.generation = generation then s.setEpisode { e with waiters := e.waiters.erase x } else s

variable (cfg : AdmissionConfig) (owner : φ → σ)

/-- The part of the gate section about an episode that is not terminal. -/
def joinEpisode (s : AdmissionState σ φ ε) (f : φ) (e : RecoveryEpisode σ ε) :
    AdmissionState σ φ ε :=
  let e := if e.leader = none then
      { e with leader := some (owner f), waiters := e.waiters.erase (owner f) }
    else e
  if e.leader = some (owner f) then
    if e.probeActive then (s.setEpisode e).goto f .parked
    else if e.readyAt ≤ s.now then
      (s.setEpisode { e with probeActive := true }).goto f (.limiting ⟨some e.generation, true⟩)
    else (s.setEpisode e).goto f (.leading e.generation e.readyAt)
  else (s.setEpisode { e with waiters := insert (owner f) e.waiters }).goto f
    (.coalesced e.generation)

/-- The section of `_wait_for_gate` under the condition. -/
def gateSection (s : AdmissionState σ φ ε) (f : φ) : AdmissionState σ φ ε :=
  match s.episode with
  | none => s.goto f (.limiting ⟨none, false⟩)
  | some e =>
    match e.terminalUntil with
    | none => s.joinEpisode owner f e
    | some terminalUntil =>
      if s.now < terminalUntil then s.goto f .ended
      else
        let s := s.startRecoveryEpisode (some (owner f)) s.now e.lastError
        match s.episode with
        | none => s
        | some e => s.joinEpisode owner f e

/-- One round of `_wait_for_gate`: the failure of an episode the session waited on
comes before the gate. -/
def gateRound (s : AdmissionState σ φ ε) (f : φ) : AdmissionState σ φ ε :=
  match (s.sessions (owner f)).terminalError with
  | some _ => s.goto f .ended
  | none => s.gateSection owner f

/-- A leader that has slept claims the probe, unless the episode went on without it. -/
def claimProbe (s : AdmissionState σ φ ε) (f : φ) (generation : ℕ) : AdmissionState σ φ ε :=
  match s.episode with
  | none => s.goto f .gate
  | some e =>
    if e.generation = generation ∧ e.terminalUntil = none ∧ e.leader = some (owner f) ∧
        e.probeActive = false then
      (s.setEpisode { e with probeActive := true }).goto f (.limiting ⟨some generation, true⟩)
    else s.goto f .gate

/-- `_abandon_probe_permit` inside `open_attempt`; it returns at once for a permit
that is no probe. -/
def dropPermit (s : AdmissionState σ φ ε) (f : φ) (p : GatePermit) (again : Bool) :
    AdmissionState σ φ ε :=
  if p.probe then s.goto f (.abandoningPermit p again)
  else s.goto f (if again then .gate else .ended)

/-- The section of `_acquire` under the limiter lock; `elapsed` passes between its
two clock readings. -/
def limiterSection (s : AdmissionState σ φ ε) (f : φ) (p : GatePermit) (elapsed : ℚ) :
    AdmissionState σ φ ε :=
  let times := s.times.dropWhile fun t => t ≤ s.now - cfg.rateWindow
  let s := { s with times := times }
  if times.length < cfg.rateLimit then
    if s.permitIsCurrent (owner f) p then
      { s with
        now := s.now + elapsed
        times := times ++ [s.now + elapsed] }.goto f (.slotting p)
    else s.dropPermit f p true
  else s

/-- What `open_attempt` does once it has a slot. -/
def slotSection (s : AdmissionState σ φ ε) (f : φ) (p : GatePermit) : AdmissionState σ φ ε :=
  if s.permitIsCurrent (owner f) p = false then s.dropPermit f p true
  else if s.canAttempt cfg (owner f) = false then s.dropPermit f p false
  else
    { s with
      slots := s.slots - 1
      sessions := Function.update s.sessions (owner f)
        { s.sessions (owner f) with
          attemptsStarted := (s.sessions (owner f)).attemptsStarted + 1 } }.goto f
      (.attempt p false)

/-- The section of a reported outcome. -/
def outcomeSection (s : AdmissionState σ φ ε) (x : σ) (p : GatePermit) :
    AttemptOutcome ε → AdmissionState σ φ ε
  | .succeeded => s.attemptSucceeded x p
  | .corrected => s.attemptCorrected x p
  | .rejected => s.attemptRejected x p
  | .failed error canRetry delay terminalDelay =>
    s.attemptFailed x p error canRetry delay terminalDelay

/-! ## Steps -/

/-- What the owner of an attempt calls; a failure samples its two jitters. -/
inductive Report (ε : Type) where
  | succeeded
  | corrected
  | rejected
  | failed (error : ε) (retryAfter : Option ℚ) (sample terminalSample : ℚ)

inductive Action (ε : Type) where
  /-- Call `open_attempt`. -/
  | begin
  /-- Run the next section, once what it waits for is there. -/
  | advance
  /-- Run the section under the limiter lock. -/
  | pace (elapsed : ℚ)
  /-- A wait on the condition ends, by a notification or a passed-on wake-up. -/
  | wake
  | report (r : Report ε)
  | close
  /-- A cancellation is delivered at the point of suspension. -/
  | cancel

/-- An outcome with what is computed before the condition is entered. -/
def outcomeOf (s : AdmissionState σ φ ε) (x : σ) : Report ε → AttemptOutcome ε
  | .succeeded => .succeeded
  | .corrected => .corrected
  | .rejected => .rejected
  | .failed error retryAfter sample terminalSample =>
    let attempts := (s.sessions x).attemptsStarted
    .failed error (s.canAttempt cfg x) (cfg.retryDelay attempts sample retryAfter)
      (cfg.retryDelay attempts terminalSample retryAfter)

/-- An outcome other than a failure returns at once for a permit that is no probe. -/
def reportOutcome (s : AdmissionState σ φ ε) (f : φ) (p : GatePermit) (r : Report ε) :
    AdmissionState σ φ ε :=
  match r with
  | .failed .. => s.goto f (.reporting p (s.outcomeOf cfg (owner f) r))
  | _ => if p.probe then s.goto f (.reporting p (s.outcomeOf cfg (owner f) r))
    else s.goto f (.attempt p true)

/-- `_release_concurrency` -/
def release (s : AdmissionState σ φ ε) : AdmissionState σ φ ε := { s with slots := s.slots + 1 }

def advance (s : AdmissionState σ φ ε) (f : φ) : Option (AdmissionState σ φ ε) :=
  match s.pc f with
  | .gate => some (s.gateRound owner f)
  | .leading generation wakeAt =>
    if wakeAt ≤ s.now then some (s.claimProbe owner f generation) else none
  | .leavingWait generation => some ((s.discardWaiter (owner f) generation).goto f .ended)
  | .leavingLead generation => some ((s.abandonWaitingLeader (owner f) generation).goto f .ended)
  | .slotting p => if 0 < s.slots then some (s.slotSection cfg owner f p) else none
  | .abandoningPermit p again =>
    some ((s.abandonProbePermit (owner f) p).goto f (if again then .gate else .ended))
  | .reporting p o => some ((s.outcomeSection (owner f) p o).goto f (.attempt p true))
  | .closing p => some ((s.attemptAbandoned (owner f) p).goto f .releasing)
  | .releasing => some (s.release.goto f .ended)
  | .detached p => some ((s.attemptAbandoned (owner f) p).goto f .ended)
  | _ => none

def cancel (s : AdmissionState σ φ ε) (f : φ) : Option (AdmissionState σ φ ε) :=
  match s.pc f with
  | .gate | .parked | .leavingLead _ => some (s.goto f .ended)
  | .coalesced generation => some (s.goto f (.leavingWait generation))
  | .leading generation _ => some (s.goto f (.leavingLead generation))
  | .limiting p | .slotting p => some (s.dropPermit f p false)
  | .abandoningPermit p again =>
    some (s.goto f (if again then .abandoningPermit p false else .leaked p))
  | .reporting p _ => some (s.goto f (.attempt p false))
  | .closing p => some (s.release.goto f (.detached p))
  | .releasing => some (s.release.goto f .ended)
  | _ => none

def act (s : AdmissionState σ φ ε) (f : φ) : Action ε → Option (AdmissionState σ φ ε)
  | .begin => match s.pc f with
    | .idle => some (s.goto f (if s.canAttempt cfg (owner f) then .gate else .ended))
    | _ => none
  | .advance => s.advance cfg owner f
  | .pace elapsed => match s.pc f with
    | .limiting p => if 0 ≤ elapsed then some (s.limiterSection cfg owner f p elapsed) else none
    | _ => none
  | .wake => match s.pc f with
    | .coalesced _ | .parked => some (s.goto f .gate)
    | _ => none
  | .report r => match s.pc f with
    | .attempt p false => some (s.reportOutcome cfg owner f p r)
    | _ => none
  | .close => match s.pc f with
    | .attempt _ true => some (s.release.goto f .ended)
    | .attempt p false => some (s.goto f (.closing p))
    | _ => none
  | .cancel => s.cancel f

def fresh (now : ℚ) : AdmissionState σ φ ε where
  now := now
  episode := none
  nextGeneration := 1
  times := []
  slots := cfg.maxConcurrency
  sessions := fun _ => {}
  pc := fun _ => .idle

/-- A step of a frame, or the passing of time. -/
inductive Label (φ ε : Type) where
  | frame (f : φ) (a : Action ε)
  | tick (elapsed : ℚ)

end AdmissionState

open AdmissionState

/-- Runs of one controller whose frames take steps in any order. -/
def admissionSystem {σ φ : Type} (ε : Type) [DecidableEq σ] [DecidableEq φ]
    (cfg : AdmissionConfig) (owner : φ → σ) : System (AdmissionState σ φ ε) (Label φ ε) where
  init s := ∃ now, s = fresh cfg now
  step s l t := match l with
    | .frame f a => s.act cfg owner f a = some t
    | .tick elapsed => 0 ≤ elapsed ∧ t = { s with now := s.now + elapsed }

end Switchboard.Providers
