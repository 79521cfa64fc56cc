import Mathlib.Data.Rat.Defs
import Mathlib.Tactic

/-!
# Stream holdback and recovery decisions

`RecoveryHoldbackBuffer` and `RecoveryController` of `providers/stream_recovery.py`.
An event is any value with a size in bytes; clock readings are arguments.
-/

namespace Switchboard.Providers

/-- Briefly retains events so that early cutoffs can be retried invisibly. -/
structure RecoveryHoldbackBuffer (α : Type) where
  holdbackSeconds : ℚ
  maxBytes : ℕ
  events : List α := []
  bytes : ℕ := 0
  startedAt : Option ℚ := none
  committed : Bool := false

namespace RecoveryHoldbackBuffer

variable {α : Type}

/-- Release what is held; later events are no longer held. -/
def flush (b : RecoveryHoldbackBuffer α) : List α × RecoveryHoldbackBuffer α :=
  if b.committed then ([], b)
  else (b.events, { b with committed := true, events := [], bytes := 0, startedAt := none })

/-- `push`, with the clock readings when holding starts and when it is compared. -/
def push (b : RecoveryHoldbackBuffer α) (size : α → ℕ) (event : α) (started now : ℚ) :
    List α × RecoveryHoldbackBuffer α :=
  if b.committed then ([event], b)
  else
    let startedAt := b.startedAt.getD started
    let b := { b with
      startedAt := some startedAt
      events := b.events ++ [event]
      bytes := b.bytes + size event }
    if b.maxBytes ≤ b.bytes ∨ b.holdbackSeconds ≤ now - startedAt then b.flush else ([], b)

def restartDeadline (b : RecoveryHoldbackBuffer α) (now : ℚ) : RecoveryHoldbackBuffer α :=
  if b.committed ∨ b.events = [] then b else { b with startedAt := some now }

def discard (b : RecoveryHoldbackBuffer α) : RecoveryHoldbackBuffer α :=
  { b with events := [], bytes := 0, startedAt := none }

def hasBuffered (b : RecoveryHoldbackBuffer α) : Bool := !b.events.isEmpty

/-- `_new_holdback`: an empty buffer with the same limits. -/
def renew (b : RecoveryHoldbackBuffer α) : RecoveryHoldbackBuffer α :=
  { holdbackSeconds := b.holdbackSeconds, maxBytes := b.maxBytes }

end RecoveryHoldbackBuffer

inductive RecoveryFailureAction where
  | earlyRetry | midstreamRecovery | finalError
deriving DecidableEq, Repr

structure RecoveryDecision where
  action : RecoveryFailureAction
  retryable : Bool
  committed : Bool
  hasBuffered : Bool
deriving DecidableEq, Repr

/-- What a provider loop tells `advance_failure` about a failed attempt. -/
structure StreamFailure where
  /-- `is_retryable_stream_error` of the error. -/
  errorRetryable : Bool
  streamOpened : Bool
  generatedOutput : Bool
  completeToolSalvageable : Bool
  attemptsRemaining : ℕ
  retryableOverride : Option Bool := none

/-- The decision of `advance_failure` for a buffer that is committed or holds events. -/
def StreamFailure.decide (e : StreamFailure) (committed hasBuffered : Bool) : RecoveryDecision :=
  let retryable := e.retryableOverride.getD e.errorRetryable
  if retryable && 0 < e.attemptsRemaining && e.streamOpened && !committed &&
      !e.completeToolSalvageable && !(e.generatedOutput && e.attemptsRemaining = 1) then
    ⟨.earlyRetry, true, false, hasBuffered⟩
  else if retryable && e.generatedOutput &&
      (0 < e.attemptsRemaining || e.completeToolSalvageable) then
    ⟨.midstreamRecovery, true, committed, hasBuffered⟩
  else ⟨.finalError, retryable, committed, hasBuffered⟩

namespace RecoveryHoldbackBuffer

variable {α : Type}

/-- `advance_failure`: an early retry starts over with an empty buffer. -/
def advanceFailure (b : RecoveryHoldbackBuffer α) (e : StreamFailure) :
    RecoveryDecision × RecoveryHoldbackBuffer α :=
  let decision := e.decide b.committed b.hasBuffered
  (decision, if decision.action = .earlyRetry then b.renew else b)

/-- `flush_uncommitted` -/
def flushUncommitted (b : RecoveryHoldbackBuffer α) (d : RecoveryDecision) :
    List α × RecoveryHoldbackBuffer α :=
  if d.committed = false ∧ d.hasBuffered = true then b.flush else ([], b)

end RecoveryHoldbackBuffer

end Switchboard.Providers
