import Switchboard.Library.Run

/-!
# Responses that hold a runtime resource

`api/response_streams.py`: a managed streaming response closes its body and releases its resource
in one cleanup task, which every caller that executes or closes the response waits for. The trace
rows are left out.
-/

namespace Switchboard.Api.ResponseStreams

/-- An `Exception`, with the name of its class; a `CancelledError`; or another `BaseException`,
such as a `BaseExceptionGroup`. -/
inductive Raised
  | exception (name : String)
  | cancelled
  | base (name : String)
  deriving DecidableEq

/-- How an awaited call ends: it returns, or it raises. -/
abbrev Outcome := Option Raised

/-- `except Exception`: what is left to propagate. -/
def Outcome.suppressed : Outcome → Outcome
  | some (.exception _) => none
  | outcome => outcome

/-- `close_stream_input`, by how the `aclose` of the iterator ends. An iterator that cannot be
closed is one whose `aclose` returns. -/
def closeStreamInput (closed : Outcome) : Outcome := closed.suppressed

/-- The cleanup task, with how the close of the body ended. -/
inductive CleanupTask
  | scheduled
  | closing
  | releasing (closed : Outcome)
  | done (closed result : Outcome)
  deriving DecidableEq

/-- A caller that is in `__call__` of Starlette, one that waits for the cleanup task and may have
been cancelled since, or one that is through. `preserved` is what the stream raised. -/
inductive Caller
  | streaming
  | waiting (preserved : Outcome) (cancellation : Bool)
  | finished (outcome : Outcome)
  deriving DecidableEq

structure ManagedStreamingResponse (ρ : Type) where
  release : Option ρ := none
  cleanup : Option CleanupTask := none
  callers : List Caller := []
  /-- The releases that were called. -/
  calls : List ρ := []

/-- What `_wait_for_cleanup` raises once the task is done. A caller in its loop (`waited`) is not
spared an `Exception` of the task. -/
def waitForCleanup (result : Outcome) (waited cancellation : Bool) : Outcome :=
  match result with
  | none => if cancellation then some .cancelled else none
  | some .cancelled => some .cancelled
  | some (.base name) => some (.base name)
  | some (.exception name) =>
    if waited then some (.exception name) else if cancellation then some .cancelled else none

/-- The end of `finally`: what it raises replaces what the stream raised. -/
def afterCleanup (preserved raised : Outcome) : Outcome := raised.orElse fun _ => preserved

namespace ManagedStreamingResponse

variable {ρ : Type} (s : ManagedStreamingResponse ρ)

def bindRelease (release : ρ) : Except String (ManagedStreamingResponse ρ) :=
  if s.release.isSome then .error "A response resource release is already bound."
  else if s.cleanup.isSome then
    .error "Cannot bind a resource after response cleanup started."
  else .ok { s with release := some release }

/-- `_close`, for a caller that has not waited yet: the state, and what the caller does next. -/
def close (preserved : Outcome) : ManagedStreamingResponse ρ × Caller :=
  match s.cleanup with
  | none => ({ s with cleanup := some .scheduled }, .waiting preserved false)
  | some (.done _ result) =>
    (s, .finished (afterCleanup preserved (waitForCleanup result false false)))
  | some _ => (s, .waiting preserved false)

/-- `_cleanup` after the body was closed, up to the end or the wait for the release. -/
def afterBodyClosed (closed : Outcome) : ManagedStreamingResponse ρ :=
  match (closeStreamInput closed).suppressed with
  | some raised => { s with cleanup := some (.done closed (some raised)) }
  | none =>
    match s.release with
    | none => { s with cleanup := some (.done closed none) }
    | some release =>
      { s with cleanup := some (.releasing closed), calls := s.calls ++ [release] }

end ManagedStreamingResponse

/-- What happens to a response. A stream ends as it likes: at its end, by a failure of the body,
by a client that is gone, or cancelled. -/
inductive ResponseEvent (ρ : Type)
  | bindRelease (release : ρ)
  | execute
  | aclose
  | streamEnds (caller : ℕ) (outcome : Outcome)
  | cancel (caller : ℕ)
  | wake (caller : ℕ)
  | startCleanup
  | bodyCloses (outcome : Outcome)
  | releaseReturns (outcome : Outcome)

variable {ρ : Type}

/-- One event, if it can happen. -/
def ManagedStreamingResponse.step (s : ManagedStreamingResponse ρ) :
    ResponseEvent ρ → Option (ManagedStreamingResponse ρ)
  | .bindRelease release =>
    match s.bindRelease release with
    | .ok t => some t
    | .error _ => some s
  | .execute => some { s with callers := s.callers ++ [.streaming] }
  | .aclose =>
    let closing := s.close none
    some { closing.1 with callers := s.callers ++ [closing.2] }
  | .streamEnds i outcome =>
    match s.callers[i]? with
    | some .streaming =>
      let closing := s.close outcome
      some { closing.1 with callers := s.callers.set i closing.2 }
    | _ => none
  | .cancel i =>
    match s.callers[i]? with
    | some (.waiting preserved _) =>
      let cancelled := Caller.waiting preserved true
      some { s with callers := s.callers.set i cancelled }
    | _ => none
  | .wake i =>
    match s.callers[i]?, s.cleanup with
    | some (.waiting preserved cancellation), some (.done _ result) =>
      let raised := waitForCleanup result true cancellation
      some { s with callers := s.callers.set i (.finished (afterCleanup preserved raised)) }
    | _, _ => none
  | .startCleanup =>
    match s.cleanup with
    | some .scheduled => some { s with cleanup := some .closing }
    | _ => none
  | .bodyCloses outcome =>
    match s.cleanup with
    | some .closing => some (s.afterBodyClosed outcome)
    | _ => none
  | .releaseReturns outcome =>
    match s.cleanup with
    | some (.releasing closed) =>
      some { s with cleanup := some (.done closed outcome.suppressed) }
    | _ => none

/-- All runs of a response. -/
def responseSystem (ρ : Type) : System (ManagedStreamingResponse ρ) (ResponseEvent ρ) where
  init s := s = {}
  step s event t := s.step event = some t

/-- A response object: a managed one, another streaming one with the way its body closes, or any
other object. -/
inductive Response (ρ : Type)
  | managed (response : ManagedStreamingResponse ρ)
  | streaming (closed : Outcome)
  | other

/-- What `bind_response_lifetime` returns or raises, and the releases it calls; `released` is how a
call of the release ends. -/
def bindResponseLifetime (response : Response ρ) (release : ρ) (released : Outcome) :
    Except Raised (Response ρ) × List ρ :=
  match response with
  | .managed s =>
    match s.bindRelease release with
    | .ok t => (.ok (.managed t), [])
    | .error _ => (.error (.exception "RuntimeError"), [])
  | .streaming closed =>
    -- the `finally` clause: what the release raises replaces what the close raised
    match afterCleanup (closeStreamInput closed) released with
    | some raised => (.error raised, [release])
    | none => (.error (.exception "TypeError"), [release])
  | .other =>
    match released with
    | some raised => (.error raised, [release])
    | none => (.ok .other, [release])

end Switchboard.Api.ResponseStreams
