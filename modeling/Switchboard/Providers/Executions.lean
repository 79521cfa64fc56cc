import Switchboard.Providers.Admission
import Switchboard.Providers.StreamRecovery

/-!
# The provider executions that drive admission

The retry loops of `openai_chat/provider.py`, `openai_codex/provider.py` and the two
of `opencode_go/provider.py`, as far as they touch admission. An execution owns one
retry session; `point` says at which of its awaits it is. The recovery of a chat
stream collects more attempts of the same session while the interrupted attempt is
still open; that attempt is `outer`.
-/

namespace Switchboard.Providers

inductive LoopKind where
  | openaiChat | codex | goResponses | goMessages
deriving DecidableEq, Repr

/-- How a loop goes on once its `finally` clauses are done. -/
inductive Verdict where
  /-- The loop begins another round. -/
  | again
  /-- A chat stream collects recovery output before its `finally` clauses. -/
  | recover
  /-- The attempt gave what it was opened for. -/
  | finish
  /-- The failure is raised. -/
  | leave
deriving DecidableEq, Repr

/-- What an execution does with its attempt once an outcome is recorded. -/
inductive Resumption where
  | accepted
  | corrected
  /-- `attempt.retry` classified the failure; the error as the stream sees it. -/
  | retried (retryable streamRetryable shouldRetry : Bool)
deriving DecidableEq, Repr

/-- The awaits of an execution. -/
inductive ExecutionPoint (φ : Type) where
  /-- The top of the loop, outside any attempt. -/
  | preparing
  /-- In `open_attempt`. -/
  | opening (f : φ)
  /-- A cancellation passes through `open_attempt`. -/
  | unwinding (f : φ)
  /-- The attempt is open: the upstream request and stream, and what is yielded. -/
  | serving (f : φ)
  /-- An outcome is reported. -/
  | reporting (f : φ) (next : Resumption)
  /-- The response or stream is closed. -/
  | cleaning (f : φ) (v : Verdict)
  /-- In `attempt.aclose`. -/
  | closing (f : φ) (v : Verdict)
  /-- Between two collections of recovery output. -/
  | recovering
  | ended

structure Execution (φ : Type) where
  kind : LoopKind
  point : ExecutionPoint φ := .preparing
  outer : Option φ := none
  streamOpened : Bool := false
  committed : Bool := false
  accepted : Bool := false

/-- The failure of an attempt as the loop sees it. -/
structure AttemptFailure where
  /-- `is_retryable_provider_error` after the provider's override. -/
  retryable : Bool
  /-- `is_retryable_stream_error` -/
  streamRetryable : Bool
  generatedOutput : Bool
  toolSalvageable : Bool

namespace Execution

variable {φ : Type}

/-- The handler calls `attempt.retry`. -/
def reportsFailure (e : Execution φ) : Bool :=
  match e.kind with
  | .openaiChat =>
    !e.streamOpened || !e.accepted && (e.outer.isSome || !e.committed)
  | .codex | .goResponses => !e.accepted && !e.committed
  | .goMessages => !e.streamOpened

/-- What the loop does about a failed attempt. `reported` holds the classification of
`attempt.retry` and what it returned, when it was called. -/
def verdict (e : Execution φ) (failure : AttemptFailure) (attemptsRemaining : ℕ)
    (reported : Option (Bool × Bool)) : Verdict :=
  let shouldRetry := (reported.map Prod.snd).getD false
  let decision := StreamFailure.decide
    { errorRetryable := failure.streamRetryable
      streamOpened := e.streamOpened
      generatedOutput :=
        if e.kind = .openaiChat then failure.generatedOutput else e.committed
      completeToolSalvageable :=
        if e.kind = .openaiChat then failure.toolSalvageable else false
      attemptsRemaining := attemptsRemaining
      retryableOverride := reported.map Prod.fst } e.committed true
  match e.kind with
  | .openaiChat =>
    if e.streamOpened = false then
      -- `_create_stream`; its error reaches a handler that has no attempt
      if shouldRetry then .again
      else if e.outer.isSome && failure.streamRetryable && 0 < attemptsRemaining then .again
      else .leave
    else if e.outer.isSome then
      -- `_collect_recovery_output`
      if ((reported.map Prod.fst).getD failure.streamRetryable) && 0 < attemptsRemaining then .again
      else .leave
    else match decision.action with
      | .earlyRetry => .again
      | .midstreamRecovery => .recover
      | .finalError => .leave
  | .codex =>
    if !decision.committed && decision.retryable && 0 < attemptsRemaining then .again else .leave
  | .goResponses =>
    if shouldRetry && !e.streamOpened && 0 < attemptsRemaining ||
        !decision.committed && decision.retryable && 0 < attemptsRemaining then .again
    else .leave
  | .goMessages => if shouldRetry then .again else .leave

/-- Closing the stream swallows an exception; otherwise `attempt.aclose` is skipped. -/
def swallowsClose (e : Execution φ) : Bool :=
  match e.kind with
  | .openaiChat => e.outer.isNone || !e.streamOpened
  | .goResponses => true
  | .codex | .goMessages => false

/-- The execution raises or returns; recovery output goes to the open chat stream. -/
def leaveTo (e : Execution φ) : Execution φ :=
  match e.outer with
  | none => { e with point := .ended }
  | some m => { e with outer := none, streamOpened := true, point := .cleaning m .leave }

/-- What follows the `finally` clauses of a round. -/
def nextRound (e : Execution φ) : Verdict → Execution φ
  | .again => { e with point := .preparing, streamOpened := false, accepted := false }
  | .finish => if e.outer.isSome then { e with point := .recovering } else { e with point := .ended }
  | .recover | .leave => e.leaveTo

/-- What follows the handler: `finally`, or for a chat stream first its recovery. -/
def proceed (e : Execution φ) (f : φ) : Verdict → Execution φ
  | .recover => { e with point := .recovering, outer := some f }
  | v => { e with point := .cleaning f v }

/-- The Messages loop closes its response before it reports, so there is no await
between its report and `attempt.aclose`. -/
def awaitsClose (e : Execution φ) : Bool := e.kind ≠ .goMessages || e.streamOpened

end Execution

/-- One controller and the executions of its sessions. -/
structure ProviderState (σ φ ε : Type) where
  adm : AdmissionState σ φ ε
  exec : σ → Execution φ

/-- What an execution does next. -/
inductive ExecAction (φ ε : Type) where
  | openAttempt (f : φ)
  /-- The loop ends because no attempt is left. -/
  | exhaust
  /-- `open_attempt` returned. -/
  | opened
  /-- `open_attempt` raised. -/
  | refused
  /-- Upstream answered: the stream is open. -/
  | served
  /-- Held events are released to the client. -/
  | commit
  | accept
  /-- `retry_immediately` for a corrected request. -/
  | correct
  /-- The attempt raised an exception. -/
  | fail (failure : AttemptFailure) (report : AdmissionState.Report ε)
  /-- An exception outside any attempt that the handler sees. -/
  | failOutside (streamRetryable : Bool)
  | finish
  | collect
  | settle
  /-- An exception is delivered at the await; `cancelled` for a cancellation or the
  closing of the generator. -/
  | interrupt (cancelled : Bool)
  /-- The await is over. -/
  | resume

namespace ProviderState

variable {σ φ ε : Type} [DecidableEq σ] [DecidableEq φ] (cfg : AdmissionConfig) (owner : φ → σ)

def setExec (s : ProviderState σ φ ε) (x : σ) (e : Execution φ) : ProviderState σ φ ε :=
  { s with exec := Function.update s.exec x e }

/-- `attempts_remaining` -/
def attemptsRemaining (s : ProviderState σ φ ε) (x : σ) : ℕ :=
  cfg.maxAttempts - (s.adm.sessions x).attemptsStarted

/-- A call into admission that leaves the execution at a point. -/
def callAdmission (s : ProviderState σ φ ε) (x : σ) (f : φ) (a : AdmissionState.Action ε)
    (e : Execution φ) : Option (ProviderState σ φ ε) :=
  (s.adm.act cfg owner f a).map fun adm => { s with adm := adm }.setExec x e

/-- The classification that `attempt.retry` reports. -/
def classified (failure : AttemptFailure) (r : AdmissionState.Report ε) : AdmissionState.Report ε :=
  if failure.retryable then r else .rejected

/-- The report is that of a failure. -/
def isFailed : AdmissionState.Report ε → Bool
  | .failed .. => true
  | _ => false

/-- An exception delivered at an await. -/
def interrupt (s : ProviderState σ φ ε) (x : σ) (cancelled : Bool) :
    Option (ProviderState σ φ ε) :=
  let e := s.exec x
  match e.point with
  | .preparing =>
    if cancelled ∧ e.outer = none ∧ (e.kind = .openaiChat ∨ e.kind = .codex) then
      some (s.setExec x { e with point := .ended })
    else none
  | .opening f | .unwinding f =>
    if cancelled then s.callAdmission cfg owner x f .cancel { e with point := .unwinding f }
    else none
  | .serving f => if cancelled then some (s.setExec x { e with point := .cleaning f .leave }) else none
  | .reporting f _ =>
    if cancelled then s.callAdmission cfg owner x f .cancel { e with point := .cleaning f .leave }
    else none
  | .cleaning f v =>
    if e.awaitsClose = false then none
    else if cancelled = false ∧ e.swallowsClose = true then
      s.callAdmission cfg owner x f .close { e with point := .closing f v }
    else some (s.setExec x e.leaveTo)
  | .closing f _ => if cancelled then s.callAdmission cfg owner x f .cancel e.leaveTo else none
  | .recovering | .ended => none

/-- The await of an execution is over. -/
def resume (s : ProviderState σ φ ε) (x : σ) : Option (ProviderState σ φ ε) :=
  let e := s.exec x
  match e.point with
  | .unwinding f => match s.adm.pc f with
    | .ended | .leaked _ => some (s.setExec x e.leaveTo)
    | _ => none
  | .reporting f next => match s.adm.pc f with
    | .attempt _ true => match next with
      | .accepted => some (s.setExec x { e with accepted := true, point := .serving f })
      | .corrected => some (s.setExec x (e.proceed f .again))
      | .retried retryable streamRetryable shouldRetry =>
        some (s.setExec x (e.proceed f (e.verdict ⟨retryable, streamRetryable, false, false⟩
          (s.attemptsRemaining cfg x) (some (retryable, shouldRetry)))))
    | _ => none
  | .cleaning f v => s.callAdmission cfg owner x f .close { e with point := .closing f v }
  | .closing f v => match s.adm.pc f with
    | .ended => some (s.setExec x (e.nextRound v))
    | _ => none
  | _ => none

def execAct (s : ProviderState σ φ ε) (x : σ) : ExecAction φ ε → Option (ProviderState σ φ ε)
  | .openAttempt f => match (s.exec x).point with
    | .preparing =>
      if owner f = x ∧ ((s.exec x).kind = .goMessages ∨ s.adm.canAttempt cfg x = true) then
        s.callAdmission cfg owner x f .begin { s.exec x with point := .opening f }
      else none
    | _ => none
  | .exhaust => match (s.exec x).point with
    | .preparing =>
      if (s.exec x).kind ≠ .goMessages ∧ s.adm.canAttempt cfg x = false then
        some (s.setExec x (s.exec x).leaveTo)
      else none
    | _ => none
  | .opened => match (s.exec x).point with
    | .opening f => match s.adm.pc f with
      | .attempt _ false => some (s.setExec x { s.exec x with point := .serving f })
      | _ => none
    | _ => none
  | .refused => match (s.exec x).point with
    | .opening f => match s.adm.pc f with
      | .ended => some (s.setExec x (s.exec x).leaveTo)
      | _ => none
    | _ => none
  | .served => match (s.exec x).point with
    | .serving _ => some (s.setExec x { s.exec x with streamOpened := true })
    | _ => none
  | .commit => match (s.exec x).point with
    | .preparing | .serving _ => some (s.setExec x { s.exec x with committed := true })
    | _ => none
  | .accept => match (s.exec x).point with
    | .serving f =>
      if (s.exec x).streamOpened = true ∧ (s.exec x).accepted = false then
        s.callAdmission cfg owner x f (.report .succeeded)
          { s.exec x with point := .reporting f .accepted }
      else none
    | _ => none
  | .correct => match (s.exec x).point with
    | .serving f =>
      -- only the chat loop asks whether an attempt is left
      if (s.exec x).streamOpened = false ∧
          ((s.exec x).kind = .openaiChat ∧ s.adm.canAttempt cfg x = true ∨
            (s.exec x).kind = .codex) then
        s.callAdmission cfg owner x f (.report .corrected)
          { s.exec x with point := .reporting f .corrected }
      else none
    | _ => none
  | .fail failure report => match (s.exec x).point with
    | .serving f =>
      -- output is generated by accepted attempts only
      if (failure.generatedOutput = true → (s.exec x).accepted = true) ∧
          (failure.toolSalvageable = true → failure.generatedOutput = true) ∧
          isFailed report = true then
        if (s.exec x).reportsFailure then
          s.callAdmission cfg owner x f (.report (classified failure report))
            { s.exec x with
              point := .reporting f (.retried failure.retryable failure.streamRetryable
                (failure.retryable && s.adm.canAttempt cfg x)) }
        else
          some (s.setExec x ((s.exec x).proceed f
            ((s.exec x).verdict failure (s.attemptsRemaining cfg x) none)))
      else none
    | _ => none
  | .failOutside streamRetryable => match (s.exec x).point with
    | .preparing =>
      -- `auth.access` of the Codex loop
      if (s.exec x).kind = .codex then
        if (s.exec x).committed = false ∧ streamRetryable = true ∧ s.adm.canAttempt cfg x = true
        then some s
        else some (s.setExec x { s.exec x with point := .ended })
      else none
    | _ => none
  | .finish => match (s.exec x).point with
    | .serving f =>
      if (s.exec x).accepted then some (s.setExec x { s.exec x with point := .cleaning f .finish })
      else none
    | _ => none
  | .collect => match (s.exec x).point with
    | .recovering =>
      if s.adm.canAttempt cfg x then
        some (s.setExec x
          { s.exec x with point := .preparing, streamOpened := false, accepted := false })
      else none
    | _ => none
  | .settle => match (s.exec x).point with
    | .recovering => some (s.setExec x (s.exec x).leaveTo)
    | _ => none
  | .interrupt cancelled => s.interrupt cfg owner x cancelled
  | .resume => s.resume cfg owner x

/-- A step of an execution, of admission on its behalf, or the passing of time. -/
inductive Label (σ φ ε : Type) where
  | exec (x : σ) (a : ExecAction φ ε)
  | frame (f : φ) (a : AdmissionState.Action ε)
  | tick (elapsed : ℚ)

/-- The steps that a frame takes by itself. -/
def internal : AdmissionState.Action ε → Bool
  | .advance | .pace _ | .wake => true
  | _ => false

def fresh (now : ℚ) (kind : σ → LoopKind) : ProviderState σ φ ε where
  adm := .fresh cfg now
  exec := fun x => { kind := kind x }

end ProviderState

open ProviderState

/-- Runs of one controller driven by one execution for each session. -/
def providerSystem {σ φ : Type} (ε : Type) [DecidableEq σ] [DecidableEq φ]
    (cfg : AdmissionConfig) (owner : φ → σ) : System (ProviderState σ φ ε) (Label σ φ ε) where
  init s := ∃ now kind, s = fresh cfg now kind
  step s l t := match l with
    | .exec x a => s.execAct cfg owner x a = some t
    | .frame f a => internal a = true ∧
        (s.adm.act cfg owner f a).map (fun adm => { s with adm := adm }) = some t
    | .tick elapsed => 0 ≤ elapsed ∧
        t = { s with adm := { s.adm with now := s.adm.now + elapsed } }

end Switchboard.Providers
