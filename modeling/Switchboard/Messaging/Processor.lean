import Switchboard.Messaging.ClaimTombstone

/-!
# The tasks of claims

`trees/processor.py`, with the sections of `trees/manager.py` that launch, cancel and
finish claims. Tree objects are numbered, so that a slot may hold one that is no longer
published. A step is what one task does between two of its awaits; a section under the
manager lock is one step. `asyncio.create_task` does not raise.
-/

namespace Switchboard.Messaging

inductive CancellationReason where
  | stop | clear
deriving DecidableEq, Repr

/-- Where the task of a claim stands. -/
inductive TaskPhase where
  | created
  /-- The started and queue callbacks are awaited. -/
  | announcing
  /-- `node_processor` is awaited. -/
  | running
  /-- `claim_failure_callback` is awaited. -/
  | failing
  /-- `_finish_and_continue`, until its callback has the manager lock. -/
  | finishing
  | done
deriving DecidableEq, Repr

/-- Where `_recover_unentered_task` stands. -/
inductive RecoveryPhase where
  | none
  /-- The task of the claim is awaited. -/
  | waiting
  | finishing
  | done
deriving DecidableEq, Repr

structure TaskSlot where
  tree : ℕ
  claim : NodeClaim
  announceStarted : Bool := false
  queue : List QueueEntry := []
  phase : TaskPhase := .created
  /-- `task.cancel()` was called before the task was done. -/
  cancelled : Bool := false
  /-- `_task_done` has run. -/
  doneCallback : Bool := false
  runnerStarted : Bool := false
  transitioned : Bool := false
  recovery : RecoveryPhase := .none
  cancellationRequested : Bool := false
  cancellationReason : Option CancellationReason := none

namespace TaskSlot

/-- The `finally` block of `_run_claim`. -/
def leaveBody (slot : TaskSlot) : TaskSlot :=
  { slot with phase := if slot.transitioned then .done else .finishing }

/-- The runner starts unless a cancellation was requested. -/
def enterRunner (slot : TaskSlot) : TaskSlot :=
  if slot.cancellationRequested then slot.leaveBody
  else { slot with runnerStarted := true, phase := .running }

/-- The first step of the task. A task cancelled before it ends without its body. -/
def begin (slot : TaskSlot) : TaskSlot :=
  if slot.cancelled then { slot with phase := .done }
  else if slot.announceStarted then { slot with phase := .announcing }
  else slot.enterRunner

/-- What `_task_done` does to a slot that may be attached. -/
def taskDone (slot : TaskSlot) (attached : Bool) : TaskSlot :=
  { slot with
    doneCallback := true
    recovery :=
      if attached ∧ slot.transitioned = false ∧ slot.recovery = .none then .waiting
      else slot.recovery }

/-- What `cancel` does to an attached slot. -/
def cancel (slot : TaskSlot) (reason : Option CancellationReason) : TaskSlot :=
  let slot := { slot with cancellationRequested := true, cancellationReason := reason }
  if slot.phase = .done then slot
  else
    let slot := { slot with cancelled := true }
    if slot.runnerStarted then slot
    else if slot.recovery = .none then { slot with recovery := .waiting }
    else slot

end TaskSlot

/-- The steps of the task and of its recovery that touch the slot alone. -/
inductive TaskStep where
  | begin
  | announced (cancelled : Bool)
  | leave (failed : Bool)
  | failureHandled
  | taskDone
  | recover
deriving DecidableEq, Repr

/-- A step that is not due changes nothing. -/
def TaskSlot.step (slot : TaskSlot) (attached : Bool) : TaskStep → TaskSlot
  | .begin => if slot.phase = .created then slot.begin else slot
  | .announced cancelled =>
    if slot.phase = .announcing then if cancelled then slot.leaveBody else slot.enterRunner
    else slot
  | .leave failed =>
    if slot.phase = .running then if failed then { slot with phase := .failing } else slot.leaveBody
    else slot
  | .failureHandled => if slot.phase = .failing then slot.leaveBody else slot
  | .taskDone =>
    if slot.phase = .done ∧ slot.doneCallback = false then slot.taskDone attached else slot
  | .recover =>
    if slot.phase = .done ∧ slot.recovery = .waiting then
      { slot with recovery := if slot.transitioned then .done else .finishing }
    else slot

/-- What a completion callback raises. -/
inductive CompletionFailure where
  | fault (f : Fault)
  | runtimeError (message : String)
deriving DecidableEq, Repr

/-- A finish transition that released a claim. -/
structure FinishedClaim where
  claimId : String
  next : Option String
  published : Bool
deriving DecidableEq, Repr

/-- Tree objects and the processor. The last three fields are history, which no
function reads: launches, finish transitions with effect, and the number of slots
at each return of `wait_idle`. -/
structure ProcessorState where
  trees : List MessageTree := []
  published : List ℕ := []
  /-- Every slot made so far, by its claim. -/
  objects : Dict String TaskSlot := .empty
  /-- The keys of `_tasks`. -/
  tasks : List String := []
  completionFailures : List CompletionFailure := []
  idle : Bool := true
  /-- Calls of `wait_idle` that wait for the event, and those the event has woken. -/
  waiting : ℕ := 0
  woken : ℕ := 0
  launched : List String := []
  finished : List FinishedClaim := []
  waits : List ℕ := []

namespace ProcessorState

def launch (s : ProcessorState) (tree : ℕ) (claim : NodeClaim) (announceStarted : Bool)
    (queue : List QueueEntry) : Except String ProcessorState :=
  if claim.claimId ∈ s.tasks then .error s!"Claim {claim.claimId} already has a task"
  else
    .ok
      { s with
        objects := s.objects.set claim.claimId
          { tree := tree, claim := claim, announceStarted := announceStarted, queue := queue }
        tasks := s.tasks ++ [claim.claimId]
        idle := false
        launched := s.launched ++ [claim.claimId] }

def updateSlot (s : ProcessorState) (key : String) (f : TaskSlot → TaskSlot) : ProcessorState :=
  { s with objects := s.objects.modify key f }

/-- `_finish_claim`, under the manager lock. -/
def finishClaim (s : ProcessorState) (slot : TaskSlot) (nextClaimId : String) :
    Except CompletionFailure Unit × ProcessorState :=
  match s.trees[slot.tree]? with
  | none => (.ok (), s)
  | some tree =>
    let isPublished := decide (slot.tree ∈ s.published)
    let (result, tree') := tree.finishAndClaimNext slot.claim.claimId nextClaimId
    let record : FinishedClaim :=
      { claimId := slot.claim.claimId, next := tree'.active.map (·.claim.claimId)
        published := isPublished }
    let s :=
      { s with
        trees := s.trees.set slot.tree tree'
        finished :=
          if tree.active.map (·.claim.claimId) = some slot.claim.claimId then
            s.finished ++ [record]
          else s.finished }
    match result with
    | .error e => (.error (.fault e), s)
    | .ok completion => match completion.nextClaim with
      | none => (.ok (), s)
      | some next =>
        if isPublished then
          match s.launch slot.tree next true completion.queue with
          | .error message => (.error (.runtimeError message), s)
          | .ok s => (.ok (), s)
        else (.ok (), s)

/-- The `finally` block of `_finish_and_continue`; an empty table sets the event. -/
def removeSlot (s : ProcessorState) (key : String) : ProcessorState :=
  let tasks := s.tasks.erase key
  if tasks = [] then
    { s with tasks := tasks, idle := true, woken := s.woken + s.waiting, waiting := 0 }
  else { s with tasks := tasks }

/-- `_finish_and_continue`, from where its callback has the lock. -/
def finishAndContinue (s : ProcessorState) (key : String) (slot : TaskSlot)
    (nextClaimId : String) : ProcessorState :=
  match s.finishClaim slot nextClaimId with
  | (.ok _, s) => (s.updateSlot key fun slot => { slot with transitioned := true }).removeSlot key
  | (.error e, s) =>
    { s with completionFailures := s.completionFailures ++ [e] }.removeSlot key

/-- The task of a claim, or its recovery, finishes the claim. -/
def finish (s : ProcessorState) (key : String) (byRecovery : Bool) (nextClaimId : String) :
    ProcessorState :=
  match s.objects.get? key with
  | none => s
  | some slot =>
    if byRecovery then
      if slot.recovery = .finishing then
        (s.finishAndContinue key slot nextClaimId).updateSlot key fun slot =>
          { slot with recovery := .done }
      else s
    else if slot.phase = .finishing then
      (s.finishAndContinue key slot nextClaimId).updateSlot key fun slot =>
        { slot with phase := .done }
    else s

def task (s : ProcessorState) (key : String) (step : TaskStep) : ProcessorState :=
  s.updateSlot key fun slot => slot.step (decide (key ∈ s.tasks)) step

def cancel (s : ProcessorState) (claim : NodeClaim) (reason : Option CancellationReason) :
    ProcessorState :=
  if claim.claimId ∈ s.tasks then s.updateSlot claim.claimId fun slot => slot.cancel reason else s

/-- `admit` launches the claim of its decision. -/
def launchAdmitted (s : ProcessorState) (tree : ℕ) (decision : QueueDecision) : ProcessorState :=
  match decision.claim with
  | none => s
  | some claim => match s.launch tree claim false [] with
    | .error _ => s
    | .ok s => s

/-- `admit` of a message that becomes the root of a new tree. -/
def admitRoot (s : ProcessorState) (scope : MessageScope)
    (nodeId prompt statusId claimId : String) : ProcessorState :=
  match MessageTree.new
      { nodeId := nodeId, scope := scope, prompt := prompt, statusMessageId := some statusId } with
  | .error _ => s
  | .ok tree => match tree.enqueueOrClaim nodeId claimId with
    | (.error _, _) => s
    | (.ok decision, tree) =>
      { s with
        trees := s.trees ++ [tree]
        published := s.published ++ [s.trees.length] }.launchAdmitted s.trees.length decision

/-- Cancel the task of the claim that a cancelling transition names. -/
def cancelActive (s : ProcessorState) (result : Except Fault TreeCancellation)
    (reason : Option CancellationReason) : ProcessorState :=
  match result with
  | .error _ => s
  | .ok transition => match transition.activeClaim with
    | none => s
    | some claim => s.cancel claim reason

/-- A section under the manager lock that applies an operation to a published tree.
Claims are finished only by `_finish_claim`. -/
def onTree (s : ProcessorState) (j : ℕ) (op : TreeOp) (reason : Option CancellationReason) :
    ProcessorState :=
  match s.trees[j]? with
  | none => s
  | some tree =>
    if j ∉ s.published then s
    else
      let s' := { s with trees := s.trees.set j (op.apply tree) }
      match op with
      | .addAndEnqueue id scope prompt status parent ref claimId =>
        match (tree.addAndEnqueue id scope prompt status parent ref claimId).1 with
        | .error _ => s'
        | .ok decision => s'.launchAdmitted j decision
      | .cancelNode id => s'.cancelActive (tree.cancelNode id).1 reason
      | .cancelAll => s'.cancelActive tree.cancelAll.1 reason
      | .removeMessageSubtree ref order =>
        s'.cancelActive ((tree.removeMessageSubtree ref order).1.map (·.cancellation)) reason
      | .finishAndClaimNext .. => s
      | _ => s'

/-- `remove_tree` -/
def detach (s : ProcessorState) (j : ℕ) : ProcessorState :=
  { s with published := s.published.filter fun i => i ≠ j }

/-- `wait_idle` returns, and hands over the completion failures. -/
def returnWait (s : ProcessorState) : ProcessorState :=
  { s with completionFailures := [], waits := s.waits ++ [s.tasks.length] }

/-- `wait_idle` returns at once or waits for the event. -/
def waitIdle (s : ProcessorState) : ProcessorState :=
  if s.idle then s.returnWait else { s with waiting := s.waiting + 1 }

/-- A call of `wait_idle` that the event has woken goes on; it does not look again. -/
def resumeWait (s : ProcessorState) : ProcessorState :=
  if s.woken = 0 then s else { s with woken := s.woken - 1 }.returnWait

end ProcessorState

/-! ## Runs -/

inductive ProcessorOp where
  | admitRoot (scope : MessageScope) (nodeId prompt statusId claimId : String)
  | onTree (tree : ℕ) (op : TreeOp) (reason : Option CancellationReason)
  | detach (tree : ℕ)
  | task (claimId : String) (step : TaskStep)
  | finish (claimId : String) (byRecovery : Bool) (nextClaimId : String)
  | waitIdle
  | resumeWait

namespace ProcessorOp

def apply (s : ProcessorState) : ProcessorOp → ProcessorState
  | admitRoot scope nodeId prompt statusId claimId =>
    s.admitRoot scope nodeId prompt statusId claimId
  | onTree j op reason => s.onTree j op reason
  | detach j => s.detach j
  | task key step => s.task key step
  | finish key byRecovery nextClaimId => s.finish key byRecovery nextClaimId
  | waitIdle => s.waitIdle
  | resumeWait => s.resumeWait

end ProcessorOp

/-- A random id that no claim has. -/
def ProcessorState.Unused (s : ProcessorState) (claimId : String) : Prop :=
  claimId ∉ s.launched ∧ ∀ tree ∈ s.trees, tree.active.map (·.claim.claimId) ≠ some claimId

instance (s : ProcessorState) (claimId : String) : Decidable (s.Unused claimId) := by
  unfold ProcessorState.Unused
  infer_instance

/-- Node ids are not empty, and claim ids are drawn at random. -/
def ProcessorOp.Proper (s : ProcessorState) : ProcessorOp → Prop
  | admitRoot _ nodeId _ _ claimId => nodeId ≠ "" ∧ s.Unused claimId
  | onTree _ op _ => op.ProperId ∧ ∀ claimId, op.Draws claimId → s.Unused claimId
  | finish _ _ nextClaimId => s.Unused nextClaimId
  | _ => True

/-- Runs of a manager that starts with restored trees. -/
def processorSystem : System ProcessorState ProcessorOp where
  init s := ∃ trees : List MessageTree,
    (∀ tree ∈ trees, ∃ snapshot, MessageTree.fromSnapshot snapshot = .ok tree) ∧
      s = { trees := trees, published := List.range trees.length }
  step s op s' := op.Proper s ∧ s' = op.apply s

end Switchboard.Messaging
