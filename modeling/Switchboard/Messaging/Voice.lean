import Switchboard.Messaging.Model
import Switchboard.Library.Run

/-!
# Pending voice notes

`PendingVoiceRegistry` of `messaging/voice.py`, driven by `VoiceNoteFlow.handle`. An entry
is named by its claim, which has an id of its own. A step is what a task does between two
of its awaits; a section under the lock of the registry is one step.
-/

namespace Switchboard.Messaging

/-- Ownership token for one pending voice-note generation. -/
structure PendingVoiceClaim where
  scope : MessageScope
  voiceMessageId : String
  claimId : String
deriving DecidableEq, Repr

/-- An entry; `handoffTask` tells whether its task was made. -/
structure PendingVoice where
  statusMessageId : Option String := none
  handoffTask : Bool := false
deriving DecidableEq, Repr

structure VoiceCancellationResult where
  scope : MessageScope
  voiceMessageId : String
  statusMessageId : Option String
  deleteMessageIds : List String
deriving DecidableEq, Repr

structure PendingVoiceRegistry where
  /-- `_pending`, with entries named by their claims. -/
  pending : Dict (MessageScope × String) PendingVoiceClaim := .empty
  /-- Every entry made so far. -/
  objects : Dict PendingVoiceClaim PendingVoice := .empty
  activeCancellations : Dict PendingVoiceClaim ℕ := .empty

namespace PendingVoiceRegistry

def voiceKey (claim : PendingVoiceClaim) : MessageScope × String :=
  (claim.scope, claim.voiceMessageId)

def entryForClaim (g : PendingVoiceRegistry) (claim : PendingVoiceClaim) : Option PendingVoice :=
  if g.pending.get? (voiceKey claim) = some claim then g.objects.get? claim else none

def reserve (g : PendingVoiceRegistry) (claim : PendingVoiceClaim) :
    Option PendingVoiceClaim × PendingVoiceRegistry :=
  if g.pending.contains (voiceKey claim) then (none, g)
  else
    (some claim,
      { g with
        pending := g.pending.set (voiceKey claim) claim
        objects := g.objects.set claim {} })

def bindStatus (g : PendingVoiceRegistry) (claim : PendingVoiceClaim) (statusMessageId : String) :
    Bool × PendingVoiceRegistry :=
  match g.entryForClaim claim with
  | none => (false, g)
  | some entry => match entry.statusMessageId with
    | some bound => (decide (bound = statusMessageId), g)
    | none =>
      let statusKey := (claim.scope, statusMessageId)
      if ∃ existing ∈ g.pending.get? statusKey, existing ≠ claim then (false, g)
      else
        (true,
          { g with
            pending := g.pending.set statusKey claim
            objects := g.objects.modify claim fun entry =>
              { entry with statusMessageId := some statusMessageId } })

/-- The locked section of `handoff`; it is rejected or makes the task. -/
def startHandoff (g : PendingVoiceRegistry) (claim : PendingVoiceClaim) :
    Bool × PendingVoiceRegistry :=
  match g.entryForClaim claim with
  | none => (false, g)
  | some entry =>
    if entry.statusMessageId = none ∨ entry.handoffTask then (false, g)
    else
      (true,
        { g with
          objects := g.objects.modify claim fun entry => { entry with handoffTask := true } })

/-- Pop a key that leads to the entry. -/
def popKey (pending : Dict (MessageScope × String) PendingVoiceClaim)
    (key : MessageScope × String) (claim : PendingVoiceClaim) :
    Dict (MessageScope × String) PendingVoiceClaim :=
  if pending.get? key = some claim then pending.erase key else pending

/-- `_remove` -/
def remove (g : PendingVoiceRegistry) (claim : PendingVoiceClaim) : PendingVoiceRegistry :=
  let pending := popKey g.pending (voiceKey claim) claim
  match (g.objects.get? claim).bind (·.statusMessageId) with
  | none => { g with pending := pending }
  | some statusMessageId =>
    { g with pending := popKey pending (claim.scope, statusMessageId) claim }

/-- Whether the entry has a task to drain. -/
def hasTask (g : PendingVoiceRegistry) (claim : PendingVoiceClaim) : Bool :=
  (g.objects.get? claim).any (·.handoffTask)

/-- The locked section of `discard`, and of `_complete_if_owned`. -/
def releaseOwned (g : PendingVoiceRegistry) (claim : PendingVoiceClaim) :
    Bool × PendingVoiceRegistry :=
  match g.entryForClaim claim with
  | none => (false, g)
  | some _ => (true, g.remove claim)

/-- `_is_excluded` -/
def Excluded (g : PendingVoiceRegistry) (claim : PendingVoiceClaim)
    (currentClaim : Option PendingVoiceClaim) : Prop :=
  some claim = currentClaim ∨ 0 < (g.activeCancellations.get? claim).getD 0

instance (g : PendingVoiceRegistry) (claim : PendingVoiceClaim)
    (currentClaim : Option PendingVoiceClaim) : Decidable (g.Excluded claim currentClaim) := by
  unfold Excluded
  infer_instance

def protectClaim (g : PendingVoiceRegistry) (claim : Option PendingVoiceClaim) :
    PendingVoiceRegistry :=
  match claim with
  | none => g
  | some claim =>
    { g with
      activeCancellations := g.activeCancellations.set claim
        ((g.activeCancellations.get? claim).getD 0 + 1) }

def unprotectClaim (g : PendingVoiceRegistry) (claim : Option PendingVoiceClaim) :
    PendingVoiceRegistry :=
  match claim with
  | none => g
  | some claim => match g.activeCancellations.get? claim with
    | none => g
    | some n =>
      { g with
        activeCancellations :=
          if n - 1 ≠ 0 then g.activeCancellations.set claim (n - 1)
          else g.activeCancellations.erase claim }

def cancellationResult (claim : PendingVoiceClaim) (entry : PendingVoice)
    (referenceId : Option String) : VoiceCancellationResult where
  scope := claim.scope
  voiceMessageId := claim.voiceMessageId
  statusMessageId := entry.statusMessageId
  deleteMessageIds :=
    (if ∃ id ∈ referenceId, id ≠ claim.voiceMessageId then [] else [claim.voiceMessageId]) ++
      entry.statusMessageId.toList

/-- What a cancellation is for. -/
inductive Request where
  | reply (scope : MessageScope) (replyId : String)
  | scope (scope : MessageScope)
  | all
deriving DecidableEq, Repr

/-- The entries that a cancellation in the context of a claim releases. -/
def targets (g : PendingVoiceRegistry) (currentClaim : Option PendingVoiceClaim) :
    Request → List PendingVoiceClaim
  | .reply scope replyId =>
    (g.pending.get? (scope, replyId)).toList.filter fun claim => ¬ g.Excluded claim currentClaim
  | .scope scope =>
    ((g.pending.entries.filter fun e =>
      e.1.1 = scope ∧ ¬ g.Excluded e.2 currentClaim).map Prod.snd).eraseDups
  | .all =>
    ((g.pending.entries.filter fun e => ¬ g.Excluded e.2 currentClaim).map Prod.snd).eraseDups

/-- The results of a cancellation, by the entries it released. -/
def cancellationResults (g : PendingVoiceRegistry) (request : Request)
    (claims : List PendingVoiceClaim) : List VoiceCancellationResult :=
  let referenceId := match request with
    | .reply _ replyId => some replyId
    | _ => none
  claims.filterMap fun claim => (g.objects.get? claim).map fun entry =>
    cancellationResult claim entry referenceId

end PendingVoiceRegistry

/-! ## Runs -/

/-- Where `VoiceNoteFlow.handle` stands for a claim. -/
inductive VoiceFlow where
  /-- Before the handoff. -/
  | preparing
  /-- The handoff task is awaited. -/
  | awaiting
  /-- The task is over, `_complete_if_owned` waits for the lock. -/
  | finishing
  /-- `discard` waits for the lock. -/
  | discarding
  /-- `discard` drains the task. -/
  | draining
  | ended
deriving DecidableEq, Repr

inductive VoiceOwner where
  | completed | cancelled | discarded
deriving DecidableEq, Repr

inductive CancellationPhase where
  /-- The claim is protected, the lock is awaited. -/
  | waiting
  /-- Entries were released under the lock at this time; their tasks are drained. -/
  | draining (lockedAt : ℕ) (targets : List PendingVoiceClaim)
  | ended
deriving DecidableEq, Repr

/-- A call of `cancel`, `cancel_all` or `cancel_scope`. Its context is the claim of the
handoff task that it runs in, or that the task running it descends from. -/
structure VoiceCancellation where
  context : Option PendingVoiceClaim
  request : PendingVoiceRegistry.Request
  begun : ℕ
  phase : CancellationPhase := .waiting
  results : List VoiceCancellationResult := []

/-- The registry with its users. The last field is history. -/
structure VoiceRun where
  registry : PendingVoiceRegistry := {}
  flows : Dict PendingVoiceClaim VoiceFlow := .empty
  cancellations : List VoiceCancellation := []
  clock : ℕ := 0
  released : List (PendingVoiceClaim × VoiceOwner) := []

inductive VoiceOp where
  | reserve (claim : PendingVoiceClaim)
  | bindStatus (claim : PendingVoiceClaim) (statusMessageId : String)
  | startHandoff (claim : PendingVoiceClaim)
  /-- The flow fails or is cancelled before the handoff. -/
  | fail (claim : PendingVoiceClaim)
  /-- The handoff task is over. -/
  | taskOver (claim : PendingVoiceClaim)
  /-- The flow goes on to `discard` if the callback raised or the flow was cancelled. -/
  | finish (claim : PendingVoiceClaim) (raised : Bool)
  | discard (claim : PendingVoiceClaim)
  | drained (claim : PendingVoiceClaim)
  | beginCancel (context : Option PendingVoiceClaim) (request : PendingVoiceRegistry.Request)
  | lockCancel (i : ℕ)
  /-- The call is cancelled while it waits for the lock. -/
  | abortCancel (i : ℕ)
  | endCancel (i : ℕ)

namespace VoiceRun

open PendingVoiceRegistry

def flow (v : VoiceRun) (claim : PendingVoiceClaim) : Option VoiceFlow := v.flows.get? claim

def setFlow (v : VoiceRun) (claim : PendingVoiceClaim) (flow : VoiceFlow) : VoiceRun :=
  { v with flows := v.flows.set claim flow }

/-- The handoff task of a claim is not over. -/
def TaskRuns (v : VoiceRun) (claim : PendingVoiceClaim) : Prop := v.flow claim = some .awaiting

instance (v : VoiceRun) (claim : PendingVoiceClaim) : Decidable (v.TaskRuns claim) := by
  unfold TaskRuns
  infer_instance

/-- The owner of a released entry goes into the history. -/
def release (v : VoiceRun) (registry : PendingVoiceRegistry) (owner : VoiceOwner)
    (claims : List PendingVoiceClaim) : VoiceRun :=
  { v with registry := registry, released := v.released ++ claims.map fun c => (c, owner) }

def reserve (v : VoiceRun) (claim : PendingVoiceClaim) : VoiceRun :=
  match v.registry.reserve claim with
  | (none, _) => v
  | (some claim, registry) => { v with registry := registry }.setFlow claim .preparing

def bindStatus (v : VoiceRun) (claim : PendingVoiceClaim) (statusMessageId : String) : VoiceRun :=
  if v.flow claim = some .preparing then
    match v.registry.bindStatus claim statusMessageId with
    | (true, registry) => { v with registry := registry }
    | (false, registry) => { v with registry := registry }.setFlow claim .discarding
  else v

def startHandoff (v : VoiceRun) (claim : PendingVoiceClaim) : VoiceRun :=
  if v.flow claim = some .preparing then
    match v.registry.startHandoff claim with
    | (true, registry) => { v with registry := registry }.setFlow claim .awaiting
    | (false, registry) => { v with registry := registry }.setFlow claim .discarding
  else v

def finish (v : VoiceRun) (claim : PendingVoiceClaim) (raised : Bool) : VoiceRun :=
  if v.flow claim = some .finishing then
    let (owned, registry) := v.registry.releaseOwned claim
    (v.release registry .completed (if owned then [claim] else [])).setFlow claim
      (if raised then .discarding else .ended)
  else v

def discard (v : VoiceRun) (claim : PendingVoiceClaim) : VoiceRun :=
  if v.flow claim = some .discarding then
    let (owned, registry) := v.registry.releaseOwned claim
    (v.release registry .discarded (if owned then [claim] else [])).setFlow claim
      (if owned ∧ v.registry.hasTask claim then .draining else .ended)
  else v

/-- Move on a flow that stands at one place. -/
def moveFlow (v : VoiceRun) (claim : PendingVoiceClaim) (source target : VoiceFlow) : VoiceRun :=
  if v.flow claim = some source then v.setFlow claim target else v

def beginCancel (v : VoiceRun) (context : Option PendingVoiceClaim) (request : Request) :
    VoiceRun :=
  { v with
    registry := v.registry.protectClaim context
    cancellations :=
      v.cancellations ++ [{ context := context, request := request, begun := v.clock }]
    clock := v.clock + 1 }

/-- The locked section of a cancellation. -/
def lockCancel (v : VoiceRun) (i : ℕ) : VoiceRun :=
  match v.cancellations[i]? with
  | none => v
  | some c =>
    if c.phase = .waiting then
      let claims := v.registry.targets c.context c.request
      let drained := claims.filter fun claim => v.registry.hasTask claim
      { v.release (claims.foldl PendingVoiceRegistry.remove v.registry) .cancelled claims with
        cancellations := v.cancellations.set i
          { c with
            phase := .draining v.clock drained
            results := v.registry.cancellationResults c.request claims }
        clock := v.clock + 1 }
    else v

/-- The `finally` block of a cancellation. -/
def leaveCancel (v : VoiceRun) (i : ℕ) (c : VoiceCancellation) : VoiceRun :=
  { v with
    registry := v.registry.unprotectClaim c.context
    cancellations := v.cancellations.set i { c with phase := .ended } }

def abortCancel (v : VoiceRun) (i : ℕ) : VoiceRun :=
  match v.cancellations[i]? with
  | none => v
  | some c => if c.phase = .waiting then v.leaveCancel i c else v

/-- The tasks that a cancellation drains are over. -/
def endCancel (v : VoiceRun) (i : ℕ) : VoiceRun :=
  match v.cancellations[i]? with
  | none => v
  | some c => match c.phase with
    | .draining _ targets =>
      if ∀ claim ∈ targets, ¬ v.TaskRuns claim then v.leaveCancel i c else v
    | _ => v

end VoiceRun

def VoiceOp.apply (v : VoiceRun) : VoiceOp → VoiceRun
  | reserve claim => v.reserve claim
  | bindStatus claim statusMessageId => v.bindStatus claim statusMessageId
  | startHandoff claim => v.startHandoff claim
  | fail claim => v.moveFlow claim .preparing .discarding
  | taskOver claim => v.moveFlow claim .awaiting .finishing
  | finish claim raised => v.finish claim raised
  | discard claim => v.discard claim
  | drained claim => v.moveFlow claim .draining .ended
  | beginCancel context request => v.beginCancel context request
  | lockCancel i => v.lockCancel i
  | abortCancel i => v.abortCancel i
  | endCancel i => v.endCancel i

/-- Claim ids are drawn at random. -/
def VoiceOp.Proper (v : VoiceRun) : VoiceOp → Prop
  | reserve claim => v.registry.objects.get? claim = none
  | _ => True

def voiceSystem : System VoiceRun VoiceOp where
  init v := v = {}
  step v op v' := op.Proper v ∧ v' = op.apply v

end Switchboard.Messaging
