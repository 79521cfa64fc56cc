import Switchboard.Library.Dict
import Switchboard.Library.Json

/-!
# Messaging trees: nodes, scopes and detached transition values

The records of `messaging/models.py`, `trees/node.py`, `trees/identity.py` and
`trees/transitions.py`. A call that does not return normally ends in a `Fault`.
-/

namespace Switchboard.Messaging

/-- How a call ends when it does not return: a Python exception, or a loop that
is not done after the number of rounds its model allows. -/
inductive Fault where
  | keyError (key : String)
  | typeError (message : String)
  | valueError (message : String)
  | loops
deriving DecidableEq, Repr

/-- Platform chat namespace in which message ids are unique. -/
structure MessageScope where
  platform : String
  chatId : String
deriving DecidableEq, Repr

structure TreeIdentity where
  scope : MessageScope
  rootId : String
deriving DecidableEq, Repr

inductive MessageState where
  | pending | inProgress | completed | error
deriving DecidableEq, Repr

namespace MessageState

def value : MessageState → String
  | pending => "pending"
  | inProgress => "in_progress"
  | completed => "completed"
  | error => "error"

def ofValue? (s : String) : Option MessageState :=
  [pending, inProgress, completed, error].find? fun st => st.value = s

theorem ofValue?_value (st : MessageState) : ofValue? st.value = some st := by
  cases st <;> decide

/-- The states in which a node still waits for, or is in, execution. -/
def runnable (st : MessageState) : Bool := st = pending || st = inProgress

@[simp] theorem runnable_pending : pending.runnable = true := rfl
@[simp] theorem runnable_inProgress : inProgress.runnable = true := rfl
@[simp] theorem runnable_completed : completed.runnable = false := rfl
@[simp] theorem runnable_error : error.runnable = false := rfl

theorem runnable_iff {st : MessageState} :
    st.runnable = true ↔ st = pending ∨ st = inProgress := by
  cases st <;> simp

end MessageState

inductive MessageReferenceKind where
  | prompt | status
deriving DecidableEq, Repr

/-- A single user prompt/status node in a messaging conversation tree. -/
structure MessageNode where
  nodeId : String
  scope : MessageScope
  prompt : String
  statusMessageId : Option String
  state : MessageState := .pending
  parentId : Option String := none
  parentReferenceId : Option String := none
  sessionId : Option String := none
  childrenIds : List String := []
deriving DecidableEq, Repr

namespace MessageNode

/-- An absent or empty session id leaves the recorded one in place. -/
def updateState (n : MessageNode) (state : MessageState) (sessionId : Option String := none) :
    MessageNode :=
  { n with
    state := state
    sessionId := match sessionId with
      | some s => if s = "" then n.sessionId else some s
      | none => n.sessionId }

def markError (n : MessageNode) : MessageNode := n.updateState .error

/-- Invalidate the response and resume point while retaining the prompt. -/
def clearStatus (n : MessageNode) : MessageNode :=
  { n with statusMessageId := none, sessionId := none }.markError

@[simp] theorem updateState_nodeId (n : MessageNode) (st : MessageState) (s : Option String) :
    (n.updateState st s).nodeId = n.nodeId := rfl
@[simp] theorem updateState_state (n : MessageNode) (st : MessageState) (s : Option String) :
    (n.updateState st s).state = st := rfl
@[simp] theorem updateState_statusMessageId (n : MessageNode) (st : MessageState)
    (s : Option String) : (n.updateState st s).statusMessageId = n.statusMessageId := rfl
@[simp] theorem updateState_parentId (n : MessageNode) (st : MessageState) (s : Option String) :
    (n.updateState st s).parentId = n.parentId := rfl
@[simp] theorem updateState_parentReferenceId (n : MessageNode) (st : MessageState)
    (s : Option String) : (n.updateState st s).parentReferenceId = n.parentReferenceId := rfl
@[simp] theorem updateState_childrenIds (n : MessageNode) (st : MessageState)
    (s : Option String) : (n.updateState st s).childrenIds = n.childrenIds := rfl
@[simp] theorem markError_state (n : MessageNode) : n.markError.state = .error := rfl
@[simp] theorem markError_nodeId (n : MessageNode) : n.markError.nodeId = n.nodeId := rfl
@[simp] theorem markError_statusMessageId (n : MessageNode) :
    n.markError.statusMessageId = n.statusMessageId := rfl
@[simp] theorem clearStatus_state (n : MessageNode) : n.clearStatus.state = .error := rfl
@[simp] theorem clearStatus_nodeId (n : MessageNode) : n.clearStatus.nodeId = n.nodeId := rfl
@[simp] theorem clearStatus_statusMessageId (n : MessageNode) :
    n.clearStatus.statusMessageId = none := rfl

/-- Two versions of a node that agree on everything the graph's links are read
from: the links themselves, the prompt id and the status id. -/
structure SameLinks (n m : MessageNode) : Prop where
  nodeId : m.nodeId = n.nodeId
  status : m.statusMessageId = n.statusMessageId
  parent : m.parentId = n.parentId
  reference : m.parentReferenceId = n.parentReferenceId
  children : m.childrenIds = n.childrenIds

theorem sameLinks_updateState (n : MessageNode) (st : MessageState) (s : Option String) :
    n.SameLinks (n.updateState st s) := ⟨rfl, rfl, rfl, rfl, rfl⟩

end MessageNode

/-- Copied node coordinates needed for an external UI effect. -/
structure NodeUiTarget where
  scope : MessageScope
  nodeId : String
  statusMessageId : String
deriving DecidableEq, Repr

/-- Exclusive permission to execute one node in a conversation tree. -/
structure NodeClaim where
  identity : TreeIdentity
  claimId : String
  node : NodeUiTarget
  prompt : String
  parentSessionId : Option String
deriving DecidableEq, Repr

structure QueueEntry where
  node : NodeUiTarget
  position : ℕ
deriving DecidableEq, Repr

inductive AdmissionRejection where
  | duplicate | parentRemoved
deriving DecidableEq, Repr

/-- Detached persisted representation of one conversation tree. -/
structure TreeSnapshot where
  scope : MessageScope
  rootId : String
  nodes : Dict String Json

def TreeSnapshot.identity (s : TreeSnapshot) : TreeIdentity := ⟨s.scope, s.rootId⟩

/-- Atomic result of admitting a node to a tree. -/
structure QueueDecision where
  claim : Option NodeClaim
  position : Option ℕ
  snapshot : Option TreeSnapshot
  rejection : Option AdmissionRejection := none

def QueueDecision.accepted (d : QueueDecision) : Bool := d.snapshot.isSome

/-- Atomic result of releasing a claim and selecting its successor. -/
structure CompletionResult where
  nextClaim : Option NodeClaim
  queue : List QueueEntry

/-- Single-tree cancellation transition consumed by the manager. -/
structure TreeCancellation where
  nodes : List NodeUiTarget
  activeClaim : Option NodeClaim
  queueUpdate : Option (List QueueEntry)
deriving DecidableEq, Repr

/-- Single-tree atomic cancellation and reference-subtree removal. -/
structure MessageSubtreeRemoval where
  cancellation : TreeCancellation
  removedMessageIds : List String
  removedEntireTree : Bool
deriving DecidableEq, Repr

/-- Resolved reply destination and advisory position before admission. -/
structure ReplyTarget where
  nodeId : String
  referenceId : String
  referenceKind : MessageReferenceKind
  queuePosition : Option ℕ
deriving DecidableEq, Repr

/-- Atomic node failure plus copied child UI effects. -/
structure FailureResult where
  affected : List NodeUiTarget
  queueUpdate : Option (List QueueEntry)
  snapshot : Option TreeSnapshot

end Switchboard.Messaging
