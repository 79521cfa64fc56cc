import Switchboard.Library.Except
import Switchboard.Messaging.Graph
import Switchboard.Messaging.Queue

/-!
# The tree aggregate

`MessageTree` of `trees/runtime.py`: graph, queue and active claim, changed by
operations that each run under the aggregate lock. An operation returns a value
or a fault together with the tree it leaves, since a raise undoes nothing. The
random claim id and the iteration order of a set are arguments.
-/

namespace Switchboard.Messaging

/-- Runtime execution identity kept separate from the node's UI state. -/
structure ActiveClaim where
  claim : NodeClaim
  cancellationRequested : Bool := false
deriving DecidableEq, Repr

/-- Graph, queue, claim identity and what restoring found. -/
structure MessageTree where
  graph : MessageTreeGraph
  queue : MessageNodeQueue := .empty
  active : Option ActiveClaim := none
  restoredSnapshot : Option TreeSnapshot := none
  restoredStaleTargets : List NodeUiTarget := []

/-- An order in which a set given by its elements may be iterated. -/
structure SetOrder where
  list : List String → List String
  nodup : ∀ l, (list l).Nodup
  mem : ∀ l c, c ∈ list l ↔ c ∈ l

namespace MessageTree

/-- What an operation on a tree gives: a value or a fault, and the tree after it. -/
abbrev Outcome (α : Type) := Except Fault α × MessageTree

/-- `MessageTree(root_node)`. -/
def new (root : MessageNode) : Except Fault MessageTree :=
  (MessageTreeGraph.new root).map fun g => { graph := g }

def identity (t : MessageTree) : TreeIdentity := t.graph.identity

def uiTarget (n : MessageNode) : Except Fault NodeUiTarget :=
  match n.statusMessageId with
  | none => .error (.valueError "Runnable node has no status message")
  | some s => .ok ⟨n.scope, n.nodeId, s⟩

def queueEntries (t : MessageTree) : Except Fault (List QueueEntry) :=
  t.queue.items.foldlM (fun entries id =>
    match t.graph.getNode id with
    | none => .ok entries
    | some n =>
      if n.state = .pending then
        (uiTarget n).map fun target => entries ++ [⟨target, entries.length + 1⟩]
      else .ok entries) []

/-- Apply a change to one node of the tree. -/
def update (t : MessageTree) (id : String) (f : MessageNode → MessageNode) : MessageTree :=
  { t with graph := t.graph.updateNode id f }

/-- `_claim`: the node is marked before its target is built. -/
def claim (t : MessageTree) (n : MessageNode) (claimId : String) : Outcome NodeClaim :=
  let t := t.update n.nodeId fun n => n.updateState .inProgress
  match uiTarget n with
  | .error e => (.error e, t)
  | .ok target =>
    let claim : NodeClaim :=
      { identity := t.identity, claimId := claimId, node := target, prompt := n.prompt,
        parentSessionId := t.graph.getParentSessionId n.nodeId }
    (.ok claim, { t with active := some { claim := claim } })

def rejected (rejection : AdmissionRejection) : QueueDecision :=
  { claim := none, position := none, snapshot := none, rejection := some rejection }

/-- Reject, queue, or exclusively claim an existing node. -/
def enqueueOrClaim (t : MessageTree) (nodeId claimId : String) : Outcome QueueDecision :=
  match t.graph.getNode nodeId with
  | none => (.ok (rejected .duplicate), t)
  | some n =>
    if n.state ≠ .pending then (.ok (rejected .duplicate), t)
    else match t.active with
      | none => match t.claim n claimId with
        | (.error e, t) => (.error e, t)
        | (.ok claim, t) =>
          (.ok { claim := some claim, position := none, snapshot := some t.graph.snapshot }, t)
      | some _ => match t.queue.put nodeId with
        | (false, _) => (.ok (rejected .duplicate), t)
        | (true, q) =>
          (.ok { claim := none, position := some q.qsize, snapshot := some t.graph.snapshot },
            { t with queue := q })

/-- Add a reply and admit it to this tree. -/
def addAndEnqueue (t : MessageTree) (nodeId : String) (scope : MessageScope)
    (prompt statusMessageId parentId parentReferenceId claimId : String) :
    Outcome QueueDecision :=
  match t.graph.addNode nodeId scope prompt statusMessageId parentId parentReferenceId with
  | .error e => (.error e, t)
  | .ok g => { t with graph := g }.enqueueOrClaim nodeId claimId

/-- The loop that looks for a successor. An empty id ends it, as no id does. -/
def claimNext : ℕ → MessageTree → String → Outcome (Option NodeClaim)
  | 0, t, _ => (.ok none, t)
  | rounds + 1, t, claimId =>
    match t.queue.pop with
    | none => (.ok none, t)
    | some (id, q) =>
      let t := { t with queue := q }
      if id = "" then (.ok none, t)
      else match t.graph.getNode id with
        | none => claimNext rounds t claimId
        | some n =>
          if n.state = .pending then
            match t.claim n claimId with
            | (.error e, t) => (.error e, t)
            | (.ok claim, t) => (.ok (some claim), t)
          else claimNext rounds t claimId

/-- Release only the matching claim and select its successor. -/
def finishAndClaimNext (t : MessageTree) (claimId nextClaimId : String) :
    Outcome CompletionResult :=
  if t.active.map (·.claim.claimId) ≠ some claimId then
    (t.queueEntries.map fun queue => { nextClaim := none, queue := queue }, t)
  else
    match claimNext t.queue.qsize { t with active := none } nextClaimId with
    | (.error e, t) => (.error e, t)
    | (.ok next, t) => (t.queueEntries.map fun queue => { nextClaim := next, queue := queue }, t)

/-- Set the flag of the active claim. -/
def requestCancellation (t : MessageTree) : MessageTree :=
  { t with active := t.active.map fun a => { a with cancellationRequested := true } }

/-- Whether the active claim is on a node. -/
def activeOn (t : MessageTree) (id : String) : Bool :=
  t.active.any fun a => a.claim.node.nodeId = id

/-- Cancel one active, queued, or stale runnable node. -/
def cancelNode (t : MessageTree) (nodeId : String) : Outcome TreeCancellation :=
  let activeClaim := if t.activeOn nodeId then t.active.map (·.claim) else none
  let t := if t.activeOn nodeId then t.requestCancellation else t
  match t.graph.getNode nodeId with
  | none => (.ok { nodes := [], activeClaim := activeClaim, queueUpdate := none }, t)
  | some n =>
    let (queueChanged, q) := t.queue.remove nodeId
    let t := { t with queue := q }
    let finish (nodes : List NodeUiTarget) (t : MessageTree) : Outcome TreeCancellation :=
      (if queueChanged then
        t.queueEntries.map fun queue =>
          { nodes := nodes, activeClaim := activeClaim, queueUpdate := some queue }
      else .ok { nodes := nodes, activeClaim := activeClaim, queueUpdate := none }, t)
    if n.state.runnable then
      let t := t.update nodeId MessageNode.markError
      match uiTarget n with
      | .error e => (.error e, t)
      | .ok target => finish [target] t
    else if n.state = .error ∧ activeClaim.isSome then
      match uiTarget n with
      | .error e => (.error e, t)
      | .ok target => finish [target] t
    else finish [] t

/-- The local variables of the loops over nodes. -/
structure Sweep where
  tree : MessageTree
  seen : List String := []
  targets : List NodeUiTarget := []
  queueChanged : Bool := false

namespace Sweep

def mark (s : Sweep) (id : String) : Sweep :=
  { s with tree := s.tree.update id MessageNode.markError }

def see (s : Sweep) (id : String) : Sweep := { s with seen := id :: s.seen }

/-- Append the UI target of a node. -/
def target (s : Sweep) (n : MessageNode) : Except Fault Unit × Sweep :=
  match uiTarget n with
  | .error e => (.error e, s)
  | .ok target => (.ok (), { s with targets := s.targets ++ [target] })

/-- Take a node off the queue, noting whether that changed it. -/
def dequeue (s : Sweep) (id : String) : Sweep :=
  let (removed, q) := s.tree.queue.remove id
  { s with tree := { s.tree with queue := q }, queueChanged := removed || s.queueChanged }

end Sweep

/-- The first part of `cancel_all`: the node of the active claim. -/
def cancelActive (t : MessageTree) : Except Fault Unit × Sweep :=
  match t.active with
  | none => (.ok (), { tree := t })
  | some a =>
    let id := a.claim.node.nodeId
    let s : Sweep := { tree := t.requestCancellation }
    match t.graph.getNode id with
    | none => (.ok (), s)
    | some n =>
      if n.state.runnable then ((s.mark id).see id).target n
      else if n.state = .error then (s.see id).target n
      else (.ok (), s.see id)

/-- One round of the loop of `cancel_all` over the drained queue. -/
def cancelQueued (s : Sweep) (id : String) : Except Fault Unit × Sweep :=
  match s.tree.graph.getNode id with
  | none => (.ok (), s)
  | some n => if n.state.runnable then ((s.mark id).see id).target n else (.ok (), s)

/-- One round of the loop of `cancel_all` over all nodes. -/
def cancelStale (s : Sweep) (id : String) : Except Fault Unit × Sweep :=
  match s.tree.graph.getNode id with
  | none => (.ok (), s)
  | some n =>
    if n.nodeId ∈ s.seen ∨ n.state.runnable = false then (.ok (), s) else (s.mark id).target n

/-- Cancel every runnable node present at the transition. -/
def cancelAll (t : MessageTree) : Outcome TreeCancellation :=
  match t.cancelActive with
  | (.error e, s) => (.error e, s.tree)
  | (.ok _, s) =>
    let (queuedIds, q) := s.tree.queue.drain
    match raisingLoop cancelQueued queuedIds { s with tree := { s.tree with queue := q } } with
    | (.error e, s) => (.error e, s.tree)
    | (.ok _, s) =>
      match raisingLoop cancelStale s.tree.graph.nodes.keys s with
      | (.error e, s) => (.error e, s.tree)
      | (.ok _, s) =>
        (.ok
          { nodes := s.targets, activeClaim := t.active.map (·.claim),
            queueUpdate := if queuedIds = [] then none else some [] }, s.tree)

/-- One round of the loop of `remove_message_subtree`; here the target comes
before the mark. -/
def cancelAffected (activeClaim : Option NodeClaim) (s : Sweep) (id : String) :
    Except Fault Unit × Sweep :=
  match s.tree.graph.getNode id with
  | none => (.ok (), s)
  | some n =>
    let s := s.dequeue id
    if n.state.runnable then
      match s.target n with
      | (.error e, s) => (.error e, s)
      | (.ok _, s) => (.ok (), s.mark id)
    else if n.state = .error ∧ activeClaim.any (·.node.nodeId = id) then s.target n
    else (.ok (), s)

def nothingRemoved : MessageSubtreeRemoval :=
  { cancellation := { nodes := [], activeClaim := none, queueUpdate := none }
    removedMessageIds := [], removedEntireTree := false }

/-- Cancel and detach one literal platform reply subtree. -/
def removeMessageSubtree (t : MessageTree) (ref : String) (order : SetOrder) :
    Outcome MessageSubtreeRemoval :=
  match t.graph.resolveReference ref, t.graph.getReferenceDescendants ref with
  | _, .error e => (.error e, t)
  | none, .ok _ => (.ok nothingRemoved, t)
  | some (owner, kind), .ok referenceIds =>
    if referenceIds = [] then (.ok nothingRemoved, t)
    else
      let removed := order.list (referenceIds.filter fun c => (t.graph.getNode c).isSome)
      let affected := order.list
        (if kind = .status then removed ++ [owner.nodeId] else removed)
      let activeClaim := t.active.bind fun a =>
        if a.claim.node.nodeId ∈ affected then some a.claim else none
      let start := if activeClaim.isSome then t.requestCancellation else t
      match raisingLoop (cancelAffected activeClaim) affected { tree := start } with
      | (.error e, s) => (.error e, s.tree)
      | (.ok _, s) =>
        let g := if kind = .status then s.tree.graph.clearStatus owner.nodeId else s.tree.graph
        let t' := { s.tree with graph := g.removeNodes removed }
        let result (queueUpdate : Option (List QueueEntry)) : MessageSubtreeRemoval :=
          { cancellation :=
              { nodes := s.targets, activeClaim := activeClaim, queueUpdate := queueUpdate }
            removedMessageIds := referenceIds
            removedEntireTree := t.graph.rootId ∈ removed }
        (if s.queueChanged then t'.queueEntries.map fun queue => result (some queue)
          else .ok (result none), t')

/-- The claim that may still record an outcome: the active one, if it is the
given one and no cancellation was requested. -/
def openClaim (t : MessageTree) (claimId : String) : Option NodeClaim :=
  match t.active with
  | none => none
  | some a =>
    if a.claim.claimId ≠ claimId ∨ a.cancellationRequested then none else some a.claim

/-- Record a real CLI session only for the currently active claim. -/
def recordSession (t : MessageTree) (claimId sessionId : String) :
    Option TreeSnapshot × MessageTree :=
  match t.openClaim claimId with
  | none => (none, t)
  | some claim => match t.graph.getNode claim.node.nodeId with
    | none => (none, t)
    | some n =>
      if n.state ≠ .inProgress then (none, t)
      else
        let t := t.update claim.node.nodeId fun n => n.updateState .inProgress (some sessionId)
        (some t.graph.snapshot, t)

/-- Mark the currently active claim complete. -/
def completeClaim (t : MessageTree) (claimId : String) (sessionId : Option String) :
    Option TreeSnapshot × MessageTree :=
  match t.openClaim claimId with
  | none => (none, t)
  | some claim => match t.graph.getNode claim.node.nodeId with
    | none => (none, t)
    | some n =>
      if n.state ≠ .inProgress ∧ n.state ≠ .error then (none, t)
      else
        let t := t.update claim.node.nodeId fun n => n.updateState .completed sessionId
        (some t.graph.snapshot, t)

/-- One round of the loop of `fail_claim` over the descendants. -/
def propagateFailure (s : Sweep) (id : String) : Except Fault Unit × Sweep :=
  match s.tree.graph.getNode id with
  | none => (.ok (), s)
  | some n =>
    if n.state ≠ .pending then (.ok (), s) else ((s.mark id).dequeue n.nodeId).target n

def nothingFailed : FailureResult := { affected := [], queueUpdate := none, snapshot := none }

/-- The loops of `fail_claim` over the node of the claim and its descendants. -/
def failNodes (t : MessageTree) (id : String) (n : MessageNode) (propagate : Bool) :
    Except Fault Unit × Sweep :=
  if n.state = .completed then (.ok (), { tree := t })
  else
    let s : Sweep := { tree := t }
    match if n.state = .error then (.ok (), s) else (s.mark id).target n with
    | (.error e, s) => (.error e, s)
    | (.ok _, s) =>
      if propagate then
        match s.tree.graph.getDescendants n.nodeId with
        | .error e => (.error e, s)
        | .ok ids => raisingLoop propagateFailure ids.tail s
      else (.ok (), s)

/-- Fail the active claim and its pending descendants. -/
def failClaim (t : MessageTree) (claimId : String) (propagate : Bool) : Outcome FailureResult :=
  match t.openClaim claimId with
  | none => (.ok nothingFailed, t)
  | some claim => match t.graph.getNode claim.node.nodeId with
    | none => (.ok nothingFailed, t)
    | some n => match t.failNodes claim.node.nodeId n propagate with
      | (.error e, s) => (.error e, s.tree)
      | (.ok _, s) =>
        let result (queueUpdate : Option (List QueueEntry)) : FailureResult :=
          { affected := s.targets, queueUpdate := queueUpdate,
            snapshot := some s.tree.graph.snapshot }
        (if s.queueChanged then s.tree.queueEntries.map fun queue => result (some queue)
          else .ok (result none), s.tree)

/-- Resolve a node or status reference. -/
def resolveReply (t : MessageTree) (ref : String) : Option ReplyTarget :=
  (t.graph.resolveReference ref).map fun (n, kind) =>
    { nodeId := n.nodeId, referenceId := ref, referenceKind := kind,
      queuePosition := if t.active.isSome then some (t.queue.qsize + 1) else none }

/-- One round of the loop of `from_snapshot` over the restored nodes. -/
def interruptNode (s : Sweep) (id : String) : Except Fault Unit × Sweep :=
  match s.tree.graph.getNode id with
  | none => (.ok (), s)
  | some n =>
    if n.state.runnable then
      match s.target n with
      | (.error e, s) => (.error e, s)
      | (.ok _, s) => (.ok (), s.mark id)
    else (.ok (), s)

/-- Restore a tree and reconcile its interrupted nodes. -/
def fromSnapshot (snapshot : TreeSnapshot) : Except Fault MessageTree :=
  match MessageTreeGraph.fromSnapshot snapshot with
  | .error e => .error e
  | .ok g => match raisingLoop interruptNode g.nodes.keys { tree := { graph := g } } with
    | (.error e, _) => .error e
    | (.ok _, s) =>
      .ok { s.tree with
        restoredStaleTargets := s.targets, restoredSnapshot := some s.tree.graph.snapshot }

end MessageTree

end Switchboard.Messaging
