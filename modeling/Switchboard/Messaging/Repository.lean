import Switchboard.Messaging.Tree

/-!
# The index of trees and the lock sections of the manager

`trees/repository.py`, and the part of `trees/manager.py` that runs under the
manager lock. Every function gives a value or a fault together with the
repository it leaves.
-/

namespace Switchboard.Messaging

/-- Detached persisted conversation trees keyed by customer identity. -/
structure ConversationSnapshot where
  trees : Dict TreeIdentity TreeSnapshot

namespace ConversationSnapshot

def getTree (s : ConversationSnapshot) (identity : TreeIdentity) : Option TreeSnapshot :=
  s.trees.get? identity

def withTree (s : ConversationSnapshot) (tree : TreeSnapshot) : ConversationSnapshot :=
  ⟨s.trees.set tree.identity tree⟩

def withoutTree (s : ConversationSnapshot) (identity : TreeIdentity) : ConversationSnapshot :=
  ⟨s.trees.erase identity⟩

/-- Remove every tree belonging to one platform chat. -/
def withoutScope (s : ConversationSnapshot) (scope : MessageScope) : ConversationSnapshot :=
  ⟨s.trees.filter fun identity _ => identity.scope ≠ scope⟩

end ConversationSnapshot

/-- Every id under which a node of the snapshot may be looked up. -/
def TreeSnapshot.lookupIds (s : TreeSnapshot) : List String :=
  s.nodes.entries.flatMap fun (key, data) =>
    key :: match data with
      | .obj _ => [data.getD "node_id", data.getD "status_message_id"].filterMap fun j =>
          if j.isNull then none else some j.toStr
      | _ => []

/-- Aggregates, and the map from node and status references to their root. -/
structure TreeRepository where
  trees : Dict TreeIdentity MessageTree
  referenceToTree : Dict (MessageScope × String) TreeIdentity

namespace TreeRepository

def empty : TreeRepository := ⟨.empty, .empty⟩

def getTree (r : TreeRepository) (identity : TreeIdentity) : Option MessageTree :=
  r.trees.get? identity

/-- `get_tree_for_reference`, with the identity the tree is stored under. -/
def getTreeForReference (r : TreeRepository) (scope : MessageScope) (ref : String) :
    Option (TreeIdentity × MessageTree) :=
  (r.referenceToTree.get? (scope, ref)).bind fun identity =>
    (r.trees.get? identity).map fun tree => (identity, tree)

def hasReference (r : TreeRepository) (scope : MessageScope) (ref : String) : Bool :=
  r.referenceToTree.contains (scope, ref)

def registerNode (r : TreeRepository) (identity : TreeIdentity) (nodeId statusId : String) :
    Except Fault TreeRepository :=
  if r.hasReference identity.scope nodeId || r.hasReference identity.scope statusId then
    .error (.valueError "Node or status message is already registered")
  else
    .ok { r with
      referenceToTree := (r.referenceToTree.set (identity.scope, nodeId) identity).set
        (identity.scope, statusId) identity }

def addTree (r : TreeRepository) (tree : MessageTree) (nodeId statusId : String) :
    Except Fault TreeRepository :=
  if r.trees.contains tree.identity then
    .error (.valueError s!"Tree {tree.identity.rootId} already exists")
  else
    (r.registerNode tree.identity nodeId statusId).map fun r =>
      { r with trees := r.trees.set tree.identity tree }

/-- Drop the references of a set that still point to this tree. -/
def unregisterReferences (r : TreeRepository) (identity : TreeIdentity) (refs : List String) :
    TreeRepository :=
  { r with
    referenceToTree := refs.foldl (fun d ref =>
      if d.get? (identity.scope, ref) = some identity then d.erase (identity.scope, ref) else d)
      r.referenceToTree }

def removeTree (r : TreeRepository) (identity : TreeIdentity) : TreeRepository :=
  if r.trees.contains identity then
    { trees := r.trees.erase identity
      referenceToTree := r.referenceToTree.filter fun _ owner => owner ≠ identity }
  else r

/-- The state of a tree object changes where it is stored. -/
def putTree (r : TreeRepository) (identity : TreeIdentity) (tree : MessageTree) :
    TreeRepository :=
  { r with trees := r.trees.modify identity fun _ => tree }

/-- One round of the loop of `from_snapshot`: skip a snapshot that is not
accepted or that shares an identity or a reference with an earlier tree. -/
def restoreTree (st : TreeRepository × ConversationSnapshot × List NodeUiTarget)
    (snapshot : TreeSnapshot) : TreeRepository × ConversationSnapshot × List NodeUiTarget :=
  match MessageTree.fromSnapshot snapshot with
  | .error _ => st
  | .ok tree =>
    let (repo, normalized, staleTargets) := st
    let references := snapshot.lookupIds
    if repo.trees.contains tree.identity ||
        references.any (repo.hasReference tree.identity.scope) then st
    else
      ({ trees := repo.trees.set tree.identity tree
         referenceToTree := references.foldl
           (fun d ref => d.set (tree.identity.scope, ref) tree.identity) repo.referenceToTree },
        (match tree.restoredSnapshot with
          | some s => normalized.withTree s
          | none => normalized),
        staleTargets ++ tree.restoredStaleTargets)

def fromSnapshot (snapshot : ConversationSnapshot) :
    TreeRepository × ConversationSnapshot × List NodeUiTarget :=
  snapshot.trees.values.foldl restoreTree (empty, ⟨.empty⟩, [])

end TreeRepository

/-! ## The lock sections of the manager -/

namespace TreeQueueManager

/-- A value or a fault, and the repository after the lock section. -/
abbrev Outcome (α : Type) := Except Fault α × TreeRepository

/-- Run an operation of a stored tree. -/
def onTree {α : Type} (r : TreeRepository) (identity : TreeIdentity)
    (o : MessageTree.Outcome α) : Outcome α :=
  (o.1, r.putTree identity o.2)

/-- The tree that already knows the node or its status message. -/
def duplicateTree (r : TreeRepository) (scope : MessageScope) (nodeId statusId : String) :
    Option (TreeIdentity × MessageTree) :=
  match r.getTreeForReference scope nodeId with
  | some p => some p
  | none => r.getTreeForReference scope statusId

/-- `admit`: a duplicate goes to its tree, a reply to its parent's tree, anything
else becomes the root of a new tree. -/
def admitMessage (r : TreeRepository) (scope : MessageScope) (nodeId prompt statusId : String)
    (parentReference : Option String) (claimId : String) : Outcome QueueDecision :=
  match duplicateTree r scope nodeId statusId with
  | some (identity, tree) => onTree r identity (tree.enqueueOrClaim nodeId claimId)
  | none =>
    match parentReference with
    | some ref =>
      match r.getTreeForReference scope ref with
      | none => (.ok (MessageTree.rejected .parentRemoved), r)
      | some (identity, tree) => match tree.resolveReply ref with
        | none => (.ok (MessageTree.rejected .parentRemoved), r)
        | some parent =>
          match onTree r identity (tree.addAndEnqueue nodeId scope prompt statusId parent.nodeId
            parent.referenceId claimId) with
          | (.error e, r) => (.error e, r)
          | (.ok decision, r) => match r.registerNode tree.identity nodeId statusId with
            | .error e => (.error e, r)
            | .ok r => (.ok decision, r)
    | none =>
      match MessageTree.new
          { nodeId := nodeId, scope := scope, prompt := prompt, statusMessageId := some statusId }
        with
      | .error e => (.error e, r)
      | .ok tree => match tree.enqueueOrClaim nodeId claimId with
        | (.error e, _) => (.error e, r)
        | (.ok decision, tree) => match r.addTree tree nodeId statusId with
          | .error e => (.error e, r)
          | .ok r => (.ok decision, r)

def recordSession (r : TreeRepository) (claim : NodeClaim) (sessionId : String) :
    Option TreeSnapshot × TreeRepository :=
  match r.getTree claim.identity with
  | none => (none, r)
  | some tree =>
    let o := tree.recordSession claim.claimId sessionId
    (o.1, r.putTree claim.identity o.2)

def completeClaim (r : TreeRepository) (claim : NodeClaim) (sessionId : Option String) :
    Option TreeSnapshot × TreeRepository :=
  match r.getTree claim.identity with
  | none => (none, r)
  | some tree =>
    let o := tree.completeClaim claim.claimId sessionId
    (o.1, r.putTree claim.identity o.2)

def failClaim (r : TreeRepository) (claim : NodeClaim) (propagate : Bool) :
    Outcome FailureResult :=
  match r.getTree claim.identity with
  | none => (.ok MessageTree.nothingFailed, r)
  | some tree => onTree r claim.identity (tree.failClaim claim.claimId propagate)

/-- `_finish_claim` on a tree object that is published. On a detached one the
repository does not change. -/
def finishClaim (r : TreeRepository) (claim : NodeClaim) (nextClaimId : String) :
    Outcome CompletionResult :=
  match r.getTree claim.identity with
  | none => (.ok { nextClaim := none, queue := [] }, r)
  | some tree => onTree r claim.identity (tree.finishAndClaimNext claim.claimId nextClaimId)

/-- The lock section of `_cancel_node`; `none` when nothing is referenced. -/
def cancelNode (r : TreeRepository) (scope : MessageScope) (ref : String) :
    Outcome (Option TreeCancellation) :=
  match r.getTreeForReference scope ref with
  | none => (.ok none, r)
  | some (identity, tree) => match tree.resolveReply ref with
    | none => (.ok none, r)
    | some target =>
      let o := tree.cancelNode target.nodeId
      (o.1.map some, r.putTree identity o.2)

/-- The trees cancelled so far and what their cancellations gave. -/
structure Sweep where
  repository : TreeRepository
  transitions : List (TreeIdentity × TreeCancellation) := []

/-- One round of the loops over the published trees. -/
def cancelTree (s : Sweep) (identity : TreeIdentity) : Except Fault Unit × Sweep :=
  match s.repository.getTree identity with
  | none => (.ok (), s)
  | some tree => match tree.cancelAll with
    | (.error e, tree) => (.error e, { s with repository := s.repository.putTree identity tree })
    | (.ok c, tree) =>
      (.ok (),
        { repository := s.repository.putTree identity tree
          transitions := s.transitions ++ [(identity, c)] })

/-- The lock section of `_cancel_all`. -/
def cancelAll (r : TreeRepository) : Outcome (List (TreeIdentity × TreeCancellation)) :=
  match raisingLoop cancelTree r.trees.keys { repository := r } with
  | (.error e, s) => (.error e, s.repository)
  | (.ok _, s) => (.ok s.transitions, s.repository)

/-- One round of the loop of `_clear_scope`: cancel the tree and detach it. -/
def clearTree (s : Sweep) (identity : TreeIdentity) : Except Fault Unit × Sweep :=
  match cancelTree s identity with
  | (.error e, s) => (.error e, s)
  | (.ok _, s) => (.ok (), { s with repository := s.repository.removeTree identity })

/-- The lock section of `_clear_scope`. -/
def clearScope (r : TreeRepository) (scope : MessageScope) :
    Outcome (List (TreeIdentity × TreeCancellation)) :=
  match raisingLoop clearTree (r.trees.keys.filter fun i => i.scope = scope)
    { repository := r } with
  | (.error e, s) => (.error e, s.repository)
  | (.ok _, s) => (.ok s.transitions, s.repository)

/-- The lock section of `_remove_message_subtree`; `none` when nothing matched. -/
def removeMessageSubtree (r : TreeRepository) (scope : MessageScope) (ref : String)
    (order : SetOrder) : Outcome (Option MessageSubtreeRemoval) :=
  match r.getTreeForReference scope ref with
  | none => (.ok none, r)
  | some (identity, tree) => match tree.resolveReply ref with
    | none => (.ok none, r)
    | some target =>
      match tree.removeMessageSubtree target.referenceId order with
      | (.error e, tree) => (.error e, r.putTree identity tree)
      | (.ok removal, tree) =>
        let r := r.putTree identity tree
        (.ok (some removal),
          if removal.removedEntireTree then r.removeTree identity
          else r.unregisterReferences identity removal.removedMessageIds)

end TreeQueueManager

end Switchboard.Messaging
