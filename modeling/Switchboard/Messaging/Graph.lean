import Switchboard.Library.Explore
import Switchboard.Messaging.Model

/-!
# The message tree graph

`trees/graph.py` and the node part of `trees/snapshot.py`: parent and child
links, node lookup, the status-message index, literal reply subtrees, removal,
and restoring from a snapshot. The stack loops get as many rounds as the graph
has vertices; `Switchboard.Messaging.GraphInvariant` shows that this is enough.
-/

namespace Switchboard.Messaging

/-- Parent/child links, node lookup and status-message lookup. -/
structure MessageTreeGraph where
  rootId : String
  identity : TreeIdentity
  nodes : Dict String MessageNode
  statusToNode : Dict String String
deriving DecidableEq

namespace MessageTreeGraph

/-- The constructor: a graph with the root alone. -/
def new (root : MessageNode) : Except Fault MessageTreeGraph :=
  if root.statusMessageId = some root.nodeId then
    .error (.valueError "Prompt and status message IDs must be distinct")
  else
    .ok
      { rootId := root.nodeId
        identity := ⟨root.scope, root.nodeId⟩
        nodes := Dict.empty.set root.nodeId root
        statusToNode := match root.statusMessageId with
          | some s => Dict.empty.set s root.nodeId
          | none => Dict.empty }

def getNode (g : MessageTreeGraph) (id : String) : Option MessageNode := g.nodes.get? id

/-- The parent of a node; an empty parent id counts as none. -/
def getParent (g : MessageTreeGraph) (id : String) : Option MessageNode :=
  match g.getNode id with
  | none => none
  | some n => match n.parentId with
    | none => none
    | some p => if p = "" then none else g.getNode p

def getParentSessionId (g : MessageTreeGraph) (id : String) : Option String :=
  (g.getParent id).bind (·.sessionId)

def findNodeByStatusMessage (g : MessageTreeGraph) (statusId : String) : Option MessageNode :=
  match g.statusToNode.get? statusId with
  | none => none
  | some id => if id = "" then none else g.getNode id

/-- Resolve an exact prompt or status reference. -/
def resolveReference (g : MessageTreeGraph) (ref : String) :
    Option (MessageNode × MessageReferenceKind) :=
  match g.getNode ref with
  | some n => some (n, .prompt)
  | none => (g.findNodeByStatusMessage ref).map fun n => (n, .status)

def addNode (g : MessageTreeGraph) (nodeId : String) (scope : MessageScope) (prompt : String)
    (statusMessageId parentId parentReferenceId : String) : Except Fault MessageTreeGraph :=
  if scope ≠ g.identity.scope then
    .error (.valueError "A reply cannot cross platform chat boundaries")
  else if g.nodes.contains parentId = false then
    .error (.valueError s!"Parent node {parentId} not found in tree")
  else if (g.resolveReference parentReferenceId).map (·.1.nodeId) ≠ some parentId then
    .error (.valueError "Reply reference does not belong to its logical parent")
  else if g.nodes.contains nodeId then
    .error (.valueError s!"Node {nodeId} already exists in tree")
  else if statusMessageId = nodeId then
    .error (.valueError "Prompt and status message IDs must be distinct")
  else if g.statusToNode.contains nodeId then
    .error (.valueError s!"Message reference {nodeId} already exists in tree")
  else if g.statusToNode.contains statusMessageId then
    .error (.valueError s!"Status message {statusMessageId} already exists in tree")
  else if g.nodes.contains statusMessageId then
    .error (.valueError s!"Message reference {statusMessageId} already exists in tree")
  else
    let node : MessageNode :=
      { nodeId := nodeId, scope := scope, prompt := prompt,
        statusMessageId := some statusMessageId, state := .pending,
        parentId := some parentId, parentReferenceId := some parentReferenceId }
    .ok
      { g with
        nodes := (g.nodes.set nodeId node).modify parentId fun p =>
          { p with childrenIds := p.childrenIds ++ [nodeId] }
        statusToNode := g.statusToNode.set statusMessageId nodeId }

/-- The node ids a node lists as its children; an absent node has none. -/
def childrenOf (g : MessageTreeGraph) (id : String) : List String :=
  match g.getNode id with
  | some n => n.childrenIds
  | none => []

/-- The logical descendants of a node in visiting order, the node first. -/
def getDescendants (g : MessageTreeGraph) (id : String) : Except Fault (List String) :=
  if g.nodes.contains id = false then .ok []
  else match explore g.childrenOf g.nodes.keys.length [id] with
    | some l => .ok l
    | none => .error .loops

/-- What one node contributes to the replies below a reference: its status
message below its own prompt, and itself below the message it replies to. -/
def referenceLinks (n : MessageNode) (ref : String) : List String :=
  (if n.nodeId = ref then n.statusMessageId.toList else []) ++
    (if n.parentReferenceId = some ref then [n.nodeId] else [])

/-- The messages directly below a reference, as the loop over all nodes in
their order collects them under that key. -/
def referenceChildren (g : MessageTreeGraph) (ref : String) : List String :=
  g.nodes.values.flatMap fun n => referenceLinks n ref

/-- The literal platform reply subtree rooted at a reference. -/
def getReferenceDescendants (g : MessageTreeGraph) (ref : String) : Except Fault (List String) :=
  if (g.resolveReference ref).isNone then .ok []
  else match explore g.referenceChildren (2 * g.nodes.keys.length) [ref] with
    | some l => .ok l
    | none => .error .loops

/-- One round of `removeNodes`: unlink from the parent, drop the status index
entry, drop the node. -/
def removeNode (g : MessageTreeGraph) (id : String) : MessageTreeGraph :=
  match g.getNode id with
  | none => g
  | some n =>
    let nodes := match n.parentId with
      | some p => g.nodes.modify p fun parent =>
          { parent with childrenIds := parent.childrenIds.filter fun c => c ≠ id }
      | none => g.nodes
    let statusToNode := match n.statusMessageId with
      | some s => g.statusToNode.erase s
      | none => g.statusToNode
    { g with nodes := nodes.erase id, statusToNode := statusToNode }

/-- Remove an exact set of nodes, in whatever order the set is iterated. -/
def removeNodes (g : MessageTreeGraph) (ids : List String) : MessageTreeGraph :=
  ids.foldl removeNode g

/-- Remove one status reference while preserving its prompt node. -/
def clearStatus (g : MessageTreeGraph) (id : String) : MessageTreeGraph :=
  match g.getNode id with
  | none => g
  | some n => match n.statusMessageId with
    | none => g
    | some s =>
      { g with
        nodes := g.nodes.modify id MessageNode.clearStatus
        statusToNode := g.statusToNode.erase s }

/-- Change one node in place. -/
def updateNode (g : MessageTreeGraph) (id : String) (f : MessageNode → MessageNode) :
    MessageTreeGraph :=
  { g with nodes := g.nodes.modify id f }

def allNodes (g : MessageTreeGraph) : List MessageNode := g.nodes.values

/-- Every prompt and live status reference in the tree. -/
def allReferenceIds (g : MessageTreeGraph) : List String :=
  g.nodes.keys ++ g.statusToNode.keys

/-! ## Snapshots -/

def optionalJson : Option String → Json
  | some s => .str s
  | none => .null

/-- `node_to_snapshot`. -/
def nodeToSnapshot (n : MessageNode) : Json :=
  .obj [("node_id", .str n.nodeId), ("status_message_id", optionalJson n.statusMessageId),
    ("state", .str n.state.value), ("parent_id", optionalJson n.parentId),
    ("parent_reference_id", optionalJson n.parentReferenceId),
    ("session_id", optionalJson n.sessionId)]

def snapshot (g : MessageTreeGraph) : TreeSnapshot where
  scope := g.identity.scope
  rootId := g.rootId
  nodes :=
    { entries := g.nodes.entries.map fun e => (e.1, nodeToSnapshot e.2)
      nodup := by
        rw [List.map_map]
        exact g.nodes.nodup }

/-- `_optional_id`: `null` is absent, strings and integers are kept as text. -/
def optionalId (value : Json) (fieldName : String) : Except Fault (Option String) :=
  let accept (normalized : String) : Except Fault (Option String) :=
    if normalized = "" then
      .error (.valueError s!"Tree snapshot {fieldName} cannot be empty")
    else .ok (some normalized)
  match value with
  | .null => .ok none
  | .str s => accept s
  | .int n => accept (toString n)
  | _ => .error (.valueError s!"Tree snapshot {fieldName} must be a string or integer")

/-- `_required_id`. -/
def requiredId (value : Json) (fieldName : String) : Except Fault String :=
  match optionalId value fieldName with
  | .error e => .error e
  | .ok none => .error (.valueError s!"Tree snapshot {fieldName} is required")
  | .ok (some s) => .ok s

/-- The redundant scope carried by legacy node payloads, if present. -/
def nodeScopeFromSnapshot (data : Json) : Option MessageScope :=
  match data.getD "incoming" with
  | .obj incoming =>
    let platform := (Json.obj incoming).getD "platform"
    let chatId := (Json.obj incoming).getD "chat_id"
    if platform.isNull || chatId.isNull then none else some ⟨platform.toStr, chatId.toStr⟩
  | _ => none

/-- `MessageState(data["state"])`. -/
def stateFromSnapshot (data : Json) : Except Fault MessageState :=
  match data.get? "state" with
  | none => .error (.keyError "state")
  | some (.str s) => match MessageState.ofValue? s with
    | some st => .ok st
    | none => .error (.valueError s!"{Json.reprString s} is not a valid MessageState")
  | some j => .error (.valueError s!"{j.repr} is not a valid MessageState")

def nodeFromSnapshot (data : Json) (scope : MessageScope) : Except Fault MessageNode := do
  let state ← stateFromSnapshot data
  let statusMessageId ← optionalId (data.getD "status_message_id") "status_message_id"
  if state.runnable && statusMessageId.isNone then
    throw (.valueError "Runnable tree snapshot node requires a status message")
  let parentId ← optionalId (data.getD "parent_id") "parent_id"
  let parentReferenceId ← optionalId (data.getD "parent_reference_id") "parent_reference_id"
  let nodeId ← requiredId (data.getD "node_id") "node_id"
  let sessionId ← optionalId (data.getD "session_id") "session_id"
  return { nodeId := nodeId, scope := scope, prompt := "", statusMessageId := statusMessageId,
           state := state, parentId := parentId,
           parentReferenceId := parentReferenceId <|> parentId, sessionId := sessionId }

/-- The checks made on one entry of a snapshot before its node is built. -/
def readSnapshotNode (scope : MessageScope) (invalid : String) (data : Json) :
    Except Fault MessageNode :=
  match data with
  | .obj _ =>
    match nodeScopeFromSnapshot data with
    | none => nodeFromSnapshot data scope
    | some s =>
      if s = scope then nodeFromSnapshot data scope
      else .error (.valueError "Tree snapshot contains a cross-scope node")
  | _ => .error (.valueError invalid)

/-- Claim a message reference for a node; another node's reference is refused. -/
def ownReference (owner : Dict String String) (nodeId ref : String) :
    Except Fault (Dict String String) :=
  match owner.get? ref with
  | some o =>
    if o = nodeId then .ok (owner.set ref nodeId)
    else .error (.valueError s!"Duplicate message reference {ref} in tree snapshot")
  | none => .ok (owner.set ref nodeId)

/-- One round of the first loop of `from_snapshot`: read, check and index one
node. The second component is `reference_owner`. -/
def restoreNode (snapshot : TreeSnapshot) (st : MessageTreeGraph × Dict String String)
    (entry : String × Json) : Except Fault (MessageTreeGraph × Dict String String) :=
  if entry.1 = snapshot.rootId then .ok st
  else do
    let node ← readSnapshotNode snapshot.scope "Tree snapshot contains an invalid node" entry.2
    if entry.1 ≠ node.nodeId then
      throw (.valueError "Tree snapshot node key does not match its node ID")
    if node.statusMessageId = some node.nodeId then
      throw (.valueError "Prompt and status message IDs must be distinct")
    if st.1.nodes.contains node.nodeId then
      throw (.valueError s!"Duplicate node {node.nodeId} in tree snapshot")
    let owner ← ownReference st.2 node.nodeId node.nodeId
    match node.statusMessageId with
    | some s =>
      let owner ← ownReference owner node.nodeId s
      return ({ st.1 with
                nodes := st.1.nodes.set node.nodeId node
                statusToNode := st.1.statusToNode.set s node.nodeId }, owner)
    | none => return ({ st.1 with nodes := st.1.nodes.set node.nodeId node }, owner)

/-- One round of the second loop of `from_snapshot`: check a node's parent and
exact parent reference, and append the node to its parent's children. -/
def linkNode (g : MessageTreeGraph) (id : String) : Except Fault MessageTreeGraph :=
  match g.getNode id with
  | none => .ok g
  | some node =>
    if node.nodeId = g.rootId then .ok g
    else match node.parentId with
      | none => .error (.valueError s!"Node {node.nodeId} has no valid parent")
      | some p =>
        if g.nodes.contains p = false then
          .error (.valueError s!"Node {node.nodeId} has no valid parent")
        else match node.parentReferenceId with
          | none => .error (.valueError s!"Node {node.nodeId} has no exact parent reference")
          | some r =>
            if (g.resolveReference r).map (·.1.nodeId) ≠ some p then
              .error (.valueError s!"Node {node.nodeId} has an invalid exact parent reference")
            else
              .ok (g.updateNode p fun parent =>
                { parent with childrenIds := parent.childrenIds ++ [node.nodeId] })

def fromSnapshot (snapshot : TreeSnapshot) : Except Fault MessageTreeGraph := do
  let rootData ← match snapshot.nodes.get? snapshot.rootId with
    | some data => pure data
    | none => throw (.keyError snapshot.rootId)
  let root ← readSnapshotNode snapshot.scope "Tree snapshot contains an invalid root node" rootData
  if root.nodeId ≠ snapshot.rootId then
    throw (.valueError "Tree snapshot root key does not match its node ID")
  let start ← new root
  let owner := match root.statusMessageId with
    | some s => (Dict.empty.set root.nodeId root.nodeId).set s root.nodeId
    | none => Dict.empty.set root.nodeId root.nodeId
  let (g, _) ← snapshot.nodes.entries.foldlM (restoreNode snapshot) (start, owner)
  if root.parentId.isSome || root.parentReferenceId.isSome then
    throw (.valueError "Tree snapshot root cannot have a parent")
  let linked ← g.nodes.keys.foldlM linkNode g
  let reached ← linked.getDescendants linked.rootId
  if reached.toFinset = linked.nodes.keys.toFinset then
    return linked
  else
    throw (.valueError "Tree snapshot contains a disconnected branch")

end MessageTreeGraph

end Switchboard.Messaging
