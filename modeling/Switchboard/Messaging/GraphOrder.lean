import Switchboard.Messaging.GraphRuns

/-!
# The order of a message tree

Nodes are kept in the order they were added, the root first, and the children of a
node in the same order. `GraphMove` says what one operation on a tree does to its
graph; what every move keeps, a run keeps.
-/

namespace Switchboard.Messaging

namespace MessageTreeGraph

variable {g h : MessageTreeGraph}

/-! ## Moves -/

/-- `h` is `g` with node states and sessions changed; a session set on the way is
not empty. -/
structure Restated (g h : MessageTreeGraph) : Prop extends SameShape g h where
  kept : ∀ {id n m}, g.getNode id = some n → h.getNode id = some m →
    m.scope = n.scope ∧ m.prompt = n.prompt ∧
      (m.sessionId = n.sessionId ∨ m.sessionId ≠ some "")

theorem Restated.refl (g : MessageTreeGraph) : g.Restated g where
  toSameShape := SameShape.refl g
  kept := by
    intro id n m hn hm
    cases hn.symm.trans hm
    exact ⟨rfl, rfl, Or.inl rfl⟩

theorem restated_updateState (g : MessageTreeGraph) (id : String) (state : MessageState)
    (sessionId : Option String) :
    g.Restated (g.updateNode id fun n => n.updateState state sessionId) where
  toSameShape := sameShape_updateNode g id fun n => n.sameLinks_updateState state sessionId
  kept := by
    intro j n m hn hm
    rw [getNode_updateNode] at hm
    split_ifs at hm with hj
    · subst hj
      rw [hn] at hm
      cases hm
      refine ⟨rfl, rfl, ?_⟩
      cases sessionId with
      | none => exact Or.inl rfl
      | some s =>
        by_cases hs : s = ""
        · exact Or.inl (by simp [MessageNode.updateState, hs])
        · exact Or.inr (by simp [MessageNode.updateState, hs])
    · cases hn.symm.trans hm
      exact ⟨rfl, rfl, Or.inl rfl⟩

theorem Marked.restated {ids : List String} (hm : Marked ids g h) : g.Restated h where
  toSameShape := hm.sameShape
  kept := by
    intro id n m hn hm'
    rw [hm.of_node hn] at hm'
    cases hm'
    split_ifs <;> exact ⟨rfl, rfl, Or.inl rfl⟩

/-- What one operation on a tree does to its graph. -/
inductive GraphMove (g : MessageTreeGraph) : MessageTreeGraph → Prop
  | restated {h : MessageTreeGraph} (hs : g.Restated h) : GraphMove g h
  | added {nodeId prompt statusMessageId parentId parentReferenceId : String}
    {scope : MessageScope} {mid h : MessageTreeGraph}
    (ha : g.addNode nodeId scope prompt statusMessageId parentId parentReferenceId = .ok mid)
    (hs : mid.Restated h) : GraphMove g h
  | removed {mid ref owner kind ids} (hs : g.Restated mid)
    (hres : g.resolveReference ref = some (owner, kind))
    (hids : ∀ {j n}, g.getNode j = some n → (j ∈ ids ↔ Descends g.referenceChildren ref j)) :
    GraphMove g
      ((if kind = .status then mid.clearStatus owner.nodeId else mid).removeNodes ids)

end MessageTreeGraph

namespace TreeOp

open MessageTree MessageTreeGraph

variable {t t' u : MessageTree} {waiting : String → Prop} {id claimId : String}
  {r : Except Fault QueueDecision}

theorem restated_claims {n : MessageNode} {c : NodeClaim} (h : Claims t id n claimId c t') :
    t.graph.Restated t'.graph := by
  rw [h.graph]
  exact restated_updateState _ _ _ _

theorem restated_enqueued (h : Enqueued t id claimId r t') : t.graph.Restated t'.graph := by
  cases h with
  | duplicate => exact .refl _
  | claimed _ _ _ hc => exact restated_claims hc
  | queued => exact .refl _

/-- An operation that neither adds nor removes a message. -/
def KeepsMessages : TreeOp → Prop
  | addAndEnqueue .. | removeMessageSubtree .. => False
  | _ => True

theorem restated {op : TreeOp} (hs : t.Scheduled waiting) (hop : op.KeepsMessages) :
    t.graph.Restated (op.apply t).graph := by
  cases op with
  | addAndEnqueue => exact hop.elim
  | enqueueOrClaim id claimId => exact restated_enqueued (hs.enqueueOrClaim_cases id claimId)
  | finishAndClaimNext claimId nextClaimId =>
    obtain ⟨next, queue, -, hfin⟩ := hs.finishAndClaimNext_cases claimId nextClaimId
    simp only [apply]
    generalize (t.finishAndClaimNext claimId nextClaimId).2 = t' at hfin
    cases hfin with
    | stale => exact .refl _
    | idle => exact .refl _
    | next _ _ _ _ hc => exact (restated_claims hc :)
  | cancelNode id => exact (hs.cancelNode_spec id).1.graph.restated
  | cancelAll =>
    rcases hs.cancelAll_spec with ⟨_, _, -, hsw, -⟩ | ⟨_, _, -, hsw, -⟩
    · exact hsw.graph.restated
    · exact hsw.graph.restated
  | removeMessageSubtree => exact hop.elim
  | recordSession claimId sessionId =>
    rcases t.recordSession_cases claimId sessionId with h | ⟨c, n, -, -, -, h⟩
    · simp only [apply, h]
      exact .refl _
    · simp only [apply, h]
      exact restated_updateState _ _ _ _
  | completeClaim claimId sessionId =>
    rcases t.completeClaim_cases claimId sessionId with h | ⟨c, n, -, -, -, h⟩
    · simp only [apply, h]
      exact .refl _
    · simp only [apply, h]
      exact restated_updateState _ _ _ _
  | failClaim claimId propagate =>
    obtain ⟨_, _, -, hsw, -⟩ := hs.failClaim_spec claimId propagate
    exact hsw.graph.restated

/-- The move an operation makes. -/
theorem graphMove {op : TreeOp} (hs : t.Scheduled waiting) (hop : op.ProperId) :
    GraphMove t.graph (op.apply t).graph := by
  cases op with
  | addAndEnqueue id scope prompt status parent ref claimId =>
    simp only [apply, MessageTree.addAndEnqueue]
    cases hadd : t.graph.addNode id scope prompt status parent ref with
    | error e => exact .restated (.refl _)
    | ok g =>
      have hsg := hs.added hop (addNode_ok hadd)
      exact .added hadd (restated_enqueued (hsg.toConsistent.enqueueOrClaim_cases id claimId))
  | removeMessageSubtree ref order =>
    rcases hs.removeMessageSubtree_cases ref order with ⟨-, h⟩ | ⟨_, _, _, -, hsw, -⟩ |
      ⟨_, mid, owner, kind, removed, affected, -, hd⟩
    · simp only [apply, h]
      exact .restated (.refl _)
    · exact .restated hsw.graph.restated
    · simp only [apply]
      rw [hd.after]
      refine .removed hd.swept.graph.restated hd.resolved ?_
      intro j n hn
      rw [hd.removed_iff, hn]
      exact and_iff_left rfl
  | _ => exact .restated (restated hs trivial)

end TreeOp

namespace MessageTreeGraph

variable {g h : MessageTreeGraph} {nodeId prompt statusMessageId parentId parentReferenceId :
  String} {scope : MessageScope}

/-! ## The order of nodes and children -/

def parentOf (g : MessageTreeGraph) (id : String) : Option String :=
  (g.getNode id).bind (·.parentId)

/-- Scopes, the place of the root, and the order of the children. -/
structure Ordered (g : MessageTreeGraph) : Prop where
  scope : ∀ {id n}, g.getNode id = some n → n.scope = g.identity.scope
  rootId : g.identity.rootId = g.rootId
  rootFirst : ∀ {r}, g.getNode g.rootId = some r → ∃ rest, g.nodes.keys = g.rootId :: rest
  children : ∀ {p pn}, g.getNode p = some pn →
    pn.childrenIds = g.nodes.keys.filter fun c => g.parentOf c = some p

/-- A graph with the same nodes in the same order, under the same parents. -/
theorem Ordered.congr (ho : g.Ordered) (hroot : h.rootId = g.rootId)
    (hident : h.identity = g.identity) (hkeys : h.nodes.keys = g.nodes.keys)
    (hnode : ∀ {j m}, h.getNode j = some m → ∃ n, g.getNode j = some n ∧ m.scope = n.scope ∧
      m.parentId = n.parentId ∧ m.childrenIds = n.childrenIds) : h.Ordered := by
  have hexists : ∀ {j n}, g.getNode j = some n → ∃ m, h.getNode j = some m := by
    intro j n hn
    have hj : j ∈ g.nodes.keys := Dict.mem_keys.mpr ⟨n, hn⟩
    rw [← hkeys] at hj
    exact Dict.mem_keys.mp hj
  have hparent : ∀ j, h.parentOf j = g.parentOf j := by
    intro j
    unfold parentOf
    cases hm : h.getNode j with
    | some m =>
      obtain ⟨n, hn, -, hp, -⟩ := hnode hm
      rw [hn]
      exact hp
    | none =>
      cases hn : g.getNode j with
      | none => rfl
      | some n =>
        obtain ⟨m, hm'⟩ := hexists hn
        rw [hm] at hm'
        cases hm'
  refine ⟨?_, ?_, ?_, ?_⟩
  · intro j m hm
    obtain ⟨n, hn, hs, -⟩ := hnode hm
    rw [hs, hident]
    exact ho.scope hn
  · rw [hident, hroot]
    exact ho.rootId
  · intro r hr
    rw [hroot] at hr ⊢
    obtain ⟨n, hn, -⟩ := hnode hr
    rw [hkeys]
    exact ho.rootFirst hn
  · intro p pm hp
    obtain ⟨pn, hpn, -, -, hc⟩ := hnode hp
    simp only [hc, ho.children hpn, hkeys, hparent]

theorem Ordered.restated (ho : g.Ordered) (hs : g.Restated h) : h.Ordered := by
  refine ho.congr hs.rootId hs.identity hs.keys ?_
  intro j m hm
  obtain ⟨n, hn, hl⟩ := hs.node_back hm
  exact ⟨n, hn, (hs.kept hn hm).1, hl.parent, hl.children⟩

theorem Ordered.clearStatus (ho : g.Ordered) (id : String) : (g.clearStatus id).Ordered := by
  refine ho.congr (clearStatus_rootId g id) (clearStatus_identity g id) (keys_clearStatus g id) ?_
  intro j m hm
  rw [getNode_clearStatus] at hm
  split_ifs at hm with hj
  · subst hj
    obtain ⟨n, hn, rfl⟩ := Option.map_eq_some_iff.mp hm
    refine ⟨n, hn, ?_⟩
    split_ifs <;> exact ⟨rfl, rfl, rfl⟩
  · exact ⟨m, hm, rfl, rfl, rfl⟩

theorem Ordered.removeNodes (ho : g.Ordered) (hg : g.Linked) (ids : List String) :
    (g.removeNodes ids).Ordered := by
  have hback : ∀ {j m}, (g.removeNodes ids).getNode j = some m →
      j ∉ ids ∧ ∃ n, g.getNode j = some n ∧ m = withoutChildren ids n := by
    intro j m hm
    rw [hg.removeNodes_getNode] at hm
    split_ifs at hm with hj
    obtain ⟨n, hn, rfl⟩ := Option.map_eq_some_iff.mp hm
    exact ⟨hj, n, hn, rfl⟩
  have hparent : ∀ j, j ∉ ids → (g.removeNodes ids).parentOf j = g.parentOf j := by
    intro j hj
    unfold parentOf
    rw [hg.removeNodes_getNode, if_neg hj]
    cases g.getNode j <;> rfl
  refine ⟨?_, ?_, ?_, ?_⟩
  · intro j m hm
    obtain ⟨-, n, hn, rfl⟩ := hback hm
    rw [removeNodes_identity]
    exact (ho.scope hn :)
  · rw [removeNodes_identity, removeNodes_rootId]
    exact ho.rootId
  · intro r hr
    rw [removeNodes_rootId] at hr ⊢
    obtain ⟨hroot, n, hn, -⟩ := hback hr
    obtain ⟨rest, hrest⟩ := ho.rootFirst hn
    refine ⟨rest.filter fun j => j ∉ ids, ?_⟩
    rw [keys_removeNodes, hrest, List.filter_cons_of_pos (by simpa using hroot)]
  · intro p pm hp
    obtain ⟨-, pn, hpn, rfl⟩ := hback hp
    rw [keys_removeNodes, List.filter_filter]
    change pn.childrenIds.filter _ = _
    rw [ho.children hpn, List.filter_filter]
    refine List.filter_congr fun c _ => ?_
    by_cases hc : c ∈ ids
    · simp [hc]
    · simp [hc, hparent c hc]

theorem keys_addNode
    (ha : g.addNode nodeId scope prompt statusMessageId parentId parentReferenceId = .ok h) :
    h.nodes.keys = g.nodes.keys ++ [nodeId] := by
  have hfresh : nodeId ∉ g.nodes.keys := Dict.get?_eq_none.mp (addNode_ok ha).freshNode
  unfold addNode at ha
  split_ifs at ha
  cases ha
  simp only [Dict.keys_modify]
  exact Dict.keys_set_of_not_mem _ _ hfresh

theorem Ordered.added (ho : g.Ordered) (hg : g.WellFormed)
    (hadd : g.addNode nodeId scope prompt statusMessageId parentId parentReferenceId = .ok h) :
    h.Ordered := by
  have ha := addNode_ok hadd
  have hkeys := keys_addNode hadd
  obtain ⟨pn, hpn⟩ := ha.parent
  obtain ⟨root, hroot⟩ := hg.root_exists hpn
  have hnew : h.parentOf nodeId = some parentId := by
    unfold parentOf
    rw [ha.node_new]
    rfl
  have hold : ∀ {j n}, g.getNode j = some n → h.parentOf j = g.parentOf j := by
    intro j n hn
    unfold parentOf
    rw [(ha.node_old hn).2, hn]
    rfl
  have hnochild : ∀ {j n}, g.getNode j = some n → g.parentOf j ≠ some nodeId := by
    intro j n hn hp
    have hpar : n.parentId = some nodeId := by
      unfold parentOf at hp
      rwa [hn] at hp
    by_cases hj : j = g.rootId
    · rw [(hg.root (hj ▸ hn)).1] at hpar
      cases hpar
    · obtain ⟨p, q, hp', hq⟩ := hg.parentsPresent hn hj
      rw [hpar] at hp'
      cases hp'
      rw [ha.freshNode] at hq
      cases hq
  refine ⟨?_, ?_, ?_, ?_⟩
  · intro j m hm
    rw [ha.identity]
    rcases ha.node_back hm with ⟨rfl, rfl⟩ | ⟨n, hn, rfl⟩
    · exact ha.sameScope
    · exact (ho.scope hn :)
  · rw [ha.identity, ha.rootId]
    exact ho.rootId
  · intro r _
    obtain ⟨rest, hrest⟩ := ho.rootFirst hroot
    rw [hkeys, hrest, ha.rootId]
    exact ⟨rest ++ [nodeId], rfl⟩
  · intro p pm hp
    have hfilter : g.nodes.keys.filter (fun c => h.parentOf c = some p) =
        g.nodes.keys.filter fun c => g.parentOf c = some p := by
      refine List.filter_congr fun c hc => ?_
      obtain ⟨n, hn⟩ := Dict.mem_keys.mp hc
      rw [hold hn]
    rw [hkeys, List.filter_append, hfilter]
    rcases ha.node_back hp with ⟨rfl, rfl⟩ | ⟨n, hn, rfl⟩
    · have hnone : g.nodes.keys.filter (fun c => g.parentOf c = some p) = [] := by
        rw [List.filter_eq_nil_iff]
        intro c hc
        obtain ⟨n, hn⟩ := Dict.mem_keys.mp hc
        simpa using hnochild hn
      rw [hnone]
      simp [hnew, ha.ne_parent, newReply]
    · by_cases hpp : p = parentId
      · subst hpp
        simp [hnew, ho.children hn]
      · have hne : parentId ≠ p := fun h => hpp h.symm
        simp [hnew, hpp, hne, ho.children hn]

theorem Ordered.move (ho : g.Ordered) (hg : g.WellFormed) (hm : g.GraphMove h) : h.Ordered := by
  cases hm with
  | restated hs => exact ho.restated hs
  | added ha hs => exact (ho.added hg ha).restated hs
  | @removed mid ref owner kind ids hs _ _ =>
    have hmid := ho.restated hs
    have hlinked := (hg.of_sameShape hs.toSameShape).toLinked
    split_ifs
    · exact (hmid.clearStatus _).removeNodes (hlinked.clearStatus _) ids
    · exact hmid.removeNodes hlinked ids

/-! ## Starting points -/

theorem ordered_new {root : MessageNode} (hroot : RootNode root) (h : new root = .ok g) :
    g.Ordered := by
  obtain ⟨-, hid, hident, hnode, -⟩ := new_ok h
  have hkeys : g.nodes.keys = [root.nodeId] := by
    unfold new at h
    split_ifs at h
    cases h
    rfl
  have hback : ∀ {j n}, g.getNode j = some n → j = root.nodeId ∧ n = root := by
    intro j n hn
    rw [hnode] at hn
    split_ifs at hn with hj
    exact ⟨hj, (Option.some.inj hn).symm⟩
  refine ⟨?_, ?_, ?_, ?_⟩
  · intro j n hn
    rw [(hback hn).2, hident]
  · rw [hident, hid]
  · intro _ _
    rw [hkeys, hid]
    exact ⟨[], rfl⟩
  · intro p pn hp
    have hpar : g.parentOf root.nodeId = none := by
      unfold parentOf
      rw [hnode, if_pos rfl]
      exact hroot.noParent.1
    rw [(hback hp).2, hroot.noChildren, hkeys]
    simp [hpar]

theorem ordered_fromSnapshot {snapshot : TreeSnapshot} (h : fromSnapshot snapshot = .ok g) :
    g.Ordered := by
  obtain ⟨root, st, hload⟩ := fromSnapshot_loaded h
  have hi := hload.indexed
  have hl := hload.linked
  have hback : ∀ {j m}, g.getNode j = some m → ∃ n, st.1.getNode j = some n ∧
      m = { n with childrenIds := st.1.nodes.keys.filter (st.1.LinksBelow j) } := by
    intro j m hm
    rw [hl.node] at hm
    obtain ⟨n, hn, rfl⟩ := Option.map_eq_some_iff.mp hm
    exact ⟨n, hn, rfl⟩
  have hparent : ∀ j, g.parentOf j = st.1.parentOf j := by
    intro j
    unfold parentOf
    rw [hl.node]
    cases st.1.getNode j <;> rfl
  have hroot : st.1.rootId = root.nodeId := hi.rootId
  refine ⟨?_, ?_, ?_, ?_⟩
  · intro j m hm
    obtain ⟨n, hn, rfl⟩ := hback hm
    rw [hl.identity, hi.identity]
    exact (hi.read hn).scope
  · rw [hl.identity, hi.identity, hl.rootId, hroot]
  · intro _ _
    rw [hload.keys, hl.rootId, hroot]
    exact hload.rootFirst
  · intro p pm hp
    obtain ⟨pn, -, rfl⟩ := hback hp
    rw [hload.keys]
    refine List.filter_congr fun c _ => ?_
    rw [hparent]
    refine decide_eq_decide.mpr (and_iff_right_of_imp ?_)
    -- the root has no parent
    rintro hc rfl
    rw [hroot, hi.root] at hc
    simp [hload.noParent.1] at hc

end MessageTreeGraph

/-- Along every run of a tree its graph is ordered. -/
theorem TreeRun.ordered_of_reachable {r : TreeRun} (hr : treeSystem.Reachable r) :
    r.tree.graph.Ordered := by
  refine hr.invariant (P := fun r => r.tree.graph.Ordered) ?_ ?_
  · rintro r (⟨hroot, -, -, hnew⟩ | h)
    · obtain ⟨g, hg, rfl⟩ := MessageTree.new_ok hnew
      exact MessageTreeGraph.ordered_new hroot hg
    · obtain ⟨g, hg, hi⟩ := MessageTree.fromSnapshot_cases h
      exact (MessageTreeGraph.ordered_fromSnapshot hg).restated hi.graph.restated
  · rintro r op _ hreach ho ⟨hop, rfl⟩
    have hs := (TreeRun.invariant_of_reachable hreach).scheduled
    exact ho.move hs.graph (TreeOp.graphMove hs hop)

end Switchboard.Messaging
