import Switchboard.Messaging.CancellationSafety

/-!
# Runs of a message tree graph

`add_node`, `remove_nodes` with a set closed under descendants, and `clear_status`
in any order. `clear_status` alone strands the replies made to the status it
clears, so a parent reference is exact only while the parent has a status. The
removal of a literal reply subtree takes these replies along.
-/

namespace Switchboard.Messaging

namespace MessageTreeGraph

variable {g h : MessageTreeGraph}

/-! ## The invariant -/

/-- Linked, and every node but the root replies to a message of its parent, unless
the status of the parent is gone. -/
structure Tidy (g : MessageTreeGraph) : Prop extends Linked g where
  parent : ∀ {id n}, g.getNode id = some n → id ≠ g.rootId →
    ∃ p pn r, n.parentId = some p ∧ g.getNode p = some pn ∧ n.parentReferenceId = some r ∧
      ((r = p ∨ pn.statusMessageId = some r) ∨ pn.statusMessageId = none)

theorem Tidy.parentsPresent (hg : g.Tidy) : g.ParentsPresent := by
  intro id n hn hroot
  obtain ⟨p, pn, -, hp, hpn, -⟩ := hg.parent hn hroot
  exact ⟨p, pn, hp, hpn⟩

theorem WellFormed.tidy (hg : g.WellFormed) : g.Tidy where
  toLinked := hg.toLinked
  parent := by
    intro id n hn hroot
    obtain ⟨p, pn, r, hp, hpn, hr, hrp⟩ := hg.parent hn hroot
    exact ⟨p, pn, r, hp, hpn, hr, Or.inl hrp⟩

/-- With every node of the set, the set holds its logical descendants. -/
def ClosedUnderDescendants (g : MessageTreeGraph) (ids : List String) : Prop :=
  ∀ id ∈ ids, ∀ d, Descends g.childrenOf id d → d ∈ ids

theorem Tidy.added {nodeId prompt statusMessageId parentId parentReferenceId : String}
    {scope : MessageScope} (hg : g.Tidy)
    (ha : g.Added nodeId scope prompt statusMessageId parentId parentReferenceId h)
    (hne : nodeId ≠ "") : h.Tidy where
  toLinked := hg.toLinked.added hg.parentsPresent ha hne
  parent := by
    obtain ⟨pn, hpn⟩ := ha.parent
    intro id m hm hid
    rw [ha.rootId] at hid
    rcases ha.node_back hm with ⟨rfl, rfl⟩ | ⟨n, hn, rfl⟩
    · refine ⟨parentId, _, parentReferenceId, rfl, (ha.node_old hpn).2, rfl, ?_⟩
      exact Or.inl ((hg.resolves_to_iff hpn).mp ha.reference)
    · obtain ⟨p, pn', r, hp, hpn', hr, hrp⟩ := hg.parent hn hid
      exact ⟨p, _, r, hp, (ha.node_old hpn').2, hr, hrp⟩

theorem Tidy.removeNodes (hg : g.Tidy) {ids : List String}
    (hclosed : g.ClosedUnderDescendants ids) : (g.removeNodes ids).Tidy where
  toLinked := hg.toLinked.removeNodes ids
  parent := by
    intro id m hm hid
    rw [removeNodes_rootId] at hid
    rw [hg.removeNodes_getNode] at hm
    split_ifs at hm with hrem
    obtain ⟨n, hn, rfl⟩ := Option.map_eq_some_iff.mp hm
    obtain ⟨p, pn, r, hp, hpn, hr, hrp⟩ := hg.parent hn hid
    -- a removed parent would take its child along
    have hkept : p ∉ ids := by
      intro hmem
      have hchild : id ∈ g.childrenOf p :=
        mem_childrenOf.mpr ⟨pn, hpn, (hg.children hpn).mpr ⟨n, hn, hp⟩⟩
      exact hrem (hclosed p hmem id (.single hchild))
    refine ⟨p, withoutChildren ids pn, r, hp, ?_, hr, hrp⟩
    rw [hg.removeNodes_getNode, if_neg hkept, hpn]
    rfl

theorem Tidy.clearStatus (hg : g.Tidy) (id : String) : (g.clearStatus id).Tidy where
  toLinked := hg.toLinked.clearStatus id
  parent := by
    have hforth : ∀ {j k}, g.getNode j = some k → ∃ m, (g.clearStatus id).getNode j = some m ∧
        m.parentId = k.parentId ∧ m.parentReferenceId = k.parentReferenceId ∧
          (m.statusMessageId = k.statusMessageId ∨ m.statusMessageId = none) := by
      intro j k hk
      rw [getNode_clearStatus]
      split_ifs with hj
      · subst hj
        rw [hk, Option.map_some]
        split_ifs
        · exact ⟨_, rfl, rfl, rfl, Or.inr rfl⟩
        · exact ⟨_, rfl, rfl, rfl, Or.inl rfl⟩
      · exact ⟨k, hk, rfl, rfl, Or.inl rfl⟩
    intro j m hm hj
    rw [clearStatus_rootId] at hj
    obtain ⟨n, hn⟩ : ∃ n, g.getNode j = some n := by
      rw [getNode_clearStatus] at hm
      split_ifs at hm with hji
      · obtain ⟨n, hn, -⟩ := Option.map_eq_some_iff.mp hm
        exact ⟨n, hji ▸ hn⟩
      · exact ⟨m, hm⟩
    obtain ⟨m', hm', hpar, href, -⟩ := hforth hn
    rw [hm] at hm'
    cases hm'
    obtain ⟨p, pn, r, hp, hpn, hr, hrp⟩ := hg.parent hn hj
    obtain ⟨pm, hpm, -, -, hst⟩ := hforth hpn
    refine ⟨p, pm, r, hpar.trans hp, hpm, href.trans hr, ?_⟩
    rcases hst with hst | hst
    · rw [hst]
      exact hrp
    · exact Or.inr hst

end MessageTreeGraph

/-! ## Runs -/

inductive GraphOp where
  | addNode (nodeId : String) (scope : MessageScope)
      (prompt statusMessageId parentId parentReferenceId : String)
  | removeNodes (ids : List String)
  | clearStatus (nodeId : String)

namespace GraphOp

/-- The graph an operation leaves, whether it returns or raises. -/
def apply (g : MessageTreeGraph) : GraphOp → MessageTreeGraph
  | addNode id scope prompt status parent ref =>
    match g.addNode id scope prompt status parent ref with
    | .ok g' => g'
    | .error _ => g
  | removeNodes ids => g.removeNodes ids
  | clearStatus id => g.clearStatus id

/-- Message ids are not empty, and removed sets are closed under descendants. -/
def Proper (g : MessageTreeGraph) : GraphOp → Prop
  | addNode id .. => id ≠ ""
  | removeNodes ids => g.ClosedUnderDescendants ids
  | clearStatus _ => True

end GraphOp

/-- The runs of one graph, from a fresh root or from a snapshot. -/
def graphSystem : System MessageTreeGraph GraphOp where
  init g := (∃ root, MessageTreeGraph.RootNode root ∧ MessageTreeGraph.new root = .ok g) ∨
    ∃ snapshot, MessageTreeGraph.fromSnapshot snapshot = .ok g
  step g op g' := op.Proper g ∧ g' = op.apply g

namespace MessageTreeGraph

variable {g : MessageTreeGraph}

theorem tidy_of_reachable (hg : graphSystem.Reachable g) : g.Tidy := by
  refine hg.invariant (P := Tidy) ?_ ?_
  · rintro g (⟨root, hroot, hnew⟩ | ⟨snapshot, h⟩)
    · exact (wellFormed_new hroot hnew).tidy
    · exact (fromSnapshot_ok h).wellFormed.tidy
  · rintro g op _ - hg ⟨hop, rfl⟩
    cases op with
    | addNode id scope prompt status parent ref =>
      simp only [GraphOp.apply]
      split
      · next h => exact hg.added (addNode_ok h) hop
      · exact hg
    | removeNodes ids => exact hg.removeNodes hop
    | clearStatus id => exact hg.clearStatus id

/-- The shape of a graph: parents, children, reachability and the indexes. -/
structure Shape (g : MessageTreeGraph) : Prop where
  root : ∀ n, g.getNode g.rootId = some n → n.parentId = none ∧ n.parentReferenceId = none
  /-- The reference resolves to the parent, by its prompt id or its status id, as
  long as the parent has a status. -/
  parent : ∀ id n, g.getNode id = some n → id ≠ g.rootId →
    ∃ p pn r, n.parentId = some p ∧ g.getNode p = some pn ∧ n.parentReferenceId = some r ∧
      ((r = p ∨ pn.statusMessageId = some r) ∧
        (g.resolveReference r).map (·.1.nodeId) = some p ∨ pn.statusMessageId = none)
  children : ∀ p pn, g.getNode p = some pn → pn.childrenIds.Nodup ∧
    ∀ c, c ∈ pn.childrenIds ↔ ∃ cn, g.getNode c = some cn ∧ cn.parentId = some p
  reachable : ∀ id n, g.getNode id = some n →
    (∃ r, g.getNode g.rootId = some r) ∧ Descends g.childrenOf g.rootId id
  statusIndex : ∀ s id, g.statusToNode.get? s = some id ↔
    ∃ n, g.getNode id = some n ∧ n.statusMessageId = some s
  disjoint : ∀ s id, g.statusToNode.get? s = some id → g.getNode s = none

theorem Tidy.shape (hg : g.Tidy) : g.Shape where
  root := fun _ hn => hg.root hn
  parent := by
    intro id n hn hid
    obtain ⟨p, pn, r, hp, hpn, hr, hrp⟩ := hg.parent hn hid
    refine ⟨p, pn, r, hp, hpn, hr, hrp.imp_left fun h => ⟨h, ?_⟩⟩
    exact (hg.resolves_to_iff hpn).mpr h
  children := fun _ _ hn => ⟨hg.childrenNodup hn, fun _ => hg.children hn⟩
  reachable := fun _ _ hn => hg.below_root hg.parentsPresent hn
  statusIndex := fun _ _ => hg.status
  disjoint := fun _ _ hs => hg.disjoint hs

/-! ## The order of the nodes -/

theorem keys_removeNode (g : MessageTreeGraph) (id : String) :
    (g.removeNode id).nodes.keys = g.nodes.keys.filter fun j => j ≠ id := by
  cases hn : g.getNode id with
  | none =>
    rw [removeNode_of_none hn]
    refine (List.filter_eq_self.mpr fun j hj => ?_).symm
    simp only [decide_eq_true_eq]
    rintro rfl
    obtain ⟨n, hj⟩ := Dict.mem_keys.mp hj
    cases hn.symm.trans hj
  | some n =>
    rw [removeNode_of_some hn]
    refine (Dict.keys_erase _ _).trans ?_
    cases n.parentId with
    | none => rfl
    | some p => rw [Dict.keys_modify]

theorem keys_removeNodes (g : MessageTreeGraph) (ids : List String) :
    (g.removeNodes ids).nodes.keys = g.nodes.keys.filter fun j => j ∉ ids := by
  unfold removeNodes
  induction ids generalizing g with
  | nil => simp
  | cons id ids ih =>
    rw [List.foldl_cons, ih, keys_removeNode, List.filter_filter]
    refine List.filter_congr fun j _ => ?_
    simp [Bool.and_comm]

theorem keys_clearStatus (g : MessageTreeGraph) (id : String) :
    (g.clearStatus id).nodes.keys = g.nodes.keys := by
  unfold clearStatus
  split
  · rfl
  · split
    · rfl
    · exact Dict.keys_modify _ _ _

/-! ## Literal reply subtrees -/

/-- A literal reply subtree holds the logical descendants of its prompts. -/
theorem WellFormed.descends_of_child (hg : g.WellFormed) {ref id d : String}
    (hid : Descends g.referenceChildren ref id) (hd : Descends g.childrenOf id d) : Descends g.referenceChildren ref d := by
  have hstep : ∀ {p c}, Descends g.referenceChildren ref p → c ∈ g.childrenOf p →
      Descends g.referenceChildren ref c := by
    intro p c hp hc
    obtain ⟨pn, hpn, hc⟩ := mem_childrenOf.mp hc
    obtain ⟨cn, hcn, hpar⟩ := (hg.children hpn).mp hc
    have hroot : c ≠ g.rootId := by
      rintro rfl
      rw [(hg.root hcn).1] at hpar
      cases hpar
    obtain ⟨q, qn, r, hq, hqn, hr, hrp⟩ := hg.parent hcn hroot
    rw [hpar] at hq
    cases hq
    cases hpn.symm.trans hqn
    have hreply := hg.mem_referenceChildren.mpr (Or.inr ⟨cn, hcn, hr⟩)
    rcases hrp with rfl | hs
    · exact hp.tail hreply
    · exact (hp.tail (hg.mem_referenceChildren.mpr (Or.inl ⟨pn, hpn, hs⟩))).tail hreply
  induction hd with
  | refl => exact hid
  | tail _ hc ih => exact hstep ih hc

end MessageTreeGraph

namespace MessageTree

variable {t t' : MessageTree} {waiting : String → Prop}

/-- What is left of a surviving node: the owner of a status reference loses its
status, and every node loses the children that were removed. -/
def survivor (t : MessageTree) (ref : String) (removed : List String) (n : MessageNode) :
    MessageNode :=
  MessageTreeGraph.withoutChildren removed
    (if t.graph.resolveReference ref = some (n, .status) then n.clearStatus else n)

/-- The removal took exactly the messages below the reference. -/
structure RemovesSubtree (t : MessageTree) (ref : String) (r : MessageSubtreeRemoval)
    (t' : MessageTree) : Prop where
  /-- A prompt has its status below it, and a message the replies made to it. -/
  links : ∀ a c, c ∈ t.graph.referenceChildren a ↔
    (∃ n, t.graph.getNode a = some n ∧ n.statusMessageId = some c) ∨
      ∃ n, t.graph.getNode c = some n ∧ n.parentReferenceId = some a
  removed : ∀ j, j ∈ r.removedMessageIds ↔
    (t.graph.resolveReference ref).isSome ∧ Descends t.graph.referenceChildren ref j
  closed : ∀ id ∈ r.removedMessageIds,
    ∀ d, Descends t.graph.childrenOf id d → d ∈ r.removedMessageIds
  order : t'.graph.nodes.keys = t.graph.nodes.keys.filter fun j => j ∉ r.removedMessageIds
  survivors : ∀ id n, t.graph.getNode id = some n → id ∉ r.removedMessageIds →
    t'.graph.getNode id = some (t.survivor ref r.removedMessageIds n)
  entire : r.removedEntireTree = true ↔
    t.graph.rootId ∈ r.removedMessageIds ∧ (t.graph.getNode t.graph.rootId).isSome
  identity : t'.graph.identity = t.graph.identity ∧ t'.graph.rootId = t.graph.rootId

/-- A reference that is not in the tree removes nothing. -/
theorem Scheduled.removesSubtree_none (hs : t.Scheduled waiting) {ref : String}
    (href : t.graph.resolveReference ref = none) :
    t.RemovesSubtree ref nothingRemoved t where
  links := fun _ _ => hs.graph.mem_referenceChildren
  removed := by simp [nothingRemoved, href]
  closed := by simp [nothingRemoved]
  order := by simp [nothingRemoved]
  survivors := by
    intro id n hn _
    have hkeep : t.survivor ref nothingRemoved.removedMessageIds n = n := by
      simp only [survivor, href, nothingRemoved, reduceCtorEq, if_false]
      exact MessageTreeGraph.withoutChildren_of_disjoint (by simp)
    rw [hkeep, hn]
  entire := by simp [nothingRemoved]
  identity := ⟨rfl, rfl⟩

theorem Scheduled.removesSubtree (hs : t.Scheduled waiting) {ref : String}
    {r : MessageSubtreeRemoval} {mid : MessageTree} {owner : MessageNode}
    {kind : MessageReferenceKind} {removed affected : List String}
    (hd : Detached t ref r mid t' owner kind removed affected) : t.RemovesSubtree ref r t' := by
  have hg := hs.graph
  have hmid : mid.graph.Linked := (hg.of_sameShape hd.swept.graph.sameShape).toLinked
  have hsome : (t.graph.resolveReference ref).isSome := by
    rw [hd.resolved]
    rfl
  have hremoved : ∀ {j}, (t.graph.getNode j).isSome → (j ∈ removed ↔ j ∈ r.removedMessageIds) := by
    intro j hj
    rw [hd.removed_iff, hd.ids]
    exact and_iff_left hj
  obtain ⟨hown, hkind⟩ := hg.resolve_cases hd.resolved
  -- the removed children of a node are nodes
  have hunlink : ∀ {id n}, t.graph.getNode id = some n →
      n.childrenIds.filter (fun c => c ∉ removed) =
        n.childrenIds.filter fun c => c ∉ r.removedMessageIds := by
    intro id n hn
    refine List.filter_congr fun c hc => ?_
    obtain ⟨cn, hcn, -⟩ := (hg.children hn).mp hc
    exact decide_eq_decide.mpr (not_congr (hremoved (by rw [hcn]; rfl)))
  refine ⟨fun _ _ => hg.mem_referenceChildren, ?_, ?_, ?_, ?_, ?_, ?_⟩
  · intro j
    rw [hd.ids]
    exact (and_iff_right hsome).symm
  · intro id hid d hdesc
    rw [hd.ids] at hid ⊢
    exact hg.descends_of_child hid hdesc
  · have hkeys : t'.graph.nodes.keys = t.graph.nodes.keys.filter fun j => j ∉ removed := by
      rw [hd.after, ← hd.swept.graph.keys]
      refine (MessageTreeGraph.keys_removeNodes _ _).trans ?_
      split_ifs
      · rw [MessageTreeGraph.keys_clearStatus]
      · rfl
    rw [hkeys]
    refine List.filter_congr fun j hj => ?_
    obtain ⟨n, hn⟩ := Dict.mem_keys.mp hj
    exact decide_eq_decide.mpr (not_congr (hremoved (Option.isSome_iff_exists.mpr ⟨n, hn⟩)))
  · intro id n hn hid
    have hrem : id ∉ removed := by
      rw [hremoved (by rw [hn]; rfl)]
      exact hid
    by_cases hstatus : t.graph.resolveReference ref = some (n, .status)
    · rw [hd.resolved] at hstatus
      cases hstatus
      have hkey := hg.keyed hn
      subst hkey
      obtain ⟨-, hs⟩ := hkind.resolve_left (by simp)
      have hst : ∀ m : MessageNode, (m = owner ∨ m = owner.markError) →
          (if m.statusMessageId.isSome then m.clearStatus else m) = owner.clearStatus := by
        rintro m (rfl | rfl)
        · rw [hs]
          rfl
        · rw [MessageNode.markError_statusMessageId, hs]
          rfl
      rw [hd.after]
      simp only [if_true]
      rw [(hmid.clearStatus _).removeNodes_getNode, if_neg hrem,
        MessageTreeGraph.getNode_clearStatus, if_pos rfl, hd.swept.graph.of_node hn,
        Option.map_some, Option.map_some, hst _ (by split_ifs <;> simp)]
      simp only [survivor, hd.resolved, if_true, MessageTreeGraph.withoutChildren]
      congr 2
      exact (hunlink hn :)
    · have haff : id ∉ affected := by
        rw [hd.affected_iff]
        rintro ⟨-, ⟨hdesc, hnode⟩ | ⟨m, hm, rfl⟩⟩
        · exact hrem ((hd.removed_iff id).mpr ⟨hdesc, hnode⟩)
        · rw [hd.resolved] at hm
          cases hm
          cases hown.symm.trans hn
          exact hstatus hd.resolved
      rw [hd.node hs.toConsistent haff, hn, Option.map_some]
      simp only [survivor, hstatus, if_false, MessageTreeGraph.withoutChildren]
      congr 2
      exact hunlink hn
  · rw [hd.entire, decide_eq_true_eq, hd.removed_iff, hd.ids]
  · rw [hd.after]
    simp only [MessageTreeGraph.removeNodes_identity, MessageTreeGraph.removeNodes_rootId]
    split_ifs
    · rw [MessageTreeGraph.clearStatus_identity, MessageTreeGraph.clearStatus_rootId]
      exact ⟨hd.swept.graph.identity, hd.swept.graph.rootId⟩
    · exact ⟨hd.swept.graph.identity, hd.swept.graph.rootId⟩

end MessageTree

/-- Graphs keep their shape along every run; on a tree the references are exact,
and a removal that returns takes exactly one literal reply subtree. -/
theorem graph_shape :
    (∀ g, graphSystem.Reachable g → g.Shape) ∧
      ∀ r, treeSystem.Reachable r → r.tree.graph.Shape ∧
        (∀ id n, r.tree.graph.getNode id = some n → id ≠ r.tree.graph.rootId →
          r.tree.graph.RepliesToParent n) ∧
        ∀ ref order removal, (r.tree.removeMessageSubtree ref order).1 = .ok removal →
          r.tree.RemovesSubtree ref removal (r.tree.removeMessageSubtree ref order).2 := by
  refine ⟨fun g hg => (MessageTreeGraph.tidy_of_reachable hg).shape, fun r hr => ?_⟩
  have hs := (TreeRun.invariant_of_reachable hr).scheduled
  refine ⟨hs.graph.tidy.shape, fun id n hn hid => hs.graph.parent hn hid, ?_⟩
  intro ref order removal hok
  rcases hs.removeMessageSubtree_cases ref order with ⟨hnone, h⟩ | ⟨e, _, _, h, -⟩ |
    ⟨removal', mid, owner, kind, removed, affected, h, hd⟩
  · rw [h] at hok ⊢
    cases hok
    exact hs.removesSubtree_none hnone
  · rw [h] at hok
    cases hok
  · rw [h] at hok
    cases hok
    exact hs.removesSubtree hd

/-! ## A cleared status with a reply left -/

section Example

/-- A reply to the root's status, whose status is then cleared. -/
def strandedGraph : MessageTreeGraph :=
  GraphOp.apply (GraphOp.apply sampleTree.graph
    (.addNode "12" ⟨"telegram", "7"⟩ "again" "13" "10" "11")) (.clearStatus "10")

theorem strandedGraph_reachable : graphSystem.Reachable strandedGraph := by
  have start : graphSystem.Reachable sampleTree.graph :=
    .start (Or.inl ⟨sampleRoot, ⟨by decide, ⟨rfl, rfl⟩, rfl⟩, rfl⟩)
  exact (start.next ⟨by simp [GraphOp.Proper], rfl⟩).next ⟨by simp [GraphOp.Proper], rfl⟩

/-- Not every reference of a node that is not the root resolves to its parent. -/
theorem stranded_reply : ¬ ∀ g, graphSystem.Reachable g → ∀ id n, g.getNode id = some n →
    id ≠ g.rootId → ∃ r, n.parentReferenceId = some r ∧
      (g.resolveReference r).map (·.1.nodeId) = n.parentId := by
  intro h
  obtain ⟨r, hr, hres⟩ := h strandedGraph strandedGraph_reachable "12" _ rfl (by decide)
  cases hr
  revert hres
  decide +kernel

theorem graph_shape_sample : strandedGraph.Shape ∧ ∃ removal,
    (sampleTree.removeMessageSubtree "11" givenOrder).1 = .ok removal ∧
      sampleTree.RemovesSubtree "11" removal
        (sampleTree.removeMessageSubtree "11" givenOrder).2 :=
  ⟨graph_shape.1 _ strandedGraph_reachable, _, rfl,
    (graph_shape.2 _ (.start sampleTree_init)).2.2 "11" givenOrder _ rfl⟩

end Example

end Switchboard.Messaging
