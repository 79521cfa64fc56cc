import Switchboard.Messaging.RepositoryIndex

/-!
# Restoring from arbitrary snapshots

Whatever a snapshot holds, `from_snapshot` ends: its loops are over the nodes, and
the visit from the root is over nodes that have one parent each, the root none. So
it raises, or returns a tree. The repository skips the snapshots that raise, and
those that share a message with a tree it has already.
-/

namespace Switchboard.Messaging

/-- The exceptions that the loop over the snapshots catches. -/
def Fault.Caught : Fault → Prop
  | .keyError _ | .typeError _ | .valueError _ => True
  | .loops => False

namespace MessageTreeGraph

variable {g h : MessageTreeGraph} {snapshot : TreeSnapshot}

/-! ## What the checks raise -/

theorem optionalId_caught (value : Json) (field : String) :
    RaisesOnly Fault.Caught (optionalId value field) := by
  have haccept : ∀ s : String, RaisesOnly Fault.Caught
      (if s = "" then (.error (.valueError s!"Tree snapshot {field} cannot be empty") :
        Except Fault (Option String)) else .ok (some s)) := by
    intro s
    split_ifs
    · exact .error trivial
    · exact .ok _
  unfold optionalId
  cases value with
  | null => exact .ok _
  | str s => exact haccept s
  | int n => exact haccept _
  | _ => exact .error trivial

theorem requiredId_caught (value : Json) (field : String) :
    RaisesOnly Fault.Caught (requiredId value field) := by
  have hid := optionalId_caught value field
  unfold requiredId
  split
  · next e he => exact .error (hid e he)
  · exact .error trivial
  · exact .ok _

theorem stateFromSnapshot_caught (data : Json) :
    RaisesOnly Fault.Caught (stateFromSnapshot data) := by
  unfold stateFromSnapshot
  split
  · exact .error trivial
  · split
    · exact .ok _
    · exact .error trivial
  · exact .error trivial

theorem nodeFromSnapshot_caught (data : Json) (scope : MessageScope) :
    RaisesOnly Fault.Caught (nodeFromSnapshot data scope) := by
  unfold nodeFromSnapshot
  refine .bind (stateFromSnapshot_caught _) fun state _ => ?_
  refine .bind (optionalId_caught _ _) fun status _ => ?_
  refine .guard trivial fun _ => ?_
  refine .bind (optionalId_caught _ _) fun parent _ => ?_
  refine .bind (optionalId_caught _ _) fun reference _ => ?_
  refine .bind (requiredId_caught _ _) fun id _ => ?_
  exact .bind (optionalId_caught _ _) fun session _ => .ok _

theorem readSnapshotNode_caught (scope : MessageScope) (invalid : String) (data : Json) :
    RaisesOnly Fault.Caught (readSnapshotNode scope invalid data) := by
  unfold readSnapshotNode
  split
  · split
    · exact nodeFromSnapshot_caught _ _
    · split_ifs
      · exact nodeFromSnapshot_caught _ _
      · exact .error trivial
  · exact .error trivial

theorem ownReference_caught (owner : Dict String String) (id ref : String) :
    RaisesOnly Fault.Caught (ownReference owner id ref) := by
  unfold ownReference
  split
  · split_ifs
    · exact .ok _
    · exact .error trivial
  · exact .ok _

theorem restoreNode_caught (st : MessageTreeGraph × Dict String String)
    (entry : String × Json) : RaisesOnly Fault.Caught (restoreNode snapshot st entry) := by
  unfold restoreNode
  split_ifs
  · exact .ok _
  · refine .bind (readSnapshotNode_caught _ _ _) fun node _ => ?_
    refine .guard trivial fun _ => .guard trivial fun _ => .guard trivial fun _ => ?_
    refine .bind (ownReference_caught _ _ _) fun owner _ => ?_
    cases node.statusMessageId with
    | none => exact .ok _
    | some s => exact .bind (ownReference_caught _ _ _) fun _ _ => .ok _

theorem linkNode_caught (g : MessageTreeGraph) (id : String) :
    RaisesOnly Fault.Caught (g.linkNode id) := by
  unfold linkNode
  split
  · exact .ok _
  · split_ifs
    · exact .ok _
    · split
      · exact .error trivial
      · split_ifs
        · exact .error trivial
        · split
          · exact .error trivial
          · split_ifs
            · exact .error trivial
            · exact .ok _

theorem new_caught (root : MessageNode) : RaisesOnly Fault.Caught (new root) := by
  unfold new
  split_ifs
  · exact .error trivial
  · exact .ok _

/-! ## The visit from the root -/

section Linked

variable {scope : MessageScope} {root : MessageNode} {st : MessageTreeGraph × Dict String String}

/-- A cycle of parents may be in the graph, but the root does not lead to it. -/
theorem LinkedSoFar.treeBelow_root (hi : Indexed scope root st)
    (hroot : root.parentId = none ∧ root.parentReferenceId = none)
    (hl : st.1.LinkedSoFar st.1.nodes.keys h) : TreeBelow h.childrenOf h.rootId where
  nodup := by
    intro v
    unfold childrenOf
    cases hv : h.getNode v with
    | none => exact List.nodup_nil
    | some n => exact hl.childrenNodup hv
  parent := by
    intro v w c hv hw
    obtain ⟨n, hn, hv⟩ := mem_childrenOf.mp hv
    obtain ⟨m, hm, hw⟩ := mem_childrenOf.mp hw
    obtain ⟨cn, hcn, hpv⟩ := (hl.children hi hroot hn).mp hv
    obtain ⟨cm, hcm, hpw⟩ := (hl.children hi hroot hm).mp hw
    rw [hcn] at hcm
    cases hcm
    exact Option.some.inj (hpv.symm.trans hpw)
  root := by
    intro v _ hmem
    obtain ⟨n, hn, hc⟩ := mem_childrenOf.mp hmem
    obtain ⟨r, hr, hp⟩ := (hl.children hi hroot hn).mp hc
    obtain ⟨m, hm, rfl⟩ := hl.node_back hr
    have hnone := (hl.rootNode hi hroot hm).1
    simp only [hnone] at hp
    cases hp

theorem LinkedSoFar.getDescendants_ok (hi : Indexed scope root st)
    (hroot : root.parentId = none ∧ root.parentReferenceId = none)
    (hl : st.1.LinkedSoFar st.1.nodes.keys h) : ∃ l, h.getDescendants h.rootId = .ok l := by
  refine getDescendants_ok_of_tree (hl.treeBelow_root hi hroot) ?_
  intro v c hc
  obtain ⟨n, hn, hc⟩ := mem_childrenOf.mp hc
  obtain ⟨cn, hcn, -⟩ := (hl.children hi hroot hn).mp hc
  exact ⟨cn, hcn⟩

end Linked

theorem fromSnapshot_caught (snapshot : TreeSnapshot) :
    RaisesOnly Fault.Caught (fromSnapshot snapshot) := by
  unfold fromSnapshot
  cases snapshot.nodes.get? snapshot.rootId with
  | none => exact .bind (.error trivial) fun _ h => nomatch h
  | some data =>
    refine .bind (.ok data) fun data _ => ?_
    refine .bind (readSnapshotNode_caught _ _ _) fun root hread => ?_
    refine .guard trivial fun _ => ?_
    refine .bind (new_caught root) fun start hnew => ?_
    refine .bind (.foldlM (fun st entry _ => restoreNode_caught st entry) _) fun st hloop => ?_
    refine .guard trivial fun hparent => ?_
    refine .bind (.foldlM (fun g id _ => linkNode_caught g id) _) fun linked hlinks => ?_
    have hi : Indexed snapshot.scope root st := indexed_loop (readSnapshotNode_ok hread) hnew hloop
    obtain ⟨reached, hreached⟩ :=
      (hi.linked_loop hlinks).getDescendants_ok hi (by simpa using hparent)
    refine .bind ?_ fun _ _ => ?_
    · rw [hreached]
      exact .ok _
    · split_ifs
      · exact .ok _
      · exact .error trivial

/-! ## The tree that is returned -/

/-- A conversation tree: one root, links that agree in both directions, every node
below the root, and one node for each prompt id and each status id. -/
structure IsTree (g : MessageTreeGraph) : Prop where
  root : ∃ r, g.getNode g.rootId = some r ∧ r.parentId = none ∧ r.parentReferenceId = none
  keyed : ∀ {id n}, g.getNode id = some n → n.nodeId = id
  parent : ∀ {id n}, g.getNode id = some n → id ≠ g.rootId →
    ∃ p pn, n.parentId = some p ∧ g.getNode p = some pn
  reference : ∀ {id n}, g.getNode id = some n → id ≠ g.rootId →
    ∃ r pn kind, n.parentReferenceId = some r ∧ g.resolveReference r = some (pn, kind) ∧
      n.parentId = some pn.nodeId
  children : ∀ {p c}, c ∈ g.childrenOf p ↔ ∃ cn, g.getNode c = some cn ∧ cn.parentId = some p
  childrenNodup : ∀ p, (g.childrenOf p).Nodup
  reachable : ∀ {id n}, g.getNode id = some n → Descends g.childrenOf g.rootId id
  status : ∀ {s id}, g.statusToNode.get? s = some id ↔
    ∃ n, g.getNode id = some n ∧ n.statusMessageId = some s
  disjoint : ∀ {s id}, g.statusToNode.get? s = some id → g.getNode s = none

theorem fromSnapshot_isTree (h : fromSnapshot snapshot = .ok g) : g.IsTree := by
  have hf := fromSnapshot_ok h
  have hg := hf.wellFormed
  obtain ⟨root, st, hload⟩ := fromSnapshot_loaded h
  obtain ⟨reached, hreached, hall⟩ := hload.reached
  obtain ⟨r, hr⟩ := hf.root
  refine ⟨⟨r, hr, hg.root hr⟩, hg.keyed, ?_, ?_, ?_, ?_, ?_, hg.status, hg.disjoint⟩
  · intro id n hn hid
    obtain ⟨p, pn, -, hp, hpn, -, -⟩ := hg.parent hn hid
    exact ⟨p, pn, hp, hpn⟩
  · intro id n hn hid
    obtain ⟨p, pn, ref, hp, hpn, href, hrp⟩ := hg.parent hn hid
    rw [← hg.keyed hpn] at hp
    rcases hrp with rfl | hs
    · exact ⟨_, pn, .prompt, href, Linked.resolve_prompt hpn, hp⟩
    · exact ⟨ref, pn, .status, href, hg.resolve_status hpn hs, hp⟩
  · intro p c
    rw [mem_childrenOf]
    constructor
    · rintro ⟨pn, hpn, hc⟩
      exact (hg.children hpn).mp hc
    · rintro ⟨cn, hcn, hp⟩
      have hc : c ≠ g.rootId := by
        rintro rfl
        rw [(hg.root hcn).1] at hp
        cases hp
      obtain ⟨p', pn, -, hp', hpn, -, -⟩ := hg.parent hcn hc
      rw [hp] at hp'
      cases hp'
      exact ⟨pn, hpn, (hg.children hpn).mpr ⟨cn, hcn, hp⟩⟩
  · exact (hg.childrenTree g.rootId).nodup
  · intro id n hn
    have hmem : id ∈ reached := by
      rw [← List.mem_toFinset, hall, List.mem_toFinset, Dict.mem_keys]
      exact ⟨n, hn⟩
    exact explore_sound (getDescendants_explore hreached hmem) hmem

end MessageTreeGraph

/-! ## The repository -/

/-- A tree that is kept has the identity of `t`, or shares a message with it. -/
def Clashes (kept : List MessageTree) (t : MessageTree) : Prop :=
  ∃ u ∈ kept, u.identity = t.identity ∨ u.identity.scope = t.identity.scope ∧
    ∃ ref, u.graph.HasReference ref ∧ t.graph.HasReference ref

/-- The trees that are kept of a list of snapshots: those that are read and do not
clash with an earlier one. -/
inductive Keeps : List TreeSnapshot → List MessageTree → Prop
  | none : Keeps [] []
  | invalid {snapshots kept snapshot e} : Keeps snapshots kept →
      MessageTreeGraph.fromSnapshot snapshot = .error e → e.Caught →
      Keeps (snapshots ++ [snapshot]) kept
  | duplicate {snapshots kept snapshot t} : Keeps snapshots kept →
      MessageTree.fromSnapshot snapshot = .ok t → Clashes kept t →
      Keeps (snapshots ++ [snapshot]) kept
  | tree {snapshots kept snapshot t} : Keeps snapshots kept →
      MessageTree.fromSnapshot snapshot = .ok t → ¬ Clashes kept t →
      Keeps (snapshots ++ [snapshot]) (kept ++ [t])

theorem fromSnapshot_error {snapshot : TreeSnapshot} {e : Fault}
    (h : MessageTree.fromSnapshot snapshot = .error e) :
    MessageTreeGraph.fromSnapshot snapshot = .error e := by
  cases hg : MessageTreeGraph.fromSnapshot snapshot with
  | error e' =>
    unfold MessageTree.fromSnapshot at h
    rw [hg] at h
    cases h
    rfl
  | ok g =>
    obtain ⟨t, ht, -⟩ := MessageTree.fromSnapshot_interrupted hg
    cases h.symm.trans ht

namespace TreeRepository

/-- The repository, the snapshot to write back and the stale targets are those of the
trees that are kept. -/
structure Holds (st : TreeRepository × ConversationSnapshot × List NodeUiTarget)
    (kept : List MessageTree) : Prop where
  trees : st.1.trees.entries = kept.map fun t => (t.identity, t)
  index : st.1.IndexAgrees
  normalized : st.2.1.trees.entries = kept.map fun t => (t.identity, t.graph.snapshot)
  stale : st.2.2 = kept.flatMap (·.restoredStaleTargets)

variable {st : TreeRepository × ConversationSnapshot × List NodeUiTarget} {kept : List MessageTree}
  {snapshot : TreeSnapshot} {t : MessageTree}

theorem Holds.getTree_iff (hst : Holds st kept) {identity : TreeIdentity} :
    st.1.getTree identity = some t ↔ t ∈ kept ∧ t.identity = identity := by
  rw [getTree, Dict.get?_eq_some, hst.trees, List.mem_map]
  constructor
  · rintro ⟨u, hu, h⟩
    obtain ⟨rfl, rfl⟩ := Prod.mk.inj h
    exact ⟨hu, rfl⟩
  · rintro ⟨ht, rfl⟩
    exact ⟨t, ht, rfl⟩

/-- The test of the loop finds out whether the tree clashes. -/
theorem Holds.clashes_iff (hst : Holds st kept) (ht : MessageTree.fromSnapshot snapshot = .ok t) :
    (st.1.trees.contains t.identity ||
      snapshot.lookupIds.any (st.1.hasReference t.identity.scope)) = true ↔ Clashes kept t := by
  have hidentity : st.1.trees.contains t.identity = true ↔
      ∃ u ∈ kept, u.identity = t.identity := by
    rw [Dict.contains_iff]
    exact exists_congr fun u => hst.getTree_iff
  have hused : ∀ ref, st.1.hasReference t.identity.scope ref = true ↔
      ∃ u ∈ kept, u.identity.scope = t.identity.scope ∧ u.graph.HasReference ref := by
    intro ref
    rw [hasReference, Dict.contains_iff]
    constructor
    · rintro ⟨i, hi⟩
      obtain ⟨u, hu, hscope, href⟩ := hst.index.index.mp hi
      exact ⟨u, (hst.getTree_iff.mp hu).1, hscope, href⟩
    · rintro ⟨u, hu, hscope, href⟩
      exact ⟨_, hst.index.index.mpr ⟨u, hst.getTree_iff.mpr ⟨hu, rfl⟩, hscope, href⟩⟩
  rw [Bool.or_eq_true, List.any_eq_true, hidentity]
  simp only [hused, ← MessageTree.fromSnapshot_hasReference ht]
  constructor
  · rintro (⟨u, hu, hid⟩ | ⟨ref, hnew, u, hu, hscope, hold⟩)
    · exact ⟨u, hu, Or.inl hid⟩
    · exact ⟨u, hu, Or.inr ⟨hscope, ref, hold, hnew⟩⟩
  · rintro ⟨u, hu, hid | ⟨hscope, ref, hold, hnew⟩⟩
    · exact Or.inl ⟨u, hu, hid⟩
    · exact Or.inr ⟨ref, hnew, u, hu, hscope, hold⟩

theorem snapshot_identity (ht : MessageTree.fromSnapshot snapshot = .ok t) :
    t.graph.snapshot.identity = t.identity := by
  obtain ⟨g, hg, hi⟩ := MessageTree.fromSnapshot_cases ht
  have hf := MessageTreeGraph.fromSnapshot_ok hg
  have hidentity : t.identity = snapshot.identity := hi.graph.identity.trans hf.identity
  have hroot : t.graph.rootId = snapshot.rootId := hi.graph.rootId.trans hf.rootId
  have hscope : t.graph.identity.scope = snapshot.scope := congrArg TreeIdentity.scope hidentity
  rw [hidentity]
  simp only [TreeSnapshot.identity, MessageTreeGraph.snapshot, hroot, hscope]

/-- One more snapshot. -/
theorem Holds.restoreTree (hst : Holds st kept) {snapshots : List TreeSnapshot}
    (hkeeps : Keeps snapshots kept) (snapshot : TreeSnapshot) :
    ∃ kept', Keeps (snapshots ++ [snapshot]) kept' ∧
      Holds (TreeRepository.restoreTree st snapshot) kept' := by
  have hindex := indexAgrees_restoreTree hst.index snapshot
  cases ht : MessageTree.fromSnapshot snapshot with
  | error e =>
    have hg := fromSnapshot_error ht
    have hsame : TreeRepository.restoreTree st snapshot = st := by
      unfold TreeRepository.restoreTree
      rw [ht]
    rw [hsame]
    exact ⟨kept, .invalid hkeeps hg (MessageTreeGraph.fromSnapshot_caught snapshot e hg), hst⟩
  | ok t =>
    have hclash := hst.clashes_iff ht
    by_cases hc : Clashes kept t
    · have hsame : TreeRepository.restoreTree st snapshot = st := by
        unfold TreeRepository.restoreTree
        rw [ht]
        simp only [hclash.mpr hc, if_true]
      rw [hsame]
      exact ⟨kept, .duplicate hkeeps ht hc, hst⟩
    · refine ⟨kept ++ [t], .tree hkeeps ht hc, ?_⟩
      have hident : t.identity ∉ kept.map MessageTree.identity := by
        intro hmem
        obtain ⟨u, hu, hid⟩ := List.mem_map.mp hmem
        exact hc ⟨u, hu, Or.inl hid⟩
      have hold : t.identity ∉ st.1.trees.keys := by
        rw [Dict.keys, hst.trees, List.map_map]
        exact hident
      have hnormal : t.identity ∉ st.2.1.trees.keys := by
        rw [Dict.keys, hst.normalized, List.map_map]
        exact hident
      obtain ⟨g, hg, hi⟩ := MessageTree.fromSnapshot_cases ht
      have hstep : TreeRepository.restoreTree st snapshot =
          ({ trees := st.1.trees.set t.identity t
             referenceToTree := snapshot.lookupIds.foldl
               (fun d ref => d.set (t.identity.scope, ref) t.identity) st.1.referenceToTree },
            st.2.1.withTree t.graph.snapshot, st.2.2 ++ t.restoredStaleTargets) := by
        unfold TreeRepository.restoreTree
        rw [ht]
        simp only [mt hclash.mp hc, hi.snapshot]
        rfl
      rw [hstep] at hindex ⊢
      refine ⟨?_, hindex, ?_, ?_⟩
      · simp only [Dict.entries_set_of_not_mem _ _ hold, hst.trees, List.map_append,
          List.map_cons, List.map_nil]
      · simp only [ConversationSnapshot.withTree, snapshot_identity ht,
          Dict.entries_set_of_not_mem _ _ hnormal, hst.normalized, List.map_append,
          List.map_cons, List.map_nil]
      · simp only [hst.stale, List.flatMap_append, List.flatMap_cons, List.flatMap_nil,
          List.append_nil]

theorem holds_foldl (snapshots : List TreeSnapshot) :
    ∃ kept, Keeps snapshots kept ∧
      Holds (snapshots.foldl TreeRepository.restoreTree (empty, ⟨.empty⟩, [])) kept := by
  induction snapshots using List.reverseRecOn with
  | nil => exact ⟨[], .none, rfl, indexAgrees_empty, rfl, rfl⟩
  | append_singleton snapshots snapshot ih =>
    obtain ⟨kept, hkeeps, hst⟩ := ih
    rw [List.foldl_append]
    exact hst.restoreTree hkeeps snapshot

end TreeRepository

/-- Reading a snapshot raises one of the exceptions that the repository catches, or
gives a tree; and the repository skips the snapshots that raise and those that clash
with a tree it has, and holds the trees of all the others. -/
theorem restore_total :
    (∀ snapshot, (∃ e, MessageTreeGraph.fromSnapshot snapshot = .error e ∧ e.Caught) ∨
      ∃ g, MessageTreeGraph.fromSnapshot snapshot = .ok g ∧ g.IsTree) ∧
    ∀ s : ConversationSnapshot, ∃ kept, Keeps s.trees.values kept ∧
      TreeRepository.Holds (TreeRepository.fromSnapshot s) kept := by
  refine ⟨fun snapshot => ?_, fun s => TreeRepository.holds_foldl s.trees.values⟩
  refine (MessageTreeGraph.fromSnapshot_caught snapshot).cases.imp_right ?_
  rintro ⟨g, hg⟩
  exact ⟨g, hg, MessageTreeGraph.fromSnapshot_isTree hg⟩

section Example

/-- A prompt without replies whose answer is the message `9`. -/
def answered (rootId : String) : TreeSnapshot where
  scope := ⟨"telegram", "7"⟩
  rootId := rootId
  nodes := Dict.empty.set rootId
    (.obj [("node_id", .str rootId), ("status_message_id", .str "9"), ("state", .str "completed")])

def twoTrees : ConversationSnapshot :=
  (⟨.empty⟩ : ConversationSnapshot).withTree (answered "1") |>.withTree (answered "2")

/-- A snapshot that is read without an error is skipped, because an earlier tree has
the same answer. -/
theorem skips_duplicate : ¬ ∀ s : ConversationSnapshot, ∀ snapshot ∈ s.trees.values,
    (MessageTreeGraph.fromSnapshot snapshot).isOk = true →
      ((TreeRepository.fromSnapshot s).1.getTree snapshot.identity).isSome = true := by
  intro h
  have hmem : answered "2" ∈ twoTrees.trees.values :=
    Dict.mem_values.mpr ⟨(answered "2").identity, Dict.get?_set_self _ _ _⟩
  have hok : (MessageTreeGraph.fromSnapshot (answered "2")).isOk = true := by decide +kernel
  have hskipped : ((TreeRepository.fromSnapshot twoTrees).1.getTree
      (answered "2").identity).isSome = false := by decide +kernel
  rw [h twoTrees (answered "2") hmem hok] at hskipped
  cases hskipped

end Example

end Switchboard.Messaging
