import Switchboard.Library.Run
import Switchboard.Messaging.GraphRestore
import Switchboard.Messaging.TreeRemoval

/-!
# Runs of one tree

A tree starts from a fresh root or from a snapshot and takes operations one after
the other, each under the aggregate lock. An operation that raises leaves the
tree it reached. The invariant of `TreeInvariant` holds in every state.
-/

namespace Switchboard.Messaging

namespace MessageTree

variable {t t' : MessageTree} {waiting : String → Prop} {id claimId : String} {n : MessageNode}

/-! ## Recording outcomes -/

/-- A node past `PENDING` takes a new state past `PENDING`. -/
theorem Scheduled.updateState {st : MessageState} {sessionId : Option String}
    (hs : t.Scheduled waiting) (hn : t.graph.getNode id = some n) (hp : n.state ≠ .pending)
    (hst : st ≠ .pending) (hrun : st.runnable = true → n.state.runnable = true) :
    (t.update id fun n => n.updateState st sessionId).Scheduled waiting := by
  have hnode : ∀ j, (t.update id fun n => n.updateState st sessionId).graph.getNode j =
      if j = id then some (n.updateState st sessionId) else t.graph.getNode j := by
    intro j
    rw [update, MessageTreeGraph.getNode_updateNode, hn]
    rfl
  have hnq : id ∉ t.queue.deque := by
    intro hq
    obtain ⟨m, hm, hmp⟩ := hs.queued id hq
    rw [hn] at hm
    cases hm
    exact hp hmp
  refine ⟨⟨?_, ?_, ?_, ?_⟩, hs.idle, ?_⟩
  · exact hs.graph.updateNode id fun n => n.sameLinks_updateState _ _
  · intro j hj
    have hjid : j ≠ id := by
      rintro rfl
      exact hnq hj
    rw [hnode, if_neg hjid]
    exact hs.queued j hj
  · intro j m hm hmp
    rw [hnode] at hm
    split_ifs at hm with hj
    · cases hm
      exact absurd hmp hst
    · exact hs.pending hm hmp
  · intro j m hm hr
    rw [hnode] at hm
    split_ifs at hm with hj
    · cases hm
      exact (hs.status hn (hrun hr) :)
    · exact hs.status hm hr
  · intro a ha hf
    rw [hnode]
    split_ifs with hj
    · exact ⟨_, rfl, hst⟩
    · exact hs.claimed ha hf

/-- `record_session` writes the session of the node in progress, or nothing. -/
theorem recordSession_cases (t : MessageTree) (claimId sessionId : String) :
    t.recordSession claimId sessionId = (none, t) ∨
      ∃ c n, t.openClaim claimId = some c ∧ t.graph.getNode c.node.nodeId = some n ∧
        n.state = .inProgress ∧ (t.recordSession claimId sessionId).2 =
          t.update c.node.nodeId fun n => n.updateState .inProgress (some sessionId) := by
  unfold recordSession
  cases ho : t.openClaim claimId with
  | none => exact Or.inl rfl
  | some c =>
    cases hn : t.graph.getNode c.node.nodeId with
    | none => simp [hn]
    | some n =>
      by_cases hst : n.state = .inProgress
      · exact Or.inr ⟨c, n, rfl, hn, hst, by simp [hn, hst]⟩
      · simp [hn, hst]

/-- `complete_claim` completes a node in progress or failed, or does nothing. -/
theorem completeClaim_cases (t : MessageTree) (claimId : String) (sessionId : Option String) :
    t.completeClaim claimId sessionId = (none, t) ∨
      ∃ c n, t.openClaim claimId = some c ∧ t.graph.getNode c.node.nodeId = some n ∧
        (n.state = .inProgress ∨ n.state = .error) ∧ (t.completeClaim claimId sessionId).2 =
          t.update c.node.nodeId fun n => n.updateState .completed sessionId := by
  unfold completeClaim
  cases ho : t.openClaim claimId with
  | none => exact Or.inl rfl
  | some c =>
    cases hn : t.graph.getNode c.node.nodeId with
    | none => simp [hn]
    | some n =>
      by_cases hst : n.state = .inProgress ∨ n.state = .error
      · refine Or.inr ⟨c, n, rfl, hn, hst, ?_⟩
        have hst' : ¬ (n.state ≠ .inProgress ∧ n.state ≠ .error) := by
          rcases hst with h | h <;> simp [h]
        simp [hn, hst']
      · rw [not_or] at hst
        simp [hn, hst]

theorem Scheduled.recordSession {sessionId : String} (hs : t.Scheduled waiting) :
    (t.recordSession claimId sessionId).2.Scheduled waiting := by
  rcases t.recordSession_cases claimId sessionId with h | ⟨c, n, -, hn, hst, h⟩
  · rw [h]
    exact hs
  · rw [h]
    exact hs.updateState hn (by simp [hst]) (by simp) (by simp [hst])

theorem Scheduled.completeClaim {sessionId : Option String} (hs : t.Scheduled waiting) :
    (t.completeClaim claimId sessionId).2.Scheduled waiting := by
  rcases t.completeClaim_cases claimId sessionId with h | ⟨c, n, -, hn, hst, h⟩
  · rw [h]
    exact hs
  · rw [h]
    refine hs.updateState hn ?_ (by simp) (by simp)
    rcases hst with hst | hst <;> simp [hst]

/-! ## Starting points -/

theorem new_ok {root : MessageNode} (h : MessageTree.new root = .ok t) :
    ∃ g, MessageTreeGraph.new root = .ok g ∧ t = { graph := g } := by
  unfold MessageTree.new at h
  cases hg : MessageTreeGraph.new root with
  | error e =>
    rw [hg] at h
    cases h
  | ok g =>
    rw [hg] at h
    exact ⟨g, rfl, (Except.ok.inj h).symm⟩

theorem scheduled_new {root : MessageNode} (hroot : MessageTreeGraph.RootNode root)
    (hstatus : root.statusMessageId.isSome) (h : MessageTree.new root = .ok t) :
    t.Scheduled fun id => id = t.graph.rootId := by
  obtain ⟨g, hg, rfl⟩ := new_ok h
  obtain ⟨-, hid, -, hnode, -⟩ := MessageTreeGraph.new_ok hg
  have back : ∀ {j n}, g.getNode j = some n → j = root.nodeId ∧ n = root := by
    intro j n hn
    rw [hnode] at hn
    split_ifs at hn with hj
    exact ⟨hj, (Option.some.inj hn).symm⟩
  refine ⟨⟨MessageTreeGraph.wellFormed_new hroot hg, by simp, ?_, ?_⟩, by simp, by simp⟩
  · intro j m hm _
    exact Or.inr ((back hm).1.trans hid.symm)
  · intro j m hm _
    rw [(back hm).2]
    exact hstatus

/-- The stale target of an interrupted node. -/
def staleTarget (g : MessageTreeGraph) (id : String) : Option NodeUiTarget :=
  (g.getNode id).bind fun n =>
    if n.state.runnable then n.statusMessageId.map fun s => ⟨n.scope, n.nodeId, s⟩ else none

theorem SweptBy.interruptNode {s : Sweep} {ids : List String} (hc : t.Consistent waiting)
    (hs : SweptBy t ids s) (hq : s.tree.queue.deque = []) {id : String} (hid : id ∉ ids) :
    ∃ s', MessageTree.interruptNode s id = (.ok (), s') ∧ SweptBy t (ids ++ [id]) s' ∧
      s'.tree.queue.deque = [] ∧
      s'.targets = s.targets ++ (staleTarget t.graph id).toList := by
  have hnode : s.tree.graph.getNode id = t.graph.getNode id := by
    rw [hs.graph.node]
    simp [hid]
  unfold MessageTree.interruptNode
  cases hn : s.tree.graph.getNode id with
  | none =>
    refine ⟨s, rfl, hs.skip hc (by simp [hn]), hq, ?_⟩
    simp [staleTarget, ← hnode, hn]
  | some n =>
    simp only
    split_ifs with hr
    · obtain ⟨st, hst⟩ := Option.isSome_iff_exists.mp (hs.status hc hn hr)
      obtain ⟨s', htarget, htree, htargets⟩ : ∃ s', s.target n = (.ok (), s') ∧
          s'.tree = s.tree ∧
            s'.targets = s.targets ++ [(⟨n.scope, n.nodeId, st⟩ : NodeUiTarget)] :=
        ⟨{ s with targets := s.targets ++ [⟨n.scope, n.nodeId, st⟩] },
          by simp only [Sweep.target, uiTarget, hst], rfl, rfl⟩
      have hmarked := hs.mark hn hr (by rw [hq]; exact List.not_mem_nil)
      refine ⟨s'.mark id, by rw [htarget], hmarked.congr ?_, ?_, ?_⟩
      · simp only [Sweep.mark, htree]
      · simp only [Sweep.mark, htree]
        exact hq
      · simp [staleTarget, ← hnode, hn, hr, hst, Sweep.mark, htargets]
    · refine ⟨s, rfl, hs.skip hc ?_, hq, ?_⟩
      · intro m hm
        rw [hn] at hm
        cases hm
        simpa using hr
      · simp [staleTarget, ← hnode, hn, hr]

/-- The tree made from a loaded graph: its interrupted nodes are failed. -/
structure Interrupted (g : MessageTreeGraph) (t : MessageTree) : Prop where
  graph : g.Marked g.nodes.keys t.graph
  queue : t.queue.deque = []
  active : t.active = none
  stale : t.restoredStaleTargets = g.nodes.keys.filterMap (staleTarget g)
  snapshot : t.restoredSnapshot = some t.graph.snapshot

theorem fromSnapshot_interrupted {snapshot : TreeSnapshot} {g : MessageTreeGraph}
    (hg : MessageTreeGraph.fromSnapshot snapshot = .ok g) :
    ∃ t, MessageTree.fromSnapshot snapshot = .ok t ∧ Interrupted g t := by
  have hf := MessageTreeGraph.fromSnapshot_ok hg
  have hc : ({ graph := g } : MessageTree).Consistent fun _ => True :=
    ⟨hf.wellFormed, by simp, fun _ _ => Or.inr trivial, hf.runnableStatus⟩
  obtain ⟨s, hloop, hsw, hq, htargets⟩ := raisingLoop_returns (l := g.nodes.keys)
    (s := { tree := { graph := g } }) (f := MessageTree.interruptNode)
    (P := fun done s => SweptBy { graph := g } done s ∧ s.tree.queue.deque = [] ∧
      s.targets = done.filterMap (staleTarget g))
    (by
      rintro done id s hpre ⟨hsw, hq, htargets⟩
      have hid : id ∉ done := by
        have hnd := g.nodes.keys_nodup.sublist hpre.sublist
        rw [List.nodup_append] at hnd
        exact fun h => hnd.2.2 id h id (List.mem_singleton_self id) rfl
      obtain ⟨s', h, hsw', hq', htargets'⟩ := hsw.interruptNode hc hq hid
      refine ⟨s', h, hsw', hq', ?_⟩
      rw [htargets', htargets, List.filterMap_append, List.filterMap_cons, List.filterMap_nil]
      cases staleTarget g id with
      | none => simp
      | some target => simp)
    ⟨.start _, rfl, rfl⟩
  refine ⟨{ s.tree with
    restoredStaleTargets := s.targets, restoredSnapshot := some s.tree.graph.snapshot }, ?_, ?_⟩
  · simp only [MessageTree.fromSnapshot, hg, hloop]
  · exact ⟨hsw.graph, hq, hsw.active, htargets, rfl⟩

/-- A restored tree comes from a loaded graph. -/
theorem fromSnapshot_cases {snapshot : TreeSnapshot}
    (h : MessageTree.fromSnapshot snapshot = .ok t) :
    ∃ g, MessageTreeGraph.fromSnapshot snapshot = .ok g ∧ Interrupted g t := by
  cases hg : MessageTreeGraph.fromSnapshot snapshot with
  | error e =>
    unfold MessageTree.fromSnapshot at h
    rw [hg] at h
    cases h
  | ok g =>
    obtain ⟨t', ht', hi⟩ := fromSnapshot_interrupted hg
    cases h.symm.trans ht'
    exact ⟨g, rfl, hi⟩

/-- A restored tree is idle, and its interrupted nodes are failed. -/
theorem fromSnapshot_spec {snapshot : TreeSnapshot} (h : MessageTree.fromSnapshot snapshot = .ok t) :
    t.Scheduled (fun _ => False) ∧ t.active = none ∧ t.queue.deque = [] ∧
      t.graph.identity = snapshot.identity ∧
      ∀ id n, t.graph.getNode id = some n → n.state.runnable = false := by
  obtain ⟨g, hg, hi⟩ := fromSnapshot_cases h
  have hf := MessageTreeGraph.fromSnapshot_ok hg
  have hidle : ∀ id n, t.graph.getNode id = some n → n.state.runnable = false := by
    intro id n hn
    by_contra hr
    obtain ⟨hn', hid⟩ := hi.graph.runnable_back hn (by simpa using hr)
    exact hid (Dict.mem_keys.mpr ⟨n, hn'⟩)
  refine ⟨⟨⟨?_, ?_, ?_, ?_⟩, fun _ => hi.queue, ?_⟩, hi.active, hi.queue, ?_, hidle⟩
  · exact hf.wellFormed.of_sameShape hi.graph.sameShape
  · simp [hi.queue]
  · intro id n hn hp
    have hr := hidle id n hn
    rw [hp] at hr
    cases hr
  · intro id n hn hr
    rw [hidle id n hn] at hr
    cases hr
  · intro a ha
    rw [hi.active] at ha
    cases ha
  · exact hi.graph.identity.trans hf.identity

/-! ## What no operation but a release does -/

/-- The active claim stays, and a node in progress was so before or is active. -/
structure Carries (t t' : MessageTree) : Prop where
  rootId : t'.graph.rootId = t.graph.rootId
  active : ∀ {a}, t.active = some a → ∃ b, t'.active = some b ∧ b.claim = a.claim
  inProgress : ∀ {id m}, t'.graph.getNode id = some m → m.state = .inProgress →
    t'.activeOn id = true ∨ ∃ n, t.graph.getNode id = some n ∧ n.state = .inProgress

theorem Carries.refl (t : MessageTree) : Carries t t where
  rootId := rfl
  active := fun ha => ⟨_, ha, rfl⟩
  inProgress := fun hn hp => Or.inr ⟨_, hn, hp⟩

theorem activeOn_iff : t.activeOn id = true ↔ ∃ a, t.active = some a ∧
    a.claim.node.nodeId = id := by
  unfold activeOn
  cases t.active <;> simp

theorem Carries.activeOn (hc : Carries t t') (h : t.activeOn id = true) :
    t'.activeOn id = true := by
  obtain ⟨a, ha, hid⟩ := activeOn_iff.mp h
  obtain ⟨b, hb, hba⟩ := hc.active ha
  exact activeOn_iff.mpr ⟨b, hb, hba ▸ hid⟩

theorem SameClaim.forth {a b : Option ActiveClaim} (h : SameClaim a b) {x : ActiveClaim}
    (hx : a = some x) : ∃ y, b = some y ∧ y.claim = x.claim := by
  have hc := h.claim
  rw [hx, Option.map_some, Option.map_eq_some_iff] at hc
  exact hc

theorem Swept.carries {ids : List String} (hw : Swept ids t t') : Carries t t' where
  rootId := hw.graph.rootId
  active := hw.active.forth
  inProgress := by
    intro id m hm hp
    exact Or.inr ⟨m, (hw.graph.runnable_back hm (by rw [hp]; rfl)).1, hp⟩

theorem Detached.carries {ref : String} {r : MessageSubtreeRemoval} {mid : MessageTree}
    {owner : MessageNode} {kind : MessageReferenceKind} {removed affected : List String}
    (hc : t.Consistent waiting) (hd : Detached t ref r mid t' owner kind removed affected) :
    Carries t t' where
  rootId := by
    rw [hd.after]
    simp only [MessageTreeGraph.removeNodes_rootId]
    split_ifs
    · rw [MessageTreeGraph.clearStatus_rootId]
      exact hd.swept.graph.rootId
    · exact hd.swept.graph.rootId
  active := by
    rw [hd.after]
    exact hd.swept.active.forth
  inProgress := by
    intro id m hm hp
    obtain ⟨-, n, hn, rfl⟩ := hd.runnable_back hc hm (by rw [hp]; rfl)
    exact Or.inr ⟨n, hn, hp⟩

theorem Claims.inProgress {c : NodeClaim} (hcl : Claims t id n claimId c t') {j : String}
    {m : MessageNode} (hm : t'.graph.getNode j = some m) (hp : m.state = .inProgress) :
    t'.activeOn j = true ∨ ∃ n, t.graph.getNode j = some n ∧ n.state = .inProgress := by
  rw [hcl.graph, MessageTreeGraph.getNode_updateNode] at hm
  split_ifs at hm with hj
  · exact Or.inl (activeOn_iff.mpr ⟨_, hcl.active, hcl.node.trans hj.symm⟩)
  · exact Or.inr ⟨m, hm, hp⟩

theorem Enqueued.carries {r : Except Fault QueueDecision} (h : Enqueued t id claimId r t') :
    Carries t t' := by
  cases h with
  | duplicate => exact .refl t
  | claimed hn hp ha hcl =>
    refine ⟨by rw [hcl.graph]; rfl, ?_, hcl.inProgress⟩
    intro a ha'
    rw [ha] at ha'
    cases ha'
  | queued => exact ⟨rfl, fun ha => ⟨_, ha, rfl⟩, fun hn hp => Or.inr ⟨_, hn, hp⟩⟩

theorem Carries.trans {t'' : MessageTree} (h1 : Carries t t') (h2 : Carries t' t'') :
    Carries t t'' where
  rootId := h2.rootId.trans h1.rootId
  active := by
    intro a ha
    obtain ⟨b, hb, hba⟩ := h1.active ha
    obtain ⟨c, hc, hcb⟩ := h2.active hb
    exact ⟨c, hc, hcb.trans hba⟩
  inProgress := by
    intro id m hm hp
    rcases h2.inProgress hm hp with h | ⟨n, hn, hp⟩
    · exact Or.inl h
    · exact (h1.inProgress hn hp).imp_left h2.activeOn

theorem carries_added {prompt statusMessageId parentId parentReferenceId : String}
    {scope : MessageScope} {g : MessageTreeGraph}
    (ha : t.graph.Added id scope prompt statusMessageId parentId parentReferenceId g) :
    Carries t { t with graph := g } where
  rootId := ha.rootId
  active := fun ha => ⟨_, ha, rfl⟩
  inProgress := by
    intro j m hm hp
    rcases ha.node_back hm with ⟨-, rfl⟩ | ⟨n, hn, rfl⟩
    · cases hp
    · exact Or.inr ⟨n, hn, hp⟩

theorem Scheduled.addAndEnqueue_carries {prompt statusMessageId parentId parentReferenceId : String}
    {scope : MessageScope} (hs : t.Scheduled waiting) (hne : id ≠ "") :
    Carries t (t.addAndEnqueue id scope prompt statusMessageId parentId parentReferenceId
      claimId).2 := by
  unfold MessageTree.addAndEnqueue
  cases hadd : t.graph.addNode id scope prompt statusMessageId parentId parentReferenceId with
  | error e => exact .refl t
  | ok g =>
    have hadded := MessageTreeGraph.addNode_ok hadd
    exact (carries_added hadded).trans
      ((hs.added hne hadded).toConsistent.enqueueOrClaim_cases _ _).carries

theorem carries_updateState {st : MessageState} {sessionId : Option String}
    (hn : t.graph.getNode id = some n)
    (hst : st = .inProgress → n.state = .inProgress) :
    Carries t (t.update id fun n => n.updateState st sessionId) where
  rootId := rfl
  active := fun ha => ⟨_, ha, rfl⟩
  inProgress := by
    intro j m hm hp
    rw [update, MessageTreeGraph.getNode_updateNode, hn] at hm
    split_ifs at hm with hj
    · cases hm
      exact Or.inr ⟨n, hj ▸ hn, hst hp⟩
    · exact Or.inr ⟨m, hm, hp⟩

end MessageTree

/-! ## The transition system of one tree -/

/-- The mutating operations of a tree, each with its arguments, the random claim
id it may draw and the iteration order of its sets. -/
inductive TreeOp where
  | addAndEnqueue (nodeId : String) (scope : MessageScope)
      (prompt statusMessageId parentId parentReferenceId claimId : String)
  | enqueueOrClaim (nodeId claimId : String)
  | finishAndClaimNext (claimId nextClaimId : String)
  | cancelNode (nodeId : String)
  | cancelAll
  | removeMessageSubtree (ref : String) (order : SetOrder)
  | recordSession (claimId sessionId : String)
  | completeClaim (claimId : String) (sessionId : Option String)
  | failClaim (claimId : String) (propagate : Bool)

namespace TreeOp

/-- The tree an operation leaves, whether it returns or raises. -/
def apply (t : MessageTree) : TreeOp → MessageTree
  | addAndEnqueue id scope prompt status parent ref claimId =>
    (t.addAndEnqueue id scope prompt status parent ref claimId).2
  | enqueueOrClaim id claimId => (t.enqueueOrClaim id claimId).2
  | finishAndClaimNext claimId next => (t.finishAndClaimNext claimId next).2
  | cancelNode id => (t.cancelNode id).2
  | cancelAll => t.cancelAll.2
  | removeMessageSubtree ref order => (t.removeMessageSubtree ref order).2
  | recordSession claimId sessionId => (t.recordSession claimId sessionId).2
  | completeClaim claimId sessionId => (t.completeClaim claimId sessionId).2
  | failClaim claimId propagate => (t.failClaim claimId propagate).2

/-- Node ids are not empty. -/
def ProperId : TreeOp → Prop
  | addAndEnqueue id .. => id ≠ ""
  | _ => True

/-- The operation is the admission of a node that already exists. -/
def Admits (id : String) : TreeOp → Prop
  | enqueueOrClaim nodeId _ => nodeId = id
  | _ => False

instance (id : String) (op : TreeOp) : Decidable (op.Admits id) := by
  cases op <;> unfold Admits <;> infer_instance

/-- The operation releases the claim with this id. -/
def Releases (claimId : String) : TreeOp → Prop
  | finishAndClaimNext id _ => id = claimId
  | _ => False

instance (claimId : String) (op : TreeOp) : Decidable (op.Releases claimId) := by
  cases op <;> unfold Releases <;> infer_instance

end TreeOp

/-- A tree with two facts about its past: whether the root still waits for its
own admission, and the nodes that were `IN_PROGRESS` when their claim was released. -/
structure TreeRun where
  tree : MessageTree
  rootWaiting : Bool
  released : List String

namespace TreeRun

/-- The node an operation leaves `IN_PROGRESS` while it releases its claim. -/
def releasedBy (t : MessageTree) (op : TreeOp) : List String :=
  match t.active with
  | none => []
  | some a =>
    let id := a.claim.node.nodeId
    if op.Releases a.claim.claimId ∧ (t.graph.getNode id).map (·.state) = some .inProgress
    then [id] else []

/-- One operation on a tree. -/
def next (r : TreeRun) (op : TreeOp) : TreeRun where
  tree := op.apply r.tree
  rootWaiting := r.rootWaiting && !decide (op.Admits r.tree.graph.rootId)
  released := releasedBy r.tree op ++ r.released

/-- A fresh root as `admit` makes it, or a restored tree. -/
inductive Init : TreeRun → Prop
  | fresh {root t} : MessageTreeGraph.RootNode root → root.state = .pending →
      root.statusMessageId.isSome → MessageTree.new root = .ok t → Init ⟨t, true, []⟩
  | restored {snapshot t} : MessageTree.fromSnapshot snapshot = .ok t → Init ⟨t, false, []⟩

/-- The nodes that wait for their own admission. -/
def Waiting (r : TreeRun) (id : String) : Prop :=
  r.rootWaiting = true ∧ id = r.tree.graph.rootId

/-- The invariant of a run. -/
structure Invariant (r : TreeRun) : Prop where
  scheduled : r.tree.Scheduled r.Waiting
  inProgress : ∀ {id n}, r.tree.graph.getNode id = some n → n.state = .inProgress →
    r.tree.activeOn id = true ∨ id ∈ r.released

end TreeRun

/-- The runs of one tree. -/
def treeSystem : System TreeRun TreeOp where
  init := TreeRun.Init
  step r op r' := op.ProperId ∧ r' = r.next op

namespace TreeOp

variable {t : MessageTree} {waiting : String → Prop}

/-- The step lemma: an operation that releases no claim keeps the invariant and
the active claim; only the admission of a node ends its waiting. -/
theorem apply_carries {op : TreeOp} (hs : t.Scheduled waiting) (hop : op.ProperId)
    (hrel : ∀ a, t.active = some a → ¬ op.Releases a.claim.claimId) :
    (op.apply t).Scheduled (fun j => waiting j ∧ ¬ op.Admits j) ∧
      MessageTree.Carries t (op.apply t) := by
  have keep : ∀ {t' : MessageTree}, t'.Scheduled waiting →
      t'.Scheduled fun j => waiting j ∧ ¬ False := by
    intro t' h
    exact h.mono fun j _ _ _ hw => Or.inr ⟨hw, not_false⟩
  cases op with
  | addAndEnqueue id scope prompt status parent ref claimId =>
    exact ⟨keep (hs.addAndEnqueue hop), hs.addAndEnqueue_carries hop⟩
  | enqueueOrClaim id claimId =>
    have h := hs.enqueueOrClaim_cases id claimId
    refine ⟨(hs.enqueued h).mono ?_, h.carries⟩
    rintro j _ - - ⟨hw, hne⟩
    exact Or.inr ⟨hw, fun h => hne h.symm⟩
  | finishAndClaimNext claimId next =>
    have hstale : t.active.map (·.claim.claimId) ≠ some claimId := by
      intro h
      obtain ⟨a, ha, hid⟩ := Option.map_eq_some_iff.mp h
      exact hrel a ha hid.symm
    have hsame : ((finishAndClaimNext claimId next).apply t) = t := by
      simp only [apply, MessageTree.finishAndClaimNext, if_pos hstale]
    rw [hsame]
    exact ⟨keep hs, .refl t⟩
  | cancelNode id =>
    have hsw := (hs.cancelNode_spec id).1
    exact ⟨keep (hs.swept hsw), hsw.carries⟩
  | cancelAll =>
    rcases hs.cancelAll_spec with ⟨_, ids, -, hsw, -⟩ | ⟨_, _, -, hsw, -⟩
    · exact ⟨keep (hs.swept hsw), hsw.carries⟩
    · exact ⟨keep (hs.swept hsw), hsw.carries⟩
  | removeMessageSubtree ref order =>
    rcases hs.removeMessageSubtree_cases ref order with ⟨-, h⟩ | ⟨_, ids, _, -, hsw, -⟩ |
      ⟨r, mid, owner, kind, removed, affected, -, hd⟩
    · have hsame : ((removeMessageSubtree ref order).apply t) = t := by
        simp only [apply, h]
      rw [hsame]
      exact ⟨keep hs, .refl t⟩
    · exact ⟨keep (hs.swept hsw), hsw.carries⟩
    · exact ⟨keep (hs.detached hd), hd.carries hs.toConsistent⟩
  | recordSession claimId sessionId =>
    refine ⟨keep hs.recordSession, ?_⟩
    rcases t.recordSession_cases claimId sessionId with h | ⟨c, n, -, hn, hst, h⟩
    · simp only [apply, h]
      exact .refl t
    · simp only [apply, h]
      exact MessageTree.carries_updateState hn fun _ => hst
  | completeClaim claimId sessionId =>
    refine ⟨keep hs.completeClaim, ?_⟩
    rcases t.completeClaim_cases claimId sessionId with h | ⟨c, n, -, hn, hst, h⟩
    · simp only [apply, h]
      exact .refl t
    · simp only [apply, h]
      exact MessageTree.carries_updateState hn (by simp)
  | failClaim claimId propagate =>
    obtain ⟨_, ids, -, hsw⟩ := hs.failClaim_ok claimId propagate
    exact ⟨keep (hs.swept hsw), hsw.carries⟩

end TreeOp

namespace TreeRun

open MessageTree

/-- One operation keeps the invariant. -/
theorem Invariant.next {r : TreeRun} (hr : r.Invariant) {op : TreeOp} (hop : op.ProperId) :
    (r.next op).Invariant := by
  by_cases hrel : ∀ a, r.tree.active = some a → ¬ op.Releases a.claim.claimId
  · obtain ⟨hs, hc⟩ := TreeOp.apply_carries hr.scheduled hop hrel
    refine ⟨hs.mono ?_, ?_⟩
    · rintro j _ - - ⟨⟨hw, hj⟩, had⟩
      refine Or.inr ⟨?_, hj.trans hc.rootId.symm⟩
      subst hj
      simp [TreeRun.next, hw, had]
    · intro id m hm hp
      rcases hc.inProgress hm hp with h | ⟨n, hn, hp⟩
      · exact Or.inl h
      · refine (hr.inProgress hn hp).imp hc.activeOn fun h => ?_
        exact List.mem_append_right _ h
  · -- the operation releases the active claim
    push Not at hrel
    obtain ⟨a, ha, hrel⟩ := hrel
    cases op with
    | finishAndClaimNext claimId nextClaimId =>
      obtain ⟨next, -, -, hfin⟩ := hr.scheduled.finishAndClaimNext_cases claimId nextClaimId
      have hs := hr.scheduled.finished hfin
      have hback : ((TreeOp.finishAndClaimNext claimId nextClaimId).apply r.tree).graph.rootId =
          r.tree.graph.rootId ∧ ∀ {id m},
          ((TreeOp.finishAndClaimNext claimId nextClaimId).apply r.tree).graph.getNode id =
            some m → m.state = .inProgress →
          ((TreeOp.finishAndClaimNext claimId nextClaimId).apply r.tree).activeOn id = true ∨
            ∃ n, r.tree.graph.getNode id = some n ∧ n.state = .inProgress := by
        simp only [TreeOp.apply]
        generalize (r.tree.finishAndClaimNext claimId nextClaimId).2 = t' at hfin
        cases hfin with
        | stale => exact ⟨rfl, fun hn hp => Or.inr ⟨_, hn, hp⟩⟩
        | idle => exact ⟨rfl, fun hn hp => Or.inr ⟨_, hn, hp⟩⟩
        | next _ _ _ _ hcl => exact ⟨by rw [hcl.graph]; rfl, hcl.inProgress⟩
      refine ⟨hs.mono ?_, ?_⟩
      · rintro j _ - - ⟨hw, hj⟩
        refine Or.inr ⟨?_, hj.trans hback.1.symm⟩
        simp only [TreeRun.next, hw, Bool.true_and, Bool.not_eq_true', decide_eq_false_iff_not]
        exact not_false
      · intro id m hm hp
        rcases hback.2 hm hp with h | ⟨n, hn, hp⟩
        · exact Or.inl h
        · refine Or.inr ?_
          rcases hr.inProgress hn hp with h | h
          · obtain ⟨b, hb, hid⟩ := activeOn_iff.mp h
            rw [ha] at hb
            cases hb
            refine List.mem_append_left _ ?_
            simp [releasedBy, ha, hrel, hid, hn, hp]
          · exact List.mem_append_right _ h
    | _ => exact hrel.elim

theorem Init.invariant {r : TreeRun} (h : Init r) : r.Invariant := by
  cases h with
  | @fresh root t hroot hpending hstatus hnew =>
    have hs := scheduled_new hroot hstatus hnew
    refine ⟨hs.mono fun j _ _ _ hj => Or.inr ⟨rfl, hj⟩, ?_⟩
    intro id n hn hp
    obtain ⟨g, hg, rfl⟩ := MessageTree.new_ok hnew
    obtain ⟨-, -, -, hnode, -⟩ := MessageTreeGraph.new_ok hg
    rw [hnode] at hn
    split_ifs at hn
    cases hn
    rw [hpending] at hp
    cases hp
  | restored h =>
    obtain ⟨hs, -, -, -, hidle⟩ := fromSnapshot_spec h
    refine ⟨hs.mono fun _ _ _ _ hw => hw.elim, ?_⟩
    intro id n hn hp
    have hr := hidle id n hn
    rw [hp] at hr
    cases hr

theorem reachable_next {r : TreeRun} {op : TreeOp} (hr : treeSystem.Reachable r)
    (hop : op.ProperId) : treeSystem.Reachable (r.next op) :=
  hr.next ⟨hop, rfl⟩

theorem invariant_of_reachable {r : TreeRun} (hr : treeSystem.Reachable r) : r.Invariant := by
  refine hr.invariant (P := Invariant) (fun _ h => Init.invariant h) ?_
  rintro r op _ - hinv ⟨hop, rfl⟩
  exact hinv.next hop

end TreeRun

end Switchboard.Messaging
