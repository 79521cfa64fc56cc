import Switchboard.Messaging.SchedulerSafety

/-!
# When cancellation returns

A removal rooted at the status message of the node of the active claim clears the
status that `cancel_node`, `cancel_all` and `remove_message_subtree` need to name
that node. They raise on such a stuck node and on nothing else.
-/

namespace Switchboard.Messaging

open MessageTree

variable {t t' : MessageTree} {waiting : String → Prop} {id ref : String}

/-! ## The nodes of active claims keep their status -/

/-- The operation removes the status message of the node of the active claim. -/
def TreeOp.StripsActive (t : MessageTree) : TreeOp → Prop
  | .removeMessageSubtree ref _ => ∃ n, t.graph.resolveReference ref = some (n, .status) ∧
      t.activeOn n.nodeId = true
  | _ => False

/-- The node of the active claim, as long as it exists, has a status message. -/
def ActiveStatus (t : MessageTree) : Prop :=
  ∀ id n, t.graph.getNode id = some n → t.activeOn id = true → n.statusMessageId.isSome

theorem ActiveStatus.not_stuck (h : ActiveStatus t) (id : String) : ¬ t.Stuck id := by
  rintro ⟨ha, n, hn, -, hst⟩
  have hsome := h id n hn ha
  rw [hst] at hsome
  cases hsome

theorem ActiveStatus.swept {ids : List String} (h : ActiveStatus t) (hw : Swept ids t t') :
    ActiveStatus t' := by
  intro id m hm ha
  obtain ⟨n, hn, hst, -⟩ := hw.graph.statusId hm
  rw [hst]
  exact h id n hn (hw.active.activeOn_eq id ▸ ha)

theorem activeStatus_of_claims {n : MessageNode} {claimId : String} {c : NodeClaim}
    (hcl : Claims t id n claimId c t') (hn : t.graph.getNode id = some n) : ActiveStatus t' := by
  intro j m hm ha
  obtain ⟨a, hact, hid⟩ := activeOn_iff.mp ha
  rw [hcl.active] at hact
  cases hact
  rw [hcl.graph, MessageTreeGraph.getNode_updateNode, if_pos (hid.symm.trans hcl.node), hn] at hm
  cases hm
  rw [MessageNode.updateState_statusMessageId, hcl.status]
  rfl

theorem ActiveStatus.enqueued {claimId : String} {r : Except Fault QueueDecision}
    (h : ActiveStatus t) (he : Enqueued t id claimId r t') : ActiveStatus t' := by
  cases he with
  | duplicate => exact h
  | claimed hn _ _ hcl => exact activeStatus_of_claims hcl hn
  | queued => exact h

theorem ActiveStatus.finished {claimId nextId : String} {next : Option NodeClaim}
    (h : ActiveStatus t) (hf : Finished t claimId nextId next t') : ActiveStatus t' := by
  cases hf with
  | stale => exact h
  | idle => exact fun j m _ ha => by cases ha
  | next _ _ hn _ hcl => exact activeStatus_of_claims hcl hn

theorem ActiveStatus.updateState {st : MessageState} {sessionId : Option String}
    (h : ActiveStatus t) : ActiveStatus (t.update id fun n => n.updateState st sessionId) := by
  intro j m hm ha
  rw [update, MessageTreeGraph.getNode_updateNode] at hm
  split_ifs at hm with hj
  · obtain ⟨n, hn, rfl⟩ := Option.map_eq_some_iff.mp hm
    exact h id n hn (hj ▸ ha)
  · exact h j m hm ha

/-- After a removal the only node left among those hit is the owner of the status. -/
theorem Detached.node_back {r : MessageSubtreeRemoval} {mid : MessageTree} {owner : MessageNode}
    {kind : MessageReferenceKind} {removed affected : List String} (hc : t.Consistent waiting)
    (hd : Detached t ref r mid t' owner kind removed affected) {m : MessageNode}
    (hm : t'.graph.getNode id = some m) :
    (∃ n, t.graph.getNode id = some n ∧ m = MessageTreeGraph.withoutChildren removed n) ∨
      kind = .status ∧ owner.nodeId = id := by
  by_cases hid : id ∈ affected
  · right
    obtain ⟨-, h | ⟨n, hres, hown⟩⟩ := (hd.affected_iff id).mp hid
    · have hrem := (hd.removed_iff id).mpr h
      have hmid : mid.graph.Linked :=
        (hc.graph.of_sameShape hd.swept.graph.sameShape).toLinked
      rw [hd.after] at hm
      by_cases hk : kind = .status
      · simp only [if_pos hk] at hm
        rw [(hmid.clearStatus _).removeNodes_getNode, if_pos hrem] at hm
        cases hm
      · simp only [if_neg hk] at hm
        rw [hmid.removeNodes_getNode, if_pos hrem] at hm
        cases hm
    · rw [hd.resolved] at hres
      cases hres
      exact ⟨rfl, hown⟩
  · left
    rw [hd.node hc hid] at hm
    obtain ⟨n, hn, rfl⟩ := Option.map_eq_some_iff.mp hm
    exact ⟨n, hn, rfl⟩

/-- The step lemma: only a removal of the active status strips the active node. -/
theorem ActiveStatus.apply {op : TreeOp} (h : ActiveStatus t) (hs : t.Scheduled waiting)
    (hop : op.ProperId) (hC : ¬ op.StripsActive t) : ActiveStatus (op.apply t) := by
  cases op with
  | addAndEnqueue id scope prompt status parent ref claimId =>
    simp only [TreeOp.apply, MessageTree.addAndEnqueue]
    cases hadd : t.graph.addNode id scope prompt status parent ref with
    | error e => exact h
    | ok g =>
      have hadded := MessageTreeGraph.addNode_ok hadd
      have hg : ActiveStatus { t with graph := g } := by
        intro j m hm ha
        rcases hadded.node_back hm with ⟨-, rfl⟩ | ⟨n, hn, rfl⟩
        · rfl
        · exact (h j n hn ha :)
      exact hg.enqueued ((hs.added hop hadded).toConsistent.enqueueOrClaim_cases _ _)
  | enqueueOrClaim id claimId => exact h.enqueued (hs.enqueueOrClaim_cases id claimId)
  | finishAndClaimNext claimId next =>
    obtain ⟨_, _, -, hf⟩ := hs.finishAndClaimNext_cases claimId next
    exact h.finished hf
  | cancelNode id => exact h.swept (hs.cancelNode_spec id).1
  | cancelAll =>
    rcases hs.cancelAll_spec with ⟨_, _, -, hsw, -⟩ | ⟨_, _, -, hsw, -⟩
    · exact h.swept hsw
    · exact h.swept hsw
  | removeMessageSubtree ref order =>
    rcases hs.removeMessageSubtree_cases ref order with ⟨-, hr⟩ | ⟨_, _, _, -, hsw, -⟩ |
      ⟨r, mid, owner, kind, removed, affected, -, hd⟩
    · simp only [TreeOp.apply, hr]
      exact h
    · exact h.swept hsw
    · intro j m hm ha
      have hact : t.activeOn j = true := by
        have hafter : ((TreeOp.removeMessageSubtree ref order).apply t).active = mid.active := by
          simp only [TreeOp.apply, hd.after]
        have hsame : SameClaim t.active
            ((TreeOp.removeMessageSubtree ref order).apply t).active := by
          rw [hafter]
          exact hd.swept.active
        rw [← hsame.activeOn_eq]
        exact ha
      rcases Detached.node_back hs.toConsistent hd hm with ⟨n, hn, rfl⟩ | ⟨hk, hown⟩
      · exact (h j n hn hact :)
      · exact absurd ⟨owner, hk ▸ hd.resolved, hown ▸ hact⟩ hC
  | recordSession claimId sessionId =>
    rcases t.recordSession_cases claimId sessionId with hr | ⟨c, n, -, -, -, hr⟩
    · simp only [TreeOp.apply, hr]
      exact h
    · simp only [TreeOp.apply, hr]
      exact h.updateState
  | completeClaim claimId sessionId =>
    rcases t.completeClaim_cases claimId sessionId with hr | ⟨c, n, -, -, -, hr⟩
    · simp only [TreeOp.apply, hr]
      exact h
    · simp only [TreeOp.apply, hr]
      exact h.updateState
  | failClaim claimId propagate =>
    obtain ⟨_, _, -, hsw⟩ := hs.failClaim_ok claimId propagate
    exact h.swept hsw

/-- A run none of whose steps strips the active node keeps its status. -/
theorem activeStatus_of_reach {r : TreeRun}
    (hr : treeSystem.Reach (fun r op => ¬ op.StripsActive r.tree) r) : ActiveStatus r.tree := by
  refine System.Reach.invariant (P := fun r => ActiveStatus r.tree) ?_ ?_ hr
  · intro r h
    cases h with
    | @fresh root t hroot hp hst hnew =>
      intro j m _ ha
      obtain ⟨g, -, rfl⟩ := MessageTree.new_ok hnew
      cases ha
    | restored h =>
      obtain ⟨-, hnone, -⟩ := fromSnapshot_spec h
      intro j m _ ha
      simp [activeOn, hnone] at ha
  · rintro r op _ hreach h hC ⟨hop, rfl⟩
    exact h.apply (TreeRun.invariant_of_reachable hreach.reachable).scheduled hop hC

/-! ## Exactly when cancellation returns -/

/-- The three cancelling operations return for every argument. -/
structure CancellationReturns (t : MessageTree) : Prop where
  node : ∀ id, ∃ c, (t.cancelNode id).1 = .ok c
  all : ∃ c, t.cancelAll.1 = .ok c
  subtree : ∀ ref order, ∃ r, (t.removeMessageSubtree ref order).1 = .ok r

/-- Each cancelling operation returns exactly when it hits no stuck node. -/
structure ReturnsUnlessStuck (t : MessageTree) : Prop where
  node : ∀ id, (∃ c, (t.cancelNode id).1 = .ok c) ↔ ¬ t.Stuck id
  all : (∃ c, t.cancelAll.1 = .ok c) ↔ ∀ id, ¬ t.Stuck id
  subtree : ∀ ref order, (∃ r, (t.removeMessageSubtree ref order).1 = .ok r) ↔
    ∀ id, t.RemovalHits ref id → ¬ t.Stuck id

theorem returnsUnlessStuck (hs : t.Scheduled waiting) : ReturnsUnlessStuck t where
  node := fun id => (hs.cancelNode_spec id).2
  all := by
    rcases hs.cancelAll_spec with ⟨c, _, h, -, -, hno⟩ | ⟨e, id, h, -, hst⟩
    · exact ⟨fun _ => hno, fun _ => ⟨c, h⟩⟩
    · exact ⟨fun ⟨c, hc⟩ => by simp [h] at hc, fun hno => absurd hst (hno id)⟩
  subtree := by
    intro ref order
    rcases hs.removeMessageSubtree_cases ref order with ⟨hres, h⟩ | ⟨e, _, id, h, -, hhit, hst, -⟩ |
      ⟨r, _, _, _, _, _, h, hd⟩
    · refine ⟨fun _ id hhit => ?_, fun _ => ⟨_, by rw [h]⟩⟩
      have hsome := hhit.1
      rw [hres] at hsome
      cases hsome
    · exact ⟨fun ⟨c, hc⟩ => by simp [h] at hc, fun hno => absurd hst (hno id hhit)⟩
    · exact ⟨fun _ => hd.notStuck, fun _ => ⟨r, h⟩⟩

theorem ReturnsUnlessStuck.returns (h : ReturnsUnlessStuck t) (hno : ∀ id, ¬ t.Stuck id) :
    CancellationReturns t where
  node := fun id => (h.node id).mpr (hno id)
  all := h.all.mpr hno
  subtree := fun ref order => (h.subtree ref order).mpr fun id _ => hno id

/-- Nothing in the tree is queued or runnable. -/
def Cancelled (t : MessageTree) : Prop :=
  t.queue.deque = [] ∧ ∀ id n, t.graph.getNode id = some n → n.state.runnable = false

theorem cancelled_of_swept {ids : List String} (hs : t.Scheduled waiting) (hw : Swept ids t t')
    (hall : ∀ id n, t.graph.getNode id = some n → id ∈ ids) : Cancelled t' := by
  constructor
  · rw [hw.queue, List.filter_eq_nil_iff]
    intro id hid
    obtain ⟨n, hn, -⟩ := hs.queued id hid
    simpa using hall id n hn
  · intro id m hm
    by_contra hr
    obtain ⟨hn, hids⟩ := hw.graph.runnable_back hm (by simpa using hr)
    exact hids (hall id m hn)

/-- `cancel_all` of the manager, which cancels one published tree after the other:
it returns, with every tree cancelled, or meets a stuck node. -/
theorem manager_cancelAll_cases {m : TreeRepository}
    (hm : m.AllTrees fun t => ∃ waiting, t.Scheduled waiting) :
    ((∃ l, (TreeQueueManager.cancelAll m).1 = .ok l) ∧
        (∀ i tree, m.getTree i = some tree → ∀ id, ¬ tree.Stuck id) ∧
        ∀ i, (TreeQueueManager.cancelAll m).2.getTree i =
          (m.getTree i).map fun tree => tree.cancelAll.2) ∨
      ∃ e i tree id, (TreeQueueManager.cancelAll m).1 = .error e ∧ m.getTree i = some tree ∧
        tree.Stuck id := by
  have hround : ∀ (done : List TreeIdentity) (c : TreeIdentity) (s : TreeQueueManager.Sweep),
      done ++ [c] <+: m.trees.keys →
      ((∀ i, s.repository.getTree i =
          if i ∈ done then (m.getTree i).map fun tree => tree.cancelAll.2 else m.getTree i) ∧
        ∀ i ∈ done, ∀ tree, m.getTree i = some tree → ∀ id, ¬ tree.Stuck id) →
      (∃ s', TreeQueueManager.cancelTree s c = (.ok (), s') ∧
        (∀ i, s'.repository.getTree i = if i ∈ done ++ [c] then
          (m.getTree i).map fun tree => tree.cancelAll.2 else m.getTree i) ∧
        ∀ i ∈ done ++ [c], ∀ tree, m.getTree i = some tree → ∀ id, ¬ tree.Stuck id) ∨
      ∃ e s', TreeQueueManager.cancelTree s c = (.error e, s') ∧
        ∃ tree id, m.getTree c = some tree ∧ tree.Stuck id := by
    rintro done c s hpre ⟨hget, hno⟩
    have hc : c ∉ done := by
      have hnd := m.trees.keys_nodup.sublist hpre.sublist
      rw [List.nodup_append] at hnd
      exact fun h => hnd.2.2 c h c (List.mem_singleton_self c) rfl
    have hgc : s.repository.getTree c = m.getTree c := by rw [hget, if_neg hc]
    unfold TreeQueueManager.cancelTree
    cases ht : m.getTree c with
    | none =>
      rw [ht] at hgc
      simp only [hgc]
      refine Or.inl ⟨s, rfl, ?_, ?_⟩
      · intro i
        rw [hget]
        by_cases hi : i = c
        · subst hi
          simp [hc, ht]
        · simp [hi]
      · intro i hi tree htree
        rcases List.mem_append.mp hi with hi | hi
        · exact hno i hi tree htree
        · rw [List.mem_singleton.mp hi, ht] at htree
          cases htree
    | some tree =>
      rw [ht] at hgc
      simp only [hgc]
      obtain ⟨waiting, hs⟩ := hm c tree ht
      rcases hs.cancelAll_spec with ⟨r, ids, h, -, -, hfree⟩ | ⟨e, id, h, -, hst⟩
      · rw [show tree.cancelAll = (.ok r, tree.cancelAll.2) from Prod.ext h rfl]
        refine Or.inl ⟨_, rfl, ?_, ?_⟩
        · intro i
          have hput : (s.repository.putTree c tree.cancelAll.2).getTree i =
              if i = c then (s.repository.getTree c).map fun _ => tree.cancelAll.2
              else s.repository.getTree i := Dict.get?_modify _ _ _ _
          rw [hput, hgc, hget]
          by_cases hi : i = c
          · subst hi
            simp [ht]
          · simp [hi]
        · intro i hi tree' htree'
          rcases List.mem_append.mp hi with hi | hi
          · exact hno i hi tree' htree'
          · rw [List.mem_singleton.mp hi, ht] at htree'
            cases htree'
            exact hfree
      · rw [show tree.cancelAll = (.error e, tree.cancelAll.2) from Prod.ext h rfl]
        exact Or.inr ⟨e, _, rfl, tree, id, rfl, hst⟩
  unfold TreeQueueManager.cancelAll
  rcases raisingLoop_cases hround (s := { repository := m }) ⟨by simp, by simp⟩ with
    ⟨s, h, hget, hno⟩ | ⟨c, -, e, s, h, tree, id, ht, hst⟩
  · simp only [h]
    have hkeys : ∀ i tree, m.getTree i = some tree → i ∈ m.trees.keys :=
      fun i tree ht => Dict.mem_keys.mpr ⟨tree, ht⟩
    refine Or.inl ⟨⟨_, rfl⟩, fun i tree ht => hno i (hkeys i tree ht) tree ht, ?_⟩
    intro i
    rw [hget]
    split_ifs with hi
    · rfl
    · cases ht : m.getTree i with
      | none => rfl
      | some tree => exact absurd (hkeys i tree ht) hi
  · simp only [h]
    exact Or.inr ⟨e, c, tree, id, rfl, ht, hst⟩

/-- The manager's `cancel_all` returns with every published tree cancelled. -/
def CancelsEveryTree (m : TreeRepository) : Prop :=
  (∃ l, (TreeQueueManager.cancelAll m).1 = .ok l) ∧
    (TreeQueueManager.cancelAll m).2.AllTrees Cancelled

theorem cancelsEveryTree_iff {m : TreeRepository}
    (hm : m.AllTrees fun t => ∃ waiting, t.Scheduled waiting) :
    CancelsEveryTree m ↔ ∀ i tree, m.getTree i = some tree → ∀ id, ¬ tree.Stuck id := by
  rcases manager_cancelAll_cases hm with ⟨hok, hno, hget⟩ | ⟨e, i, tree, id, h, ht, hst⟩
  · refine ⟨fun _ => hno, fun _ => ⟨hok, ?_⟩⟩
    intro i tree' htree'
    rw [hget, Option.map_eq_some_iff] at htree'
    obtain ⟨tree, ht, rfl⟩ := htree'
    obtain ⟨waiting, hs⟩ := hm i tree ht
    rcases hs.cancelAll_spec with ⟨_, ids, -, hsw, hall, -⟩ | ⟨_, id, -, -, hst⟩
    · exact cancelled_of_swept hs hsw hall
    · exact absurd hst (hno i tree ht id)
  · refine ⟨?_, fun hno => absurd hst (hno i tree ht id)⟩
    rintro ⟨⟨l, hl⟩, -⟩
    rw [h] at hl
    cases hl

theorem Admitted.scheduled {C : TreeRun → TreeOp → Prop} {t : MessageTree} (ht : Admitted C t) :
    ∃ waiting, t.Scheduled waiting := by
  obtain ⟨r, hr, rfl, -⟩ := ht
  exact ⟨_, (TreeRun.invariant_of_reachable hr.reachable).scheduled⟩

/-- The manager operation removes the status message of a node whose claim is active. -/
def ManagerOp.StripsActive (m : TreeRepository) : ManagerOp → Prop
  | .removeMessageSubtree scope ref order => ∃ i tree,
      m.getTreeForReference scope ref = some (i, tree) ∧
        TreeOp.StripsActive tree (.removeMessageSubtree ref order)
  | _ => False

theorem published_unstripped {m : TreeRepository}
    (hm : managerSystem.Reach (fun m op => ¬ op.StripsActive m) m) :
    m.AllTrees (Admitted fun r op => ¬ op.StripsActive r.tree) := by
  refine System.Reach.invariant
    (P := TreeRepository.AllTrees (Admitted fun r op => ¬ op.StripsActive r.tree)) ?_ ?_ hm
  · rintro m (rfl | ⟨s, rfl⟩)
    · intro i t hi
      cases hi
    · exact TreeRepository.allTrees_fromSnapshot (fun s t h => admitted_restored h) s
  · rintro m op _ - hall hC ⟨hop, rfl⟩
    refine ManagerOp.Keeps.apply ⟨?_, ?_⟩ hall hop
    · intro root tree claimId h1 h2 h3 h4
      exact admitted_fresh h1 h2 h3 h4 fun _ h => h
    · intro tree top ht hp hrem
      refine ht.apply hp ?_
      rintro r rfl hstrip
      cases top with
      | removeMessageSubtree ref order =>
        obtain ⟨scope, i, rfl, hi⟩ := hrem ref order rfl
        exact hC ⟨i, r.tree, hi, hstrip⟩
      | _ => exact hstrip

/-- Cancellation returns in every state of a run none of whose steps removes the
status message of the node of the active claim, for one tree and for the manager.
In any reachable state an operation returns exactly when it hits no stuck node. -/
theorem cancellation_returns (r : TreeRun) (m : TreeRepository) :
    (treeSystem.Reach (fun r op => ¬ op.StripsActive r.tree) r → CancellationReturns r.tree) ∧
      (managerSystem.Reach (fun m op => ¬ op.StripsActive m) m → CancelsEveryTree m) ∧
      (treeSystem.Reachable r → ReturnsUnlessStuck r.tree) ∧
      (managerSystem.Reachable m →
        (CancelsEveryTree m ↔
          ∀ i tree, m.getTree i = some tree → ∀ id, ¬ tree.Stuck id)) := by
  refine ⟨?_, ?_, ?_, ?_⟩
  · intro hr
    exact (returnsUnlessStuck (TreeRun.invariant_of_reachable hr.reachable).scheduled).returns
      (activeStatus_of_reach hr).not_stuck
  · intro hm
    have hall := published_unstripped hm
    rw [cancelsEveryTree_iff fun i tree ht => (hall i tree ht).scheduled]
    intro i tree ht
    obtain ⟨r, hr, rfl, -⟩ := hall i tree ht
    exact (activeStatus_of_reach hr).not_stuck
  · intro hr
    exact returnsUnlessStuck (TreeRun.invariant_of_reachable hr).scheduled
  · intro hm
    exact cancelsEveryTree_iff fun i tree ht => (published_admitted hm i tree ht).scheduled

/-! ## A stuck node -/

section Example

/-- The order in which a set is given. -/
def givenOrder : SetOrder where
  list := List.dedup
  nodup := List.nodup_dedup
  mem := fun _ _ => List.mem_dedup

theorem sampleClaim_unstripped : treeSystem.Reach (fun r op => ¬ op.StripsActive r.tree)
    (TreeRun.next ⟨sampleTree, true, []⟩ (.enqueueOrClaim "10" "a")) := by
  have h0 : treeSystem.Reach (fun r op => ¬ op.StripsActive r.tree) ⟨sampleTree, true, []⟩ :=
    .start sampleTree_init
  have hC : ¬ (TreeOp.enqueueOrClaim "10" "a").StripsActive sampleTree := fun h => h
  exact h0.next hC ⟨trivial, rfl⟩

theorem cancellation_returns_sample :
    CancellationReturns (TreeRun.next ⟨sampleTree, true, []⟩ (.enqueueOrClaim "10" "a")).tree ∧
      CancelsEveryTree .empty ∧ ReturnsUnlessStuck sampleTree ∧
      (CancelsEveryTree sampleManager ↔
        ∀ i tree, sampleManager.getTree i = some tree → ∀ id, ¬ tree.Stuck id) :=
  ⟨(cancellation_returns _ .empty).1 sampleClaim_unstripped,
    (cancellation_returns ⟨sampleTree, true, []⟩ _).2.1
      (System.Reach.start (S := managerSystem) (Or.inl rfl)),
    (cancellation_returns ⟨sampleTree, true, []⟩ .empty).2.2.1
      (System.Reachable.start (S := treeSystem) sampleTree_init),
    (cancellation_returns ⟨sampleTree, true, []⟩ _).2.2.2 sampleManager_reachable⟩

/-- Two chats with a claim each; the status message of the first is removed. -/
def stuckManager : TreeRepository :=
  [ManagerOp.admitMessage ⟨"telegram", "7"⟩ "10" "hello" "11" none "a",
    ManagerOp.admitMessage ⟨"telegram", "8"⟩ "20" "hello" "21" none "b",
    ManagerOp.removeMessageSubtree ⟨"telegram", "7"⟩ "11" givenOrder].foldl ManagerOp.apply .empty

theorem stuckManager_reachable : managerSystem.Reachable stuckManager := by
  have h0 : managerSystem.Reachable .empty := .start (Or.inl rfl)
  have h1 := h0.next (l := .admitMessage ⟨"telegram", "7"⟩ "10" "hello" "11" none "a")
    ⟨by simp [ManagerOp.ProperId], rfl⟩
  have h2 := h1.next (l := .admitMessage ⟨"telegram", "8"⟩ "20" "hello" "21" none "b")
    ⟨by simp [ManagerOp.ProperId], rfl⟩
  exact h2.next (l := .removeMessageSubtree ⟨"telegram", "7"⟩ "11" givenOrder) ⟨trivial, rfl⟩

/-- After the status message of a running node is removed, every way to cancel that
node raises, and the manager's `cancel_all` leaves the second chat running. -/
theorem cancellation_raises :
    (∃ r, treeSystem.Reachable r ∧ (r.tree.cancelNode "10").1.isOk = false ∧
        r.tree.cancelAll.1.isOk = false ∧
        (r.tree.removeMessageSubtree "10" givenOrder).1.isOk = false) ∧
      ∃ m, managerSystem.Reachable m ∧ (TreeQueueManager.cancelAll m).1.isOk = false ∧
        (((TreeQueueManager.cancelAll m).2.getTree ⟨⟨"telegram", "8"⟩, "20"⟩).bind fun t =>
          (t.graph.getNode "20").map (·.state)) = some .inProgress := by
  refine ⟨⟨((⟨sampleTree, true, []⟩ : TreeRun).next (.enqueueOrClaim "10" "a")).next
    (.removeMessageSubtree "11" givenOrder), ?_, by decide, by decide, by decide⟩,
    stuckManager, stuckManager_reachable, by decide, by decide⟩
  exact TreeRun.reachable_next (TreeRun.reachable_next (.start sampleTree_init) trivial) trivial

end Example

end Switchboard.Messaging
