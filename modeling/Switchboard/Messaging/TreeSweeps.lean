import Switchboard.Messaging.TreeOperations

/-!
# The operations that sweep over nodes

`cancel_node`, `cancel_all`, `remove_message_subtree`, `fail_claim` and the
reconciliation of a restored tree. Each of them marks a set of runnable nodes
and takes them off the queue. The only way to raise is to meet the node of the
active claim in state `ERROR` without a status message.
-/

namespace Switchboard.Messaging

namespace MessageTree

variable {t t' : MessageTree} {waiting : String → Prop} {id : String} {n : MessageNode}
  {s : Sweep} {ids : List String}

/-- The active claim is on a node that failed and lost its status message. -/
def Stuck (t : MessageTree) (id : String) : Prop :=
  t.activeOn id = true ∧ ∃ n, t.graph.getNode id = some n ∧ n.state = .error ∧
    n.statusMessageId = none

/-! ## Rounds -/

/-- The loops have swept the nodes in `ids`, starting from `t`. -/
structure SweptBy (t : MessageTree) (ids : List String) (s : Sweep) : Prop where
  graph : t.graph.Marked ids s.tree.graph
  queue : s.tree.queue.deque = t.queue.deque.filter fun id => id ∉ ids
  active : s.tree.active = t.active

theorem SweptBy.start (t : MessageTree) : SweptBy t [] { tree := t } where
  graph := .refl _
  queue := by simp
  active := rfl

theorem filter_notMem_snoc (l ids : List String) (id : String) :
    l.filter (fun j => j ∉ ids ++ [id]) = (l.filter fun j => j ∉ ids).filter fun j => j ≠ id := by
  rw [List.filter_filter]
  apply List.filter_congr
  intro j _
  simp [not_or, and_comm]

/-- Whatever is still queued is still `PENDING`. -/
theorem SweptBy.queued (hs : SweptBy t ids s) (hc : t.Consistent waiting)
    (hid : id ∈ s.tree.queue.deque) :
    ∃ n, s.tree.graph.getNode id = some n ∧ n.state = .pending := by
  rw [hs.queue, List.mem_filter] at hid
  obtain ⟨n, hn, hp⟩ := hc.queued id hid.1
  have hids : id ∉ ids := by simpa using hid.2
  exact ⟨n, by rw [hs.graph.of_node hn]; simp [hids], hp⟩

theorem SweptBy.queue_skip (hs : SweptBy t ids s) (hid : id ∉ s.tree.queue.deque) :
    s.tree.queue.deque = t.queue.deque.filter fun j => j ∉ ids ++ [id] := by
  rw [filter_notMem_snoc, ← hs.queue]
  refine (List.filter_eq_self.mpr ?_).symm
  intro j hj
  simp only [ne_eq, decide_eq_true_eq]
  rintro rfl
  exact hid hj

/-- A round that finds no runnable node. -/
theorem SweptBy.skip (hs : SweptBy t ids s) (hc : t.Consistent waiting)
    (hn : ∀ n, s.tree.graph.getNode id = some n → n.state.runnable = false) :
    SweptBy t (ids ++ [id]) s where
  graph := hs.graph.skip hn
  queue := by
    refine hs.queue_skip ?_
    intro hid
    obtain ⟨n, hsn, hp⟩ := hs.queued hc hid
    have hr := hn n hsn
    rw [hp] at hr
    cases hr
  active := hs.active

/-- A round that marks a runnable node and takes it off the queue. -/
theorem SweptBy.markDequeue (hs : SweptBy t ids s)
    (hn : s.tree.graph.getNode id = some n) (hr : n.state.runnable = true) :
    SweptBy t (ids ++ [id]) ((s.mark id).dequeue id) where
  graph := hs.graph.mark hn hr
  queue := by
    rw [filter_notMem_snoc, ← hs.queue]
    exact MessageNodeQueue.remove_deque _ _
  active := hs.active

/-- A round that marks a runnable node which is not queued. -/
theorem SweptBy.mark (hs : SweptBy t ids s) (hn : s.tree.graph.getNode id = some n)
    (hr : n.state.runnable = true) (hid : id ∉ s.tree.queue.deque) :
    SweptBy t (ids ++ [id]) (s.mark id) where
  graph := hs.graph.mark hn hr
  queue := hs.queue_skip hid
  active := hs.active

/-- The claim of the invariant on a swept node: if it is runnable, it has a status. -/
theorem SweptBy.status (hs : SweptBy t ids s) (hc : t.Consistent waiting)
    (hn : s.tree.graph.getNode id = some n) (hr : n.state.runnable = true) :
    n.statusMessageId.isSome :=
  hc.status (hs.graph.runnable_back hn hr).1 hr

theorem Sweep.target_of_isSome (h : n.statusMessageId.isSome) :
    ∃ s', s.target n = (.ok (), s') ∧ s'.tree = s.tree ∧ s'.seen = s.seen ∧
      s'.queueChanged = s.queueChanged := by
  obtain ⟨target, ht⟩ := uiTarget_of_isSome h
  exact ⟨{ s with targets := s.targets ++ [target] }, by rw [Sweep.target, ht], rfl, rfl, rfl⟩

theorem Sweep.target_of_none (h : n.statusMessageId = none) :
    ∃ e, s.target n = (.error e, s) := by
  exact ⟨_, by rw [Sweep.target, uiTarget_of_none h]⟩

theorem SweptBy.congr {s' : Sweep} (hs : SweptBy t ids s) (h : s'.tree = s.tree) :
    SweptBy t ids s' := by
  refine ⟨?_, ?_, ?_⟩
  · rw [h]
    exact hs.graph
  · rw [h]
    exact hs.queue
  · rw [h]
    exact hs.active

/-! ## Failure propagation -/

theorem SweptBy.propagateFailure (hc : t.Consistent waiting) (hs : SweptBy t ids s)
    (id : String) : ∃ s' ids', MessageTree.propagateFailure s id = (.ok (), s') ∧
      SweptBy t ids' s' ∧ ids' ⊆ ids ++ [id] := by
  have hids : ids ⊆ ids ++ [id] := List.subset_append_left _ _
  unfold MessageTree.propagateFailure
  cases hn : s.tree.graph.getNode id with
  | none => exact ⟨s, ids, rfl, hs, hids⟩
  | some n =>
    simp only
    split_ifs with hp
    · exact ⟨s, ids, rfl, hs, hids⟩
    · have hr : n.state.runnable = true := by
        rw [not_not.mp hp]
        rfl
      have hid : n.nodeId = id := by
        obtain ⟨k, hk, -, hkid⟩ := hs.graph.statusId hn
        rw [hkid, hc.graph.keyed hk]
      obtain ⟨s', h, htree, -⟩ :=
        Sweep.target_of_isSome (s := (s.mark id).dequeue n.nodeId) (hs.status hc hn hr)
      refine ⟨s', ids ++ [id], h, SweptBy.congr ?_ htree, List.Subset.refl _⟩
      rw [hid]
      exact hs.markDequeue hn hr

theorem Consistent.propagateFailures (hc : t.Consistent waiting) (hs : SweptBy t ids s)
    (l : List String) : ∃ s' ids', raisingLoop MessageTree.propagateFailure l s = (.ok (), s') ∧
      SweptBy t ids' s' ∧ ids' ⊆ ids ++ l := by
  have hround : ∀ (done : List String) (id : String) (s : Sweep), done ++ [id] <+: l →
      (∃ ids', SweptBy t ids' s ∧ ids' ⊆ ids ++ done) →
      ∃ s', MessageTree.propagateFailure s id = (.ok (), s') ∧
        ∃ ids', SweptBy t ids' s' ∧ ids' ⊆ ids ++ (done ++ [id]) := by
    rintro done id s _ ⟨ids₀, hs, hsub⟩
    obtain ⟨s', ids', h, hs', hsub'⟩ := hs.propagateFailure hc id
    refine ⟨s', h, ids', hs', fun j hj => ?_⟩
    rw [← List.append_assoc]
    exact List.append_subset.mpr ⟨fun k hk => List.mem_append_left _ (hsub hk),
      List.subset_append_right _ _⟩ (hsub' hj)
  obtain ⟨s', h, ids', hs', hsub⟩ := raisingLoop_returns hround ⟨ids, hs, by simp⟩
  exact ⟨s', ids', h, hs', hsub⟩

/-- The nodes a failure sweeps: the failed one, and with propagation its descendants. -/
def FailureHits (t : MessageTree) (id : String) (propagate : Bool) (j : String) : Prop :=
  j = id ∨ propagate = true ∧ Descends t.graph.childrenOf id j

/-- Sweeping changes no children. -/
theorem SweptBy.childrenOf (hs : SweptBy t ids s) :
    s.tree.graph.childrenOf = t.graph.childrenOf := by
  funext id
  simp only [MessageTreeGraph.childrenOf, hs.graph.node]
  cases t.graph.getNode id with
  | none => rfl
  | some n =>
    simp only [Option.map_some]
    split_ifs <;> rfl

theorem Scheduled.failNodes_ok (hs : t.Scheduled waiting) (hn : t.graph.getNode id = some n)
    (hp : n.state ≠ .pending) (propagate : Bool) :
    ∃ s ids, t.failNodes id n propagate = (.ok (), s) ∧ SweptBy t ids s ∧
      ∀ j ∈ ids, t.FailureHits id propagate j := by
  have hnq : id ∉ t.queue.deque := by
    intro hq
    obtain ⟨m, hm, hmp⟩ := hs.queued id hq
    rw [hn] at hm
    cases hm
    exact hp hmp
  have hfirst : n.state ≠ .completed → ∃ s ids,
      (if n.state = .error then (.ok (), { tree := t })
        else (({ tree := t } : Sweep).mark id).target n) = (.ok (), s) ∧ SweptBy t ids s ∧
        ids ⊆ [id] := by
    intro hnc
    split_ifs with he
    · exact ⟨_, [], rfl, .start t, List.nil_subset _⟩
    · have hr : n.state.runnable = true := by
        cases hst : n.state <;> simp_all
      obtain ⟨s, h, htree, -⟩ := Sweep.target_of_isSome (s := ({ tree := t } : Sweep).mark id)
        (hs.status hn hr)
      exact ⟨s, [] ++ [id], h, ((SweptBy.start t).mark hn hr hnq).congr htree,
        List.Subset.refl _⟩
  unfold MessageTree.failNodes
  by_cases hc : n.state = .completed
  · rw [if_pos hc]
    exact ⟨_, [], rfl, .start t, by simp⟩
  · rw [if_neg hc]
    obtain ⟨s, ids, h, hsw, hids⟩ := hfirst hc
    simp only [h]
    split_ifs with hprop
    · obtain ⟨l, hl⟩ := (hs.graph.of_sameShape hsw.graph.sameShape).toLinked.getDescendants_ok
        n.nodeId
      simp only [hl]
      obtain ⟨s', ids', h', hsw', hids'⟩ := hs.toConsistent.propagateFailures hsw l.tail
      refine ⟨s', ids', h', hsw', fun j hj => ?_⟩
      rcases List.mem_append.mp (hids' hj) with hj | hj
      · exact Or.inl (List.mem_singleton.mp (hids hj))
      · have hdesc := explore_sound
          (MessageTreeGraph.getDescendants_explore hl (List.mem_of_mem_tail hj))
          (List.mem_of_mem_tail hj)
        rw [hsw.childrenOf, hs.graph.keyed hn] at hdesc
        exact Or.inr ⟨hprop, hdesc⟩
    · exact ⟨s, ids, rfl, hsw, fun j hj => Or.inl (List.mem_singleton.mp (hids hj))⟩

theorem SweptBy.swept (hs : SweptBy t ids s) : Swept ids t s.tree where
  graph := hs.graph
  queue := hs.queue
  active := hs.active ▸ .refl _

theorem openClaim_eq_some {claimId : String} {c : NodeClaim} (h : t.openClaim claimId = some c) :
    ∃ a, t.active = some a ∧ a.claim = c ∧ a.claim.claimId = claimId ∧
      a.cancellationRequested = false := by
  unfold openClaim at h
  cases ha : t.active with
  | none => simp [ha] at h
  | some a =>
    simp only [ha] at h
    split_ifs at h with hor
    rw [not_or, not_not, Bool.not_eq_true] at hor
    exact ⟨a, rfl, Option.some.inj h, hor⟩

/-- The last expression of each operation: list the queue if it changed. -/
theorem Consistent.listing_ok {α : Type} (hc : t.Consistent waiting) (changed : Bool)
    (f : List QueueEntry → α) (x : α) :
    ∃ r, (if changed then t.queueEntries.map f else .ok x) = .ok r := by
  obtain ⟨l, hl⟩ := hc.queueEntries_ok
  cases changed
  · exact ⟨x, rfl⟩
  · exact ⟨f l, by rw [if_pos rfl, hl]; rfl⟩

/-- `fail_claim` returns, and sweeps the node of an open claim and what is below it. -/
theorem Scheduled.failClaim_spec (hs : t.Scheduled waiting) (claimId : String)
    (propagate : Bool) : ∃ r ids, (t.failClaim claimId propagate).1 = .ok r ∧
      Swept ids t (t.failClaim claimId propagate).2 ∧
      ∀ j ∈ ids, ∃ c, t.openClaim claimId = some c ∧
        t.FailureHits c.node.nodeId propagate j := by
  unfold failClaim
  cases ho : t.openClaim claimId with
  | none => exact ⟨_, [], rfl, (SweptBy.start t).swept, by simp⟩
  | some c =>
    obtain ⟨a, ha, rfl, -, hf⟩ := openClaim_eq_some ho
    obtain ⟨n, hn, hp⟩ := hs.claimed ha hf
    obtain ⟨s, ids, h, hsw, hids⟩ := hs.failNodes_ok hn hp propagate
    simp only [hn, h]
    obtain ⟨r, hr⟩ := (hs.swept hsw.swept).listing_ok s.queueChanged _ _
    exact ⟨r, ids, hr, hsw.swept, fun j hj => ⟨_, rfl, hids j hj⟩⟩

/-- `fail_claim` returns, and leaves the tree as it was up to cancelled nodes. -/
theorem Scheduled.failClaim_ok (hs : t.Scheduled waiting) (claimId : String)
    (propagate : Bool) : ∃ r ids, (t.failClaim claimId propagate).1 = .ok r ∧
      Swept ids t (t.failClaim claimId propagate).2 := by
  obtain ⟨r, ids, hr, hsw, -⟩ := hs.failClaim_spec claimId propagate
  exact ⟨r, ids, hr, hsw⟩

/-! ## Cancelling one node -/

theorem requested_if (t : MessageTree) (c : Bool) :
    (if c then t.requestCancellation else t).graph = t.graph ∧
      (if c then t.requestCancellation else t).queue = t.queue ∧
      SameClaim t.active (if c then t.requestCancellation else t).active := by
  cases c
  · exact ⟨rfl, rfl, .refl _⟩
  · exact ⟨rfl, rfl, sameClaim_requestCancellation t⟩

/-- `cancel_node` hits its node and nothing else, even when it raises; it raises
exactly on a stuck node. -/
theorem Scheduled.cancelNode_spec (hs : t.Scheduled waiting) (id : String) :
    Swept [id] t (t.cancelNode id).2 ∧
      ((∃ r, (t.cancelNode id).1 = .ok r) ↔ ¬ t.Stuck id) := by
  unfold cancelNode
  obtain ⟨hgraph, hqueue, hactive⟩ := requested_if t (t.activeOn id)
  generalize (if t.activeOn id = true then t.requestCancellation else t) = t1 at *
  cases hn : t.graph.getNode id with
  | none =>
    have hn1 : t1.graph.getNode id = none := by rw [hgraph, hn]
    simp only [hn1]
    refine ⟨⟨?_, ?_, hactive⟩, ?_⟩
    · rw [hgraph]
      exact (MessageTreeGraph.Marked.refl _).skip (by simp [hn])
    · rw [hqueue]
      refine (List.filter_eq_self.mpr ?_).symm
      intro j hj
      obtain ⟨m, hm, -⟩ := hs.queued j hj
      simp only [List.mem_singleton, decide_not, Bool.not_eq_true', decide_eq_false_iff_not]
      rintro rfl
      rw [hn] at hm
      cases hm
    · refine ⟨?_, fun _ => ⟨_, rfl⟩⟩
      rintro - ⟨-, m, hm, -⟩
      rw [hn] at hm
      cases hm
  | some n =>
    have hstuck : t.Stuck id ↔
        t.activeOn id = true ∧ n.state = .error ∧ n.statusMessageId = none := by
      constructor
      · rintro ⟨ha, m, hm, he, hst⟩
        rw [hn] at hm
        cases hm
        exact ⟨ha, he, hst⟩
      · rintro ⟨ha, he, hst⟩
        exact ⟨ha, n, hn, he, hst⟩
    have hdeque : (t1.queue.remove id).2.deque =
        t.queue.deque.filter fun j => j ∉ [id] := by
      rw [MessageNodeQueue.remove_deque, hqueue]
      simp
    have hactiveClaim : (if t.activeOn id = true then t.active.map (·.claim) else none).isSome
        ↔ t.activeOn id = true := by
      unfold activeOn
      cases t.active with
      | none => simp
      | some a => by_cases h : a.claim.node.nodeId = id <;> simp [h]
    have hn1 : t1.graph.getNode id = some n := by rw [hgraph, hn]
    simp only [hn1]
    by_cases hr : n.state.runnable = true
    · obtain ⟨target, htarget⟩ := uiTarget_of_isSome (hs.status hn hr)
      have hsw : Swept [id] t
          ({ t1 with queue := (t1.queue.remove id).2 }.update id MessageNode.markError) := by
        refine ⟨?_, hdeque, hactive⟩
        simp only [update, hgraph]
        exact (MessageTreeGraph.Marked.refl _).mark hn hr
      rw [if_pos hr]
      simp only [htarget]
      refine ⟨hsw, ?_, ?_⟩
      · rintro - hst
        have he := (hstuck.mp hst).2.1
        rw [he] at hr
        cases hr
      · exact fun _ => (hs.swept hsw).listing_ok _ _ _
    · have hsw : Swept [id] t { t1 with queue := (t1.queue.remove id).2 } := by
        refine ⟨?_, hdeque, hactive⟩
        simp only [hgraph]
        refine (MessageTreeGraph.Marked.refl _).skip ?_
        intro m hm
        rw [hn] at hm
        cases hm
        simpa using hr
      rw [if_neg hr, hstuck]
      simp only [hactiveClaim]
      by_cases he : n.state = .error ∧ t.activeOn id = true
      · rw [if_pos he]
        cases hst : n.statusMessageId with
        | none =>
          rw [uiTarget_of_none hst]
          exact ⟨hsw, by simp, fun h => absurd ⟨he.2, he.1, rfl⟩ h⟩
        | some x =>
          obtain ⟨target, htarget⟩ := uiTarget_of_isSome (n := n) (by rw [hst]; rfl)
          simp only [htarget]
          exact ⟨hsw, by simp, fun _ => (hs.swept hsw).listing_ok _ _ _⟩
      · rw [if_neg he]
        exact ⟨hsw, fun _ h => he ⟨h.2.1, h.1⟩, fun _ => (hs.swept hsw).listing_ok _ _ _⟩

/-! ## Cancelling everything -/

/-- The tree `cancel_all` works on once the queue is drained. -/
def drained (t : MessageTree) : MessageTree := { t.requestCancellation with queue := .empty }

/-- Between two rounds of the last loops of `cancel_all`: the nodes in `ids` are
swept, and the nodes noted as seen are no longer runnable. -/
structure Draining (t : MessageTree) (ids : List String) (s : Sweep) : Prop where
  swept : SweptBy t.drained ids s
  seen : ∀ id ∈ s.seen, ∀ n, s.tree.graph.getNode id = some n → n.state.runnable = false

theorem Consistent.drained (hc : t.Consistent waiting) : t.drained.Consistent fun _ => True where
  graph := hc.graph
  queued := by simp [MessageTree.drained]
  pending := fun _ _ => Or.inr trivial
  status := hc.status

theorem Draining.skip (hd : Draining t ids s) (hc : t.Consistent waiting)
    (hn : ∀ n, s.tree.graph.getNode id = some n → n.state.runnable = false) :
    Draining t (ids ++ [id]) s where
  swept := hd.swept.skip hc.drained hn
  seen := hd.seen

theorem Draining.queue (hd : Draining t ids s) : s.tree.queue.deque = [] := by
  rw [hd.swept.queue]
  rfl

/-- Marking a runnable node, noting it or not, and building its target. -/
theorem Draining.mark (hd : Draining t ids s) (hc : t.Consistent waiting)
    (hn : s.tree.graph.getNode id = some n) (hr : n.state.runnable = true) {s1 : Sweep}
    (hs1 : s1.tree = (s.mark id).tree) (hseen : ∀ j ∈ s1.seen, j = id ∨ j ∈ s.seen) :
    ∃ s', s1.target n = (.ok (), s') ∧ Draining t (ids ++ [id]) s' := by
  obtain ⟨s', h, htree, hs', -⟩ :=
    Sweep.target_of_isSome (s := s1) (hd.swept.status hc.drained hn hr)
  have hmarked : SweptBy t.drained (ids ++ [id]) (s.mark id) :=
    hd.swept.mark hn hr (by rw [hd.queue]; exact List.not_mem_nil)
  refine ⟨s', h, hmarked.congr (htree.trans hs1), ?_⟩
  rw [htree, hs1, hs']
  intro j hj m hm
  have hnode : (s.mark id).tree.graph.getNode j = if j = id then
      (s.tree.graph.getNode id).map MessageNode.markError else s.tree.graph.getNode j :=
    MessageTreeGraph.getNode_updateNode _ _ _ _
  rw [hnode, hn] at hm
  split_ifs at hm with hji
  · cases hm
    rfl
  · exact hd.seen j ((hseen j hj).resolve_left hji) m hm

theorem Draining.cancelQueued (hd : Draining t ids s) (hc : t.Consistent waiting) (id : String) :
    ∃ s', MessageTree.cancelQueued s id = (.ok (), s') ∧ Draining t (ids ++ [id]) s' := by
  unfold MessageTree.cancelQueued
  cases hn : s.tree.graph.getNode id with
  | none => exact ⟨s, rfl, hd.skip hc (by simp [hn])⟩
  | some n =>
    simp only
    split_ifs with hr
    · exact hd.mark hc hn hr rfl (by simp [Sweep.see, Sweep.mark])
    · refine ⟨s, rfl, hd.skip hc ?_⟩
      intro m hm
      rw [hn] at hm
      cases hm
      simpa using hr

theorem Draining.cancelStale (hd : Draining t ids s) (hc : t.Consistent waiting) (id : String) :
    ∃ s', MessageTree.cancelStale s id = (.ok (), s') ∧ Draining t (ids ++ [id]) s' := by
  unfold MessageTree.cancelStale
  cases hn : s.tree.graph.getNode id with
  | none => exact ⟨s, rfl, hd.skip hc (by simp [hn])⟩
  | some n =>
    simp only
    have hid : n.nodeId = id := by
      obtain ⟨k, hk, -, hkid⟩ := hd.swept.graph.statusId hn
      rw [hkid]
      exact hc.graph.keyed hk
    split_ifs with hskip
    · refine ⟨s, rfl, hd.skip hc ?_⟩
      intro m hm
      rw [hn] at hm
      cases hm
      rcases hskip with hseen | hr
      · exact hd.seen id (hid ▸ hseen) n hn
      · exact hr
    · rw [not_or, Bool.not_eq_false] at hskip
      exact hd.mark hc hn hskip.2 rfl fun j hj => Or.inr hj

/-- A loop all of whose rounds sweep one more node. -/
theorem Draining.loop {f : Sweep → String → Except Fault Unit × Sweep} (hd : Draining t ids s)
    (hround : ∀ ids s id, Draining t ids s →
      ∃ s', f s id = (.ok (), s') ∧ Draining t (ids ++ [id]) s') (l : List String) :
    ∃ s', raisingLoop f l s = (.ok (), s') ∧ Draining t (ids ++ l) s' := by
  obtain ⟨s', h, hs'⟩ := raisingLoop_returns (l := l) (s := s) (f := f)
    (P := fun done s => Draining t (ids ++ done) s)
    (fun done id s _ hs => by
      obtain ⟨s', h, hs'⟩ := hround _ _ id hs
      rw [List.append_assoc] at hs'
      exact ⟨s', h, hs'⟩)
    (by rwa [List.append_nil])
  exact ⟨s', h, hs'⟩

theorem draining_seen (hn : t.graph.getNode id = some n) (hr : n.state.runnable = false)
    (htree : s.tree = t.drained) (hseen : s.seen = [id]) : Draining t [] s where
  swept := (SweptBy.start _).congr htree
  seen := by
    intro j hj m hm
    rw [hseen, List.mem_singleton] at hj
    rw [htree, hj] at hm
    have hm : t.graph.getNode id = some m := hm
    rw [hn] at hm
    cases hm
    exact hr

/-- The first part of `cancel_all` raises exactly on a stuck node. -/
theorem Scheduled.cancelActive_cases (hs : t.Scheduled waiting) :
    (∃ s ids, t.cancelActive = (.ok (), s) ∧ s.tree.queue = t.queue ∧
        Draining t ids { s with tree := { s.tree with queue := .empty } } ∧
        ∀ id, ¬ t.Stuck id) ∨
      ∃ e s id, t.cancelActive = (.error e, s) ∧ s.tree = t.requestCancellation ∧
        t.Stuck id := by
  have hstart : Draining t [] { tree := t.drained } := ⟨.start _, by simp⟩
  unfold cancelActive
  cases ha : t.active with
  | none =>
    have hdrained : { t with queue := .empty } = t.drained := by
      simp [drained, requestCancellation, ha]
    refine Or.inl ⟨_, [], rfl, rfl, ?_, ?_⟩
    · rw [hdrained]
      exact hstart
    · rintro id ⟨hact, -⟩
      simp [activeOn, ha] at hact
  | some a =>
    have hstuck : ∀ id, t.Stuck id ↔ id = a.claim.node.nodeId ∧
        ∃ n, t.graph.getNode id = some n ∧ n.state = .error ∧ n.statusMessageId = none := by
      intro id
      simp [Stuck, activeOn, ha, eq_comm]
    simp only
    cases hn : t.graph.getNode a.claim.node.nodeId with
    | none =>
      refine Or.inl ⟨_, [], rfl, rfl, hstart, ?_⟩
      intro id hid
      obtain ⟨rfl, n, hn', -⟩ := (hstuck id).mp hid
      rw [hn] at hn'
      cases hn'
    | some n =>
      have hno : n.state.runnable = true ∨ n.state ≠ .error ∨ n.statusMessageId.isSome →
          ∀ id, ¬ t.Stuck id := by
        intro h id hid
        obtain ⟨rfl, m, hm, he, hst⟩ := (hstuck id).mp hid
        rw [hn] at hm
        cases hm
        rcases h with h | h | h
        · rw [he] at h
          cases h
        · exact h he
        · rw [hst] at h
          cases h
      simp only
      split_ifs with hr he
      · have htree : ((({ tree := t.drained } : Sweep).mark a.claim.node.nodeId).see
            a.claim.node.nodeId).tree =
            (({ tree := t.drained } : Sweep).mark a.claim.node.nodeId).tree := rfl
        obtain ⟨s', h, hd⟩ := hstart.mark hs.toConsistent hn hr htree
          (by simp [Sweep.see, Sweep.mark])
        obtain ⟨target, htarget⟩ := uiTarget_of_isSome (hs.status hn hr)
        simp only [Sweep.target, htarget] at h ⊢
        cases h
        exact Or.inl ⟨_, _, rfl, rfl, hd, hno (Or.inl hr)⟩
      · cases hst : n.statusMessageId with
        | none =>
          simp only [Sweep.target, uiTarget, hst]
          exact Or.inr ⟨_, _, a.claim.node.nodeId, rfl, rfl, (hstuck _).mpr ⟨rfl, n, hn, he, hst⟩⟩
        | some x =>
          simp only [Sweep.target, uiTarget, hst]
          exact Or.inl ⟨_, [], rfl, rfl, draining_seen hn (by simpa using hr) rfl rfl,
            hno (Or.inr (Or.inr (by rw [hst]; rfl)))⟩
      · exact Or.inl ⟨_, [], rfl, rfl, draining_seen hn (by simpa using hr) rfl rfl,
          hno (Or.inr (Or.inl he))⟩

/-- `cancel_all` raises exactly on a stuck node. When it returns, it has marked
every runnable node and emptied the queue; when it raises, it has only set the
cancellation flag. -/
theorem Scheduled.cancelAll_spec (hs : t.Scheduled waiting) :
    (∃ r ids, (t.cancelAll).1 = .ok r ∧ Swept ids t (t.cancelAll).2 ∧
        (∀ id n, t.graph.getNode id = some n → id ∈ ids) ∧ ∀ id, ¬ t.Stuck id) ∨
      ∃ e id, (t.cancelAll).1 = .error e ∧ Swept [] t (t.cancelAll).2 ∧ t.Stuck id := by
  unfold cancelAll
  rcases hs.cancelActive_cases with ⟨s, ids, h, hqueue, hd, hno⟩ | ⟨e, s, id, h, htree, hst⟩
  · simp only [h, MessageNodeQueue.drain]
    obtain ⟨s2, h2, hd2⟩ := hd.loop (f := cancelQueued)
      (fun _ _ id hd => hd.cancelQueued hs.toConsistent id) s.tree.queue.deque
    simp only [h2]
    obtain ⟨s3, h3, hd3⟩ := hd2.loop (f := cancelStale)
      (fun _ _ id hd => hd.cancelStale hs.toConsistent id) s2.tree.graph.nodes.keys
    simp only [h3]
    have hall : ∀ id n, t.graph.getNode id = some n →
        id ∈ ids ++ s.tree.queue.deque ++ s2.tree.graph.nodes.keys := by
      intro id n hn
      have hkeys : s2.tree.graph.nodes.keys = t.graph.nodes.keys := hd2.swept.graph.keys
      rw [List.mem_append, hkeys, Dict.mem_keys]
      exact Or.inr ⟨n, hn⟩
    refine Or.inl ⟨_, _, rfl, ⟨hd3.swept.graph, ?_, ?_⟩, hall, hno⟩
    · rw [hd3.queue, eq_comm, List.filter_eq_nil_iff]
      intro id hid
      obtain ⟨n, hn, -⟩ := hs.queued id hid
      simp only [decide_eq_true_eq, not_not]
      exact hall id n hn
    · rw [hd3.swept.active]
      exact sameClaim_requestCancellation t
  · simp only [h]
    refine Or.inr ⟨e, id, rfl, ?_, hst⟩
    rw [htree]
    exact ⟨.refl _, by simp [requestCancellation], sameClaim_requestCancellation t⟩

end MessageTree

end Switchboard.Messaging
