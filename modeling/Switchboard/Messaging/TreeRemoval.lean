import Switchboard.Messaging.TreeSweeps

/-!
# Removing a reply subtree

`remove_message_subtree` first sweeps the nodes it hits, then clears the status
it was asked to remove and detaches the prompt nodes below the reference.
-/

namespace Switchboard.Messaging

namespace MessageTree

variable {t t' : MessageTree} {waiting : String → Prop} {id ref : String} {n : MessageNode}
  {s : Sweep} {ids : List String} {order : SetOrder}

/-- The nodes a removal hits: the prompt nodes below the reference, and the
owner of a status reference. -/
def RemovalHits (t : MessageTree) (ref id : String) : Prop :=
  (t.graph.resolveReference ref).isSome ∧
    (Descends t.graph.referenceChildren ref id ∧ (t.graph.getNode id).isSome ∨
      ∃ n, t.graph.resolveReference ref = some (n, .status) ∧ n.nodeId = id)

/-! ## The loop over the nodes hit -/

/-- One round: the node is swept, unless it is stuck. -/
theorem SweptBy.cancelAffected {activeClaim : Option NodeClaim} (hc : t.Consistent waiting)
    (hs : SweptBy t ids s) (hid : id ∉ ids)
    (hact : activeClaim.any (·.node.nodeId = id) = t.activeOn id) :
    (∃ s', MessageTree.cancelAffected activeClaim s id = (.ok (), s') ∧
        SweptBy t (ids ++ [id]) s' ∧ ¬ t.Stuck id) ∨
      ∃ e s', MessageTree.cancelAffected activeClaim s id = (.error e, s') ∧
        SweptBy t (ids ++ [id]) s' ∧ t.Stuck id := by
  unfold MessageTree.cancelAffected
  have hsame : s.tree.graph.getNode id = t.graph.getNode id := by
    rw [hs.graph.node]
    simp [hid]
  cases hn : t.graph.getNode id with
  | none =>
    rw [hn] at hsame
    simp only [hsame]
    refine Or.inl ⟨s, rfl, hs.skip hc (by simp [hsame]), ?_⟩
    rintro ⟨-, m, hm, -⟩
    rw [hn] at hm
    cases hm
  | some n =>
    have hstuck : t.Stuck id ↔
        n.state = .error ∧ t.activeOn id = true ∧ n.statusMessageId = none := by
      constructor
      · rintro ⟨ha, m, hm, he, hst⟩
        rw [hn] at hm
        cases hm
        exact ⟨he, ha, hst⟩
      · rintro ⟨he, ha, hst⟩
        exact ⟨ha, n, hn, he, hst⟩
    rw [hn] at hsame
    simp only [hsame]
    by_cases hr : n.state.runnable = true
    · obtain ⟨s', h, htree, -⟩ :=
        Sweep.target_of_isSome (s := s.dequeue id) (hs.status hc hsame hr)
      rw [if_pos hr]
      simp only [h]
      refine Or.inl ⟨_, rfl, (hs.markDequeue hsame hr).congr ?_, ?_⟩
      · simp only [Sweep.mark, htree]
        rfl
      · intro hst
        rw [(hstuck.mp hst).1] at hr
        cases hr
    · have hskip : SweptBy t (ids ++ [id]) (s.dequeue id) := by
        refine ⟨hs.graph.skip ?_, ?_, hs.active⟩
        · intro m hm
          rw [hsame] at hm
          cases hm
          simpa using hr
        · rw [filter_notMem_snoc, ← hs.queue]
          exact MessageNodeQueue.remove_deque _ _
      rw [if_neg hr, hact]
      by_cases he : n.state = .error ∧ t.activeOn id = true
      · rw [if_pos he]
        cases hst : n.statusMessageId with
        | none =>
          obtain ⟨e, h⟩ := Sweep.target_of_none (s := s.dequeue id) hst
          exact Or.inr ⟨e, _, h, hskip, hstuck.mpr ⟨he.1, he.2, hst⟩⟩
        | some x =>
          obtain ⟨s', h, htree, -⟩ := Sweep.target_of_isSome (s := s.dequeue id) (n := n)
            (by rw [hst]; rfl)
          refine Or.inl ⟨s', h, hskip.congr htree, ?_⟩
          intro h
          rw [(hstuck.mp h).2.2] at hst
          cases hst
      · rw [if_neg he]
        refine Or.inl ⟨_, rfl, hskip, ?_⟩
        intro h
        exact he ⟨(hstuck.mp h).1, (hstuck.mp h).2.1⟩

/-! ## The whole removal -/

/-- What a removal that returns has done: `mid` is the tree after the sweep. -/
structure Detached (t : MessageTree) (ref : String) (r : MessageSubtreeRemoval)
    (mid t' : MessageTree) (owner : MessageNode) (kind : MessageReferenceKind)
    (removed affected : List String) : Prop where
  resolved : t.graph.resolveReference ref = some (owner, kind)
  removed_iff : ∀ j, j ∈ removed ↔
    Descends t.graph.referenceChildren ref j ∧ (t.graph.getNode j).isSome
  affected_iff : ∀ j, j ∈ affected ↔ t.RemovalHits ref j
  swept : Swept affected t mid
  requested : ∀ a, mid.active = some a → a.claim.node.nodeId ∈ affected →
    a.cancellationRequested = true
  notStuck : ∀ j, t.RemovalHits ref j → ¬ t.Stuck j
  after : t' = { mid with
    graph := (if kind = .status then mid.graph.clearStatus owner.nodeId
      else mid.graph).removeNodes removed }
  ids : ∀ j, j ∈ r.removedMessageIds ↔ Descends t.graph.referenceChildren ref j
  entire : r.removedEntireTree = decide (t.graph.rootId ∈ removed)

/-- The graph after a removal, node by node. -/
theorem Detached.node {r : MessageSubtreeRemoval} {mid : MessageTree} {owner : MessageNode}
    {kind : MessageReferenceKind} {removed affected : List String} (hc : t.Consistent waiting)
    (hd : Detached t ref r mid t' owner kind removed affected) (hid : id ∉ affected) :
    t'.graph.getNode id =
      (t.graph.getNode id).map (MessageTreeGraph.withoutChildren removed) := by
  have hmid : mid.graph.Linked :=
    (hc.graph.of_sameShape hd.swept.graph.sameShape).toLinked
  have hnode : mid.graph.getNode id = t.graph.getNode id := by
    rw [hd.swept.graph.node]
    simp [hid]
  have hrem : id ∉ removed := by
    intro h
    refine hid ((hd.affected_iff id).mpr ⟨?_, Or.inl ((hd.removed_iff id).mp h)⟩)
    rw [hd.resolved]
    rfl
  rw [hd.after]
  by_cases hk : kind = .status
  · have hown : id ≠ owner.nodeId := by
      rintro rfl
      refine hid ((hd.affected_iff _).mpr ⟨?_, Or.inr ⟨owner, ?_, rfl⟩⟩)
      · rw [hd.resolved]
        rfl
      · rw [hd.resolved, hk]
    simp only [if_pos hk]
    rw [(hmid.clearStatus _).removeNodes_getNode, if_neg hrem,
      MessageTreeGraph.getNode_clearStatus, if_neg hown, hnode]
  · simp only [if_neg hk]
    rw [hmid.removeNodes_getNode, if_neg hrem, hnode]

/-- A runnable node left after a removal was not hit by it. -/
theorem Detached.runnable_back {r : MessageSubtreeRemoval} {mid : MessageTree}
    {owner : MessageNode} {kind : MessageReferenceKind} {removed affected : List String}
    (hc : t.Consistent waiting) (hd : Detached t ref r mid t' owner kind removed affected)
    {m : MessageNode} (hm : t'.graph.getNode id = some m) (hr : m.state.runnable = true) :
    id ∉ affected ∧ ∃ n, t.graph.getNode id = some n ∧
      m = MessageTreeGraph.withoutChildren removed n := by
  have hmid : mid.graph.Linked :=
    (hc.graph.of_sameShape hd.swept.graph.sameShape).toLinked
  suffices hid : id ∉ affected by
    refine ⟨hid, ?_⟩
    rw [hd.node hc hid] at hm
    obtain ⟨n, hn, rfl⟩ := Option.map_eq_some_iff.mp hm
    exact ⟨n, hn, rfl⟩
  intro hid
  have hback : ∀ k, mid.graph.getNode id = some k → k.state.runnable = false := by
    intro k hk
    by_contra hkr
    exact (hd.swept.graph.runnable_back hk (by simpa using hkr)).2 hid
  rw [hd.after] at hm
  by_cases hk : kind = .status
  · simp only [if_pos hk] at hm
    rw [(hmid.clearStatus _).removeNodes_getNode] at hm
    split_ifs at hm
    obtain ⟨k, hk, rfl⟩ := Option.map_eq_some_iff.mp hm
    rw [MessageTreeGraph.getNode_clearStatus] at hk
    split_ifs at hk with hown
    · subst hown
      obtain ⟨k', hk', rfl⟩ := Option.map_eq_some_iff.mp hk
      have hk'r := hback k' hk'
      simp only [MessageTreeGraph.withoutChildren_state] at hr
      split_ifs at hr
      · cases hr
      · rw [hk'r] at hr
        cases hr
    · have hkr := hback k hk
      simp only [MessageTreeGraph.withoutChildren_state, hkr] at hr
      cases hr
  · simp only [if_neg hk] at hm
    rw [hmid.removeNodes_getNode] at hm
    split_ifs at hm
    obtain ⟨k, hk, rfl⟩ := Option.map_eq_some_iff.mp hm
    have hkr := hback k hk
    simp only [MessageTreeGraph.withoutChildren_state, hkr] at hr
    cases hr

theorem Scheduled.detached {r : MessageSubtreeRemoval} {mid : MessageTree} {owner : MessageNode}
    {kind : MessageReferenceKind} {removed affected : List String} (hs : t.Scheduled waiting)
    (hd : Detached t ref r mid t' owner kind removed affected) : t'.Scheduled waiting := by
  have hc := hs.toConsistent
  have hmid := hs.swept hd.swept
  have hshape := hd.swept.graph.sameShape
  have hqueue : t'.queue = mid.queue := by rw [hd.after]
  have hactive : t'.active = mid.active := by rw [hd.after]
  refine ⟨⟨?_, ?_, ?_, ?_⟩, ?_, ?_⟩
  · obtain ⟨owner', hres, hown⟩ :=
      hshape.resolve hs.graph.toLinked hmid.graph.toLinked hd.resolved
    rw [hd.after, ← hown]
    refine hmid.graph.clearStatusAndRemove hres ?_
    intro j m hm
    obtain ⟨n, hn, -⟩ := hshape.node_back hm
    rw [hd.removed_iff, hshape.descends hs.graph.toLinked hmid.graph.toLinked, hn]
    simp
  · intro j hj
    rw [hqueue, hd.swept.queue, List.mem_filter] at hj
    obtain ⟨n, hn, hp⟩ := hs.queued j hj.1
    have haff : j ∉ affected := by simpa using hj.2
    exact ⟨MessageTreeGraph.withoutChildren removed n, by rw [hd.node hc haff, hn]; rfl, hp⟩
  · intro j m hm hp
    obtain ⟨haff, n, hn, rfl⟩ := hd.runnable_back hc hm (by rw [hp]; rfl)
    refine (hs.pending hn hp).imp_left fun hq => ?_
    rw [hqueue, hd.swept.queue, List.mem_filter]
    exact ⟨hq, by simpa using haff⟩
  · intro j m hm hr
    obtain ⟨-, n, hn, rfl⟩ := hd.runnable_back hc hm hr
    exact (hs.status hn hr :)
  · intro ha
    rw [hactive] at ha
    rw [hqueue]
    exact hmid.idle ha
  · intro b hb hf
    rw [hactive] at hb
    obtain ⟨a, ha, hab⟩ := hd.swept.active.back hb
    have haff : b.claim.node.nodeId ∉ affected := by
      intro h
      rw [hd.requested b hb h] at hf
      cases hf
    obtain ⟨n, hn, hp⟩ := hs.claimed ha (hd.swept.active.requested ha hb hf)
    rw [← hab] at hn
    exact ⟨MessageTreeGraph.withoutChildren removed n, by rw [hd.node hc haff, hn]; rfl, hp⟩

/-- The three ways `remove_message_subtree` ends: nothing to remove, a stuck node
among those hit, or the removal. -/
theorem Scheduled.removeMessageSubtree_cases (hs : t.Scheduled waiting) (ref : String)
    (order : SetOrder) :
    (t.graph.resolveReference ref = none ∧
        t.removeMessageSubtree ref order = (.ok nothingRemoved, t)) ∨
      (∃ e ids id, (t.removeMessageSubtree ref order).1 = .error e ∧
        Swept ids t (t.removeMessageSubtree ref order).2 ∧ t.RemovalHits ref id ∧
        t.Stuck id ∧ ∀ j ∈ ids, t.RemovalHits ref j) ∨
      ∃ r mid owner kind removed affected, (t.removeMessageSubtree ref order).1 = .ok r ∧
        Detached t ref r mid (t.removeMessageSubtree ref order).2 owner kind removed
          affected := by
  unfold removeMessageSubtree
  cases hres : t.graph.resolveReference ref with
  | none =>
    refine Or.inl ⟨rfl, ?_⟩
    simp only [MessageTreeGraph.getReferenceDescendants, hres, Option.isNone_none, if_true]
  | some p =>
    obtain ⟨owner, kind⟩ := p
    obtain ⟨l, hl, -, hmem⟩ := hs.graph.getReferenceDescendants_ok
      (show (t.graph.resolveReference ref).isSome by rw [hres]; rfl)
    have hne : l ≠ [] := by
      intro h
      have hself := (hmem ref).mpr .refl
      rw [h] at hself
      cases hself
    simp only [hl, if_neg hne]
    refine Or.inr ?_
    have hremoved : ∀ j, j ∈ order.list (l.filter fun c => (t.graph.getNode c).isSome) ↔
        Descends t.graph.referenceChildren ref j ∧ (t.graph.getNode j).isSome := by
      intro j
      rw [order.mem, List.mem_filter, hmem]
    generalize order.list (l.filter fun c => (t.graph.getNode c).isSome) = removed at *
    have haffected : ∀ j, j ∈ order.list
        (if kind = .status then removed ++ [owner.nodeId] else removed) ↔ t.RemovalHits ref j := by
      intro j
      rw [order.mem, RemovalHits, hres, ← hremoved]
      simp only [Option.isSome_some, true_and, Option.some.injEq, Prod.mk.injEq]
      by_cases hk : kind = .status
      · simp [hk, eq_comm]
      · simp [hk]
    have hnodup := order.nodup (if kind = .status then removed ++ [owner.nodeId] else removed)
    generalize order.list (if kind = .status then removed ++ [owner.nodeId] else removed) =
      affected at *
    set activeClaim := t.active.bind fun a =>
      if a.claim.node.nodeId ∈ affected then some a.claim else none with hclaim
    have hany : ∀ id ∈ affected, activeClaim.any (·.node.nodeId = id) = t.activeOn id := by
      intro id hid
      rw [hclaim, activeOn]
      cases t.active with
      | none => rfl
      | some a =>
        by_cases ha : a.claim.node.nodeId ∈ affected
        · simp [ha]
        · have hne' : a.claim.node.nodeId ≠ id := fun h => ha (h ▸ hid)
          simp [ha, hne']
    have hrequested : ∀ a, (if activeClaim.isSome = true then t.requestCancellation else t).active
        = some a → a.claim.node.nodeId ∈ affected → a.cancellationRequested = true := by
      intro a ha hmem
      cases hact : t.active with
      | none => simp [hclaim, hact] at ha
      | some b =>
        by_cases hb : b.claim.node.nodeId ∈ affected
        · simp only [hclaim, hact, Option.bind_some, if_pos hb, Option.isSome_some, if_true,
            requestCancellation, Option.map_some, Option.some.injEq] at ha
          rw [← ha]
        · simp only [hclaim, hact, Option.bind_some, if_neg hb, Option.isSome_none,
            Bool.false_eq_true, if_false, Option.some.injEq] at ha
          exact absurd (ha ▸ hmem) hb
    obtain ⟨hgraph, hqueue, hactive⟩ := requested_if t activeClaim.isSome
    generalize (if activeClaim.isSome = true then t.requestCancellation else t) = start at *
    have hstart : start.Consistent waiting := by
      refine ⟨?_, ?_, ?_, ?_⟩
      · rw [hgraph]
        exact hs.graph
      · rw [hgraph, hqueue]
        exact hs.queued
      · rw [hgraph, hqueue]
        exact hs.pending
      · rw [hgraph]
        exact hs.status
    have hon := SameClaim.activeOn_eq hactive
    have hstuck : ∀ id, start.Stuck id ↔ t.Stuck id := by
      intro id
      rw [Stuck, Stuck, hon, hgraph]
    have hswept : ∀ {ids s}, SweptBy start ids s → Swept ids t s.tree := by
      intro ids s h
      refine ⟨?_, ?_, ?_⟩
      · rw [← hgraph]
        exact h.graph
      · rw [← hqueue]
        exact h.queue
      · rw [h.active]
        exact hactive
    have hround : ∀ (done : List String) (id : String) (s : Sweep), done ++ [id] <+: affected →
        (SweptBy start done s ∧ ∀ j ∈ done, ¬ t.Stuck j) →
        (∃ s', cancelAffected activeClaim s id = (.ok (), s') ∧
          (SweptBy start (done ++ [id]) s' ∧ ∀ j ∈ done ++ [id], ¬ t.Stuck j)) ∨
        ∃ e s', cancelAffected activeClaim s id = (.error e, s') ∧
          ((∃ ids, Swept ids t s'.tree ∧ ids ⊆ affected) ∧ t.Stuck id) := by
      rintro done id s hpre ⟨hsw, hno⟩
      have hid : id ∈ affected := hpre.subset (by simp)
      have hnot : id ∉ done := by
        have hnd := hnodup.sublist hpre.sublist
        rw [List.nodup_append] at hnd
        exact fun h => hnd.2.2 id h id (List.mem_singleton_self id) rfl
      rcases hsw.cancelAffected hstart hnot ((hany id hid).trans (hon id).symm) with
        ⟨s', h, hsw', hid'⟩ | ⟨e, s', h, hsw', hid'⟩
      · refine Or.inl ⟨s', h, hsw', ?_⟩
        intro j hj
        rcases List.mem_append.mp hj with hj | hj
        · exact hno j hj
        · rw [List.mem_singleton.mp hj]
          exact fun hst => hid' ((hstuck id).mpr hst)
      · exact Or.inr ⟨e, s', h, ⟨_, hswept hsw', hpre.subset⟩, (hstuck id).mp hid'⟩
    rcases raisingLoop_cases hround ⟨.start start, by simp⟩ with
      ⟨s, hloop, hsw, hno⟩ | ⟨id, hid, e, s, hloop, ⟨ids, hsw, hsub⟩, hst⟩
    · simp only [hloop]
      right
      have hd : ∀ r : MessageSubtreeRemoval, r.removedMessageIds = l →
          r.removedEntireTree = decide (t.graph.rootId ∈ removed) →
          Detached t ref r s.tree { s.tree with
            graph := (if kind = .status then s.tree.graph.clearStatus owner.nodeId
              else s.tree.graph).removeNodes removed } owner kind removed affected := by
        intro r hr1 hr2
        refine ⟨hres, hremoved, haffected, hswept hsw, ?_, ?_, rfl, ?_, hr2⟩
        · rw [hsw.active]
          exact hrequested
        · exact fun j hj => hno j ((haffected j).mpr hj)
        · rw [hr1]
          exact hmem
      obtain ⟨queue, hq⟩ := (hs.detached (hd { nothingRemoved with
        removedMessageIds := l, removedEntireTree := decide (t.graph.rootId ∈ removed) }
          rfl rfl)).queueEntries_ok
      cases hqc : s.queueChanged with
      | false =>
        refine ⟨_, s.tree, owner, kind, removed, affected, rfl, hd _ ?_ ?_⟩
        · rfl
        · rfl
      | true =>
        simp only [if_true, hq, Except.map]
        refine ⟨_, s.tree, owner, kind, removed, affected, rfl, hd _ ?_ ?_⟩
        · rfl
        · rfl
    · simp only [hloop]
      exact Or.inl ⟨e, ids, id, rfl, hsw, (haffected id).mp hid, hst,
        fun j hj => (haffected j).mp (hsub hj)⟩

end MessageTree

end Switchboard.Messaging
