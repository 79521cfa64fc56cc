import Switchboard.Messaging.TreeInvariant

/-!
# What each tree operation does

For every operation, its effect on a tree that satisfies the scheduler
invariant: when it returns, what it returns and what it leaves, and that the
invariant holds again afterwards.
-/

namespace Switchboard.Messaging

namespace MessageTree

variable {t t' : MessageTree} {waiting : String → Prop} {id claimId : String} {n : MessageNode}

/-! ## Claiming -/

/-- `t'` is `t` with the node `n` under `id` claimed as `c`. -/
structure Claims (t : MessageTree) (id : String) (n : MessageNode) (claimId : String)
    (c : NodeClaim) (t' : MessageTree) : Prop where
  graph : t'.graph = t.graph.updateNode id fun n => n.updateState .inProgress
  queue : t'.queue = t.queue
  active : t'.active = some { claim := c }
  claimId : c.claimId = claimId
  node : c.node.nodeId = id
  status : n.statusMessageId = some c.node.statusMessageId
  prompt : c.prompt = n.prompt

theorem Consistent.claim_ok (hc : t.Consistent waiting) (hn : t.graph.getNode id = some n)
    (hp : n.state = .pending) (claimId : String) : ∃ c t', t.claim n claimId = (.ok c, t') ∧
      Claims t id n claimId c t' := by
  obtain ⟨s, hs⟩ := Option.isSome_iff_exists.mp (hc.status hn (by rw [hp]; rfl))
  have hid : n.nodeId = id := hc.graph.keyed hn
  simp only [claim, uiTarget, hs]
  exact ⟨_, _, rfl, by rw [← hid]; rfl, rfl, rfl, rfl, hid, hs, rfl⟩

theorem Consistent.claims {c : NodeClaim} (hc : t.Consistent waiting)
    (hn : t.graph.getNode id = some n) (hq : id ∉ t.queue.deque)
    (hcl : Claims t id n claimId c t') : t'.Scheduled fun j => waiting j ∧ j ≠ id := by
  have hnode : ∀ j, t'.graph.getNode j = if j = id then some (n.updateState .inProgress)
      else t.graph.getNode j := by
    intro j
    rw [hcl.graph, MessageTreeGraph.getNode_updateNode, hn]
    rfl
  refine ⟨⟨?_, ?_, ?_, ?_⟩, ?_, ?_⟩
  · rw [hcl.graph]
    exact hc.graph.updateNode id fun n => n.sameLinks_updateState _ _
  · intro j hj
    rw [hcl.queue] at hj
    have hjid : j ≠ id := by
      rintro rfl
      exact hq hj
    rw [hnode, if_neg hjid]
    exact hc.queued j hj
  · intro j m hm hp
    rw [hnode] at hm
    split_ifs at hm with hj
    · cases hm
      cases hp
    · rw [hcl.queue]
      exact (hc.pending hm hp).imp_right fun hw => ⟨hw, hj⟩
  · intro j m hm hr
    rw [hnode] at hm
    split_ifs at hm with hj
    · cases hm
      rw [MessageNode.updateState_statusMessageId, hcl.status]
      rfl
    · exact hc.status hm hr
  · intro ha
    rw [hcl.active] at ha
    cases ha
  · intro a ha _
    rw [hcl.active] at ha
    cases ha
    exact ⟨n.updateState .inProgress, by rw [hnode, if_pos hcl.node], by simp⟩

/-! ## Admission -/

/-- The three ways `enqueue_or_claim` ends on a consistent tree. -/
inductive Enqueued (t : MessageTree) (id claimId : String) :
    Except Fault QueueDecision → MessageTree → Prop
  | duplicate : (∀ n, t.graph.getNode id = some n → n.state = .pending → id ∈ t.queue.deque) →
      Enqueued t id claimId (.ok (rejected .duplicate)) t
  | claimed {n c t'} : t.graph.getNode id = some n → n.state = .pending → t.active = none →
      Claims t id n claimId c t' →
      Enqueued t id claimId
        (.ok { claim := some c, position := none, snapshot := some t'.graph.snapshot }) t'
  | queued {n q} : t.graph.getNode id = some n → n.state = .pending → t.active ≠ none →
      id ∉ t.queue.deque → q.deque = t.queue.deque ++ [id] →
      Enqueued t id claimId
        (.ok { claim := none, position := some q.qsize, snapshot := some t.graph.snapshot })
        { t with queue := q }

theorem Consistent.enqueueOrClaim_cases (hc : t.Consistent waiting) (id claimId : String) :
    Enqueued t id claimId (t.enqueueOrClaim id claimId).1 (t.enqueueOrClaim id claimId).2 := by
  unfold enqueueOrClaim
  cases hn : t.graph.getNode id with
  | none => exact .duplicate (by simp [hn])
  | some n =>
    simp only
    by_cases hp : n.state = .pending
    · rw [if_neg (not_not.mpr hp)]
      cases ha : t.active with
      | none =>
        obtain ⟨c, t', h, hcl⟩ := hc.claim_ok hn hp claimId
        simp only [h]
        exact .claimed hn hp ha hcl
      | some a =>
        by_cases hq : id ∈ t.queue.deque
        · simp only [t.queue.put_of_mem hq]
          exact .duplicate fun _ _ _ => hq
        · obtain ⟨h1, h2⟩ := t.queue.put_of_not_mem hq
          rw [show t.queue.put id = (true, (t.queue.put id).2) from Prod.ext h1 rfl]
          have hqueued : Enqueued t id claimId _ { t with queue := (t.queue.put id).2 } :=
            .queued hn hp (by simp [ha]) hq h2
          rw [ha] at hqueued
          exact hqueued
    · rw [if_pos hp]
      refine .duplicate ?_
      intro m hm hmp
      rw [hn] at hm
      cases hm
      exact absurd hmp hp

theorem Scheduled.enqueued (hs : t.Scheduled waiting) {r : Except Fault QueueDecision}
    (h : Enqueued t id claimId r t') : t'.Scheduled fun j => waiting j ∧ j ≠ id := by
  cases h with
  | duplicate hdup =>
    refine hs.mono ?_
    intro j m hm hp hw
    by_cases hj : j = id
    · subst hj
      exact Or.inl (hdup m hm hp)
    · exact Or.inr ⟨hw, hj⟩
  | claimed hn hp ha hcl =>
    refine hs.toConsistent.claims hn ?_ hcl
    rw [hs.idle ha]
    exact List.not_mem_nil
  | @queued n q hn hp ha hq hdeque =>
    refine ⟨⟨hs.graph, ?_, ?_, hs.status⟩, fun h => absurd h ha, hs.claimed⟩
    · intro j hj
      rw [hdeque, List.mem_append, List.mem_singleton] at hj
      rcases hj with hj | rfl
      · exact hs.queued j hj
      · exact ⟨n, hn, hp⟩
    · intro j m hm hmp
      rw [hdeque, List.mem_append, List.mem_singleton]
      by_cases hj : j = id
      · exact Or.inl (Or.inr hj)
      · exact (hs.pending hm hmp).imp Or.inl fun hw => ⟨hw, hj⟩

/-- A tree after `add_node`, with the new reply not yet admitted. -/
theorem Scheduled.added {prompt statusMessageId parentId parentReferenceId : String}
    {scope : MessageScope} {g : MessageTreeGraph} (hs : t.Scheduled waiting) (hne : id ≠ "")
    (ha : t.graph.Added id scope prompt statusMessageId parentId parentReferenceId g) :
    { t with graph := g }.Scheduled fun j => waiting j ∨ j = id := by
  refine ⟨⟨hs.graph.added ha hne, ?_, ?_, ?_⟩, hs.idle, ?_⟩
  · intro j hj
    obtain ⟨n, hn, hp⟩ := hs.queued j hj
    exact ⟨_, (ha.node_old hn).2, hp⟩
  · intro j m hm hp
    rcases ha.node_back hm with ⟨rfl, -⟩ | ⟨n, hn, rfl⟩
    · exact Or.inr (Or.inr rfl)
    · exact (hs.pending hn hp).imp_right Or.inl
  · intro j m hm hr
    rcases ha.node_back hm with ⟨-, rfl⟩ | ⟨n, hn, rfl⟩
    · rfl
    · exact (hs.status hn hr :)
  · intro a hact hf
    obtain ⟨n, hn, hp⟩ := hs.claimed hact hf
    exact ⟨_, (ha.node_old hn).2, hp⟩

theorem Scheduled.addAndEnqueue {prompt statusMessageId parentId parentReferenceId : String}
    {scope : MessageScope} (hs : t.Scheduled waiting) (hne : id ≠ "") :
    (t.addAndEnqueue id scope prompt statusMessageId parentId parentReferenceId
      claimId).2.Scheduled waiting := by
  unfold MessageTree.addAndEnqueue
  cases hadd : t.graph.addNode id scope prompt statusMessageId parentId parentReferenceId with
  | error e => exact hs
  | ok g =>
    have hadded := hs.added hne (MessageTreeGraph.addNode_ok hadd)
    refine (hadded.enqueued (hadded.enqueueOrClaim_cases _ _)).mono ?_
    rintro j m - - ⟨hw | hj, hne⟩
    · exact Or.inr hw
    · exact absurd hj hne

/-! ## Releasing a claim -/

/-- The three ways `finish_and_claim_next` ends on a scheduled tree. -/
inductive Finished (t : MessageTree) (claimId nextClaimId : String) :
    Option NodeClaim → MessageTree → Prop
  | stale : t.active.map (·.claim.claimId) ≠ some claimId →
      Finished t claimId nextClaimId none t
  | idle : t.active.map (·.claim.claimId) = some claimId → t.queue.deque = [] →
      Finished t claimId nextClaimId none { t with active := none }
  | next {id n c q t'} : t.active.map (·.claim.claimId) = some claimId →
      t.queue.deque = id :: q.deque → t.graph.getNode id = some n → n.state = .pending →
      Claims { t with active := none, queue := q } id n nextClaimId c t' →
      Finished t claimId nextClaimId (some c) t'

theorem Scheduled.released (hs : t.Scheduled waiting) :
    { t with active := none }.Consistent waiting :=
  ⟨hs.graph, hs.queued, hs.pending, hs.status⟩

/-- A tree whose queue lost its head, which now waits for its claim. -/
theorem Consistent.popped {q : MessageNodeQueue} (hc : t.Consistent waiting)
    (hq : t.queue.deque = id :: q.deque) :
    { t with queue := q }.Consistent fun j => waiting j ∨ j = id := by
  refine ⟨hc.graph, ?_, ?_, hc.status⟩
  · intro j hj
    exact hc.queued j (by rw [hq]; exact List.mem_cons_of_mem _ hj)
  · intro j m hm hp
    rcases hc.pending hm hp with hj | hw
    · rw [hq, List.mem_cons] at hj
      rcases hj with rfl | hj
      · exact Or.inr (Or.inr rfl)
      · exact Or.inl hj
    · exact Or.inr (Or.inl hw)

theorem Scheduled.finished {nextClaimId : String} {next : Option NodeClaim}
    (hs : t.Scheduled waiting) (h : Finished t claimId nextClaimId next t') :
    t'.Scheduled waiting := by
  cases h with
  | stale => exact hs
  | idle _ hq =>
    refine ⟨hs.released, fun _ => hq, ?_⟩
    intro a ha
    cases ha
  | @next id n c q t' _ hq hn hp hcl =>
    have hnd := t.queue.nodup
    rw [hq, List.nodup_cons] at hnd
    refine ((hs.released.popped hq).claims hn hnd.1 hcl).mono ?_
    rintro j m - - ⟨hw | hj, hne⟩
    · exact Or.inr hw
    · exact absurd hj hne

theorem Scheduled.finishAndClaimNext_cases (hs : t.Scheduled waiting)
    (claimId nextClaimId : String) :
    ∃ next queue, (t.finishAndClaimNext claimId nextClaimId).1 = .ok ⟨next, queue⟩ ∧
      Finished t claimId nextClaimId next (t.finishAndClaimNext claimId nextClaimId).2 := by
  unfold finishAndClaimNext
  split_ifs with hmatch
  · obtain ⟨queue, hqueue⟩ := hs.queueEntries_ok
    refine ⟨none, queue, ?_, .stale hmatch⟩
    rw [hqueue]
    rfl
  · have hid := not_not.mp hmatch
    cases hq : t.queue.deque with
    | nil =>
      have hsize : t.queue.qsize = 0 := by rw [MessageNodeQueue.qsize, hq, List.length_nil]
      have hfin : Finished t claimId nextClaimId none { t with active := none } := .idle hid hq
      obtain ⟨queue, hqueue⟩ := (hs.finished hfin).queueEntries_ok
      refine ⟨none, queue, ?_, ?_⟩
      · simp only [hsize, claimNext, hqueue]
        rfl
      · simp only [hsize, claimNext]
        exact hfin
    | cons id rest =>
      have hsize : t.queue.qsize = rest.length + 1 := by
        rw [MessageNodeQueue.qsize, hq, List.length_cons]
      obtain ⟨q, hpop⟩ : ∃ q, t.queue.pop = some (id, q) := by
        cases hpop : t.queue.pop with
        | none =>
          rw [t.queue.pop_eq_none.mp hpop] at hq
          cases hq
        | some p =>
          have hp := t.queue.pop_eq_some.mp hpop
          rw [hq] at hp
          exact ⟨p.2, by rw [(List.cons.inj hp).1]⟩
      have hqd := t.queue.pop_eq_some.mp hpop
      obtain ⟨n, hn, hp⟩ := hs.queued id (by rw [hq]; exact List.mem_cons_self)
      obtain ⟨c, t', hclaim, hcl⟩ :=
        (hs.released.popped hqd).claim_ok hn hp nextClaimId
      have hfin : Finished t claimId nextClaimId (some c) t' := .next hid hqd hn hp hcl
      obtain ⟨queue, hqueue⟩ := (hs.finished hfin).queueEntries_ok
      have hloop : claimNext t.queue.qsize { t with active := none } nextClaimId =
          (.ok (some c), t') := by
        have hne : id ≠ "" := hs.graph.nonempty hn
        simp only [hsize, claimNext, hpop, if_neg hne, hn, if_pos hp, hclaim]
      refine ⟨some c, queue, ?_, ?_⟩
      · rw [hloop]
        simp only [hqueue]
        rfl
      · rw [hloop]
        exact hfin

end MessageTree

end Switchboard.Messaging
