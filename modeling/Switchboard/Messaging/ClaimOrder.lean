import Switchboard.Messaging.SchedulerSafety

/-!
# The order in which nodes are claimed

`ClaimLog` numbers the admissions of a run and keeps for each of them what became
of it: queued, claimed, or withdrawn by an operation that took its node off the
queue. Claims are handed out in the order of the admissions.
-/

namespace Switchboard.Messaging

/-! ## What an operation does to the queue -/

namespace TreeOp

/-- The decision of an operation that admits a node. -/
def decision? (t : MessageTree) : TreeOp → Option (String × QueueDecision)
  | addAndEnqueue id scope prompt status parent ref claimId =>
    (t.addAndEnqueue id scope prompt status parent ref claimId).1.toOption.map fun d => (id, d)
  | enqueueOrClaim id claimId => (t.enqueueOrClaim id claimId).1.toOption.map fun d => (id, d)
  | _ => none

/-- The node an operation admits. -/
def admits? (t : MessageTree) (op : TreeOp) : Option String :=
  (op.decision? t).bind fun d => if d.2.accepted then some d.1 else none

/-- The claim an operation hands out. -/
def claims? (t : MessageTree) : TreeOp → Option NodeClaim
  | finishAndClaimNext claimId nextClaimId =>
    (t.finishAndClaimNext claimId nextClaimId).1.toOption.bind (·.nextClaim)
  | op => (op.decision? t).bind (·.2.claim)

/-- The operation cancels, fails by propagation, or removes a node. -/
def Withdraws (t : MessageTree) (id : String) : TreeOp → Prop
  | cancelNode nodeId => nodeId = id
  | cancelAll => True
  | removeMessageSubtree ref _ => t.RemovalHits ref id
  | failClaim claimId propagate => propagate = true ∧ ∃ c, t.openClaim claimId = some c ∧
      c.node.nodeId ≠ id ∧ Descends t.graph.childrenOf c.node.nodeId id
  | _ => False

/-- The queue update that an operation reports. -/
def queueUpdate? (t : MessageTree) : TreeOp → Option (List QueueEntry)
  | finishAndClaimNext claimId nextClaimId =>
    (t.finishAndClaimNext claimId nextClaimId).1.toOption.map (·.queue)
  | cancelNode id => (t.cancelNode id).1.toOption.bind (·.queueUpdate)
  | cancelAll => t.cancelAll.1.toOption.bind (·.queueUpdate)
  | removeMessageSubtree ref order =>
    (t.removeMessageSubtree ref order).1.toOption.bind (·.cancellation.queueUpdate)
  | failClaim claimId propagate =>
    (t.failClaim claimId propagate).1.toOption.bind (·.queueUpdate)
  | _ => none

end TreeOp

/-- The node is gone, or it ended with an error. -/
def MessageTree.Ended (t : MessageTree) (id : String) : Prop :=
  ∀ n, t.graph.getNode id = some n → n.state = .error

/-- The four effects of an operation on queue and claims. -/
inductive QueueEffect (t : MessageTree) (op : TreeOp) : Prop
  | sweep (ids : List String) (hadmits : op.admits? t = none) (hclaims : op.claims? t = none)
    (hdeque : (op.apply t).queue.deque = t.queue.deque.filter fun id => id ∉ ids)
    (hids : ∀ id ∈ ids, id ∈ t.queue.deque → op.Withdraws t id ∧ (op.apply t).Ended id)
  | enqueue (id : String) (hadmits : op.admits? t = some id) (hclaims : op.claims? t = none)
    (hnew : id ∉ t.queue.deque) (hdeque : (op.apply t).queue.deque = t.queue.deque ++ [id])
  | claim (c : NodeClaim) (hadmits : op.admits? t = some c.node.nodeId)
    (hclaims : op.claims? t = some c) (hempty : t.queue.deque = [])
    (hdeque : (op.apply t).queue.deque = [])
  | take (c : NodeClaim) (hadmits : op.admits? t = none) (hclaims : op.claims? t = some c)
    (hdeque : t.queue.deque = c.node.nodeId :: (op.apply t).queue.deque)

namespace TreeOp

variable {t t' : MessageTree} {waiting : String → Prop} {id claimId : String}

open MessageTree

/-- An operation that leaves the queue alone and hands out nothing. -/
theorem queueEffect_same {op : TreeOp} (hadmits : op.admits? t = none)
    (hclaims : op.claims? t = none) (hq : (op.apply t).queue = t.queue) : QueueEffect t op :=
  .sweep [] hadmits hclaims (by simp [hq]) (by simp)

/-- A swept node that was queued has ended. -/
theorem ended_of_swept {ids : List String} (hs : t.Scheduled waiting) (hw : Swept ids t t')
    (hid : id ∈ ids) (hq : id ∈ t.queue.deque) : t'.Ended id := by
  intro m hm
  obtain ⟨n, hn, hp⟩ := hs.queued id hq
  rw [hw.graph.of_node hn, if_pos ⟨hid, by rw [hp]; rfl⟩] at hm
  cases hm
  rfl

/-- A queued node hit by a removal is gone or has ended. -/
theorem ended_of_detached {ref : String} {r : MessageSubtreeRemoval} {mid : MessageTree}
    {owner : MessageNode} {kind : MessageReferenceKind} {removed affected : List String}
    (hs : t.Scheduled waiting) (hd : Detached t ref r mid t' owner kind removed affected)
    (hid : id ∈ affected) (hq : id ∈ t.queue.deque) : t'.Ended id := by
  intro m hm
  have hmid := ended_of_swept hs hd.swept hid hq
  have hg := hs.graph.of_sameShape hd.swept.graph.sameShape
  rw [hd.after] at hm
  dsimp only at hm
  have hlinked : (if kind = .status then mid.graph.clearStatus owner.nodeId
      else mid.graph).Linked := by
    split_ifs
    · exact hg.toLinked.clearStatus _
    · exact hg.toLinked
  rw [hlinked.removeNodes_getNode] at hm
  split_ifs at hm with hrem hkind
  · obtain ⟨k, hk, rfl⟩ := Option.map_eq_some_iff.mp hm
    rw [MessageTreeGraph.getNode_clearStatus] at hk
    split_ifs at hk with howner
    · obtain ⟨n, hn, rfl⟩ := Option.map_eq_some_iff.mp hk
      have := hmid n (howner ▸ hn)
      split_ifs
      · rfl
      · exact this
    · exact hmid k hk
  · obtain ⟨k, hk, rfl⟩ := Option.map_eq_some_iff.mp hm
    exact hmid k hk

/-- An admission, on a tree to which the node may just have been added. -/
theorem queueEffect_enqueued {op : TreeOp} {u : MessageTree} {r : Except Fault QueueDecision}
    (hidle : t.active = none → t.queue.deque = []) (hactive : u.active = t.active)
    (hqueue : u.queue = t.queue) (h : Enqueued u id claimId r (op.apply t))
    (hdec : op.decision? t = r.toOption.map fun d => (id, d))
    (hclaims : op.claims? t = (op.decision? t).bind (·.2.claim)) : QueueEffect t op := by
  have hadmits : op.admits? t =
      (r.toOption.map fun d => (id, d)).bind fun d => if d.2.accepted then some d.1 else none := by
    rw [admits?, hdec]
  rw [hdec] at hclaims
  generalize hafter : op.apply t = t' at h
  cases h with
  | duplicate => exact queueEffect_same hadmits hclaims (by rw [hafter, hqueue])
  | @claimed n c _ hn hp hnone hcl =>
    have hempty := hidle (hactive ▸ hnone)
    refine .claim c (hadmits.trans ?_) hclaims hempty ?_
    · rw [hcl.node]
      rfl
    · rw [hafter, hcl.queue, hqueue, hempty]
  | queued hn hp hsome hnot hq =>
    rw [hqueue] at hnot hq
    exact .enqueue id hadmits hclaims hnot (by rw [hafter, hq])

/-- The effect of an operation on a scheduled tree. -/
theorem queueEffect (hs : t.Scheduled waiting) {op : TreeOp} (hop : op.ProperId) :
    QueueEffect t op := by
  cases op with
  | addAndEnqueue id scope prompt status parent ref claimId =>
    have happly : (addAndEnqueue id scope prompt status parent ref claimId).apply t =
        (t.addAndEnqueue id scope prompt status parent ref claimId).2 := rfl
    cases hadd : t.graph.addNode id scope prompt status parent ref with
    | error e =>
      have h : t.addAndEnqueue id scope prompt status parent ref claimId = (.error e, t) := by
        simp only [MessageTree.addAndEnqueue, hadd]
      refine queueEffect_same ?_ ?_ ?_
      · simp [admits?, decision?, h, Except.toOption]
      · simp [claims?, decision?, h, Except.toOption]
      · rw [happly, h]
    | ok g =>
      have h : t.addAndEnqueue id scope prompt status parent ref claimId =
          { t with graph := g }.enqueueOrClaim id claimId := by
        simp only [MessageTree.addAndEnqueue, hadd]
      have hsg := hs.added hop (MessageTreeGraph.addNode_ok hadd)
      have hcases := hsg.toConsistent.enqueueOrClaim_cases id claimId
      rw [← h, ← happly] at hcases
      exact queueEffect_enqueued (u := { t with graph := g }) hs.idle rfl rfl hcases rfl rfl
  | enqueueOrClaim id claimId =>
    exact queueEffect_enqueued hs.idle rfl rfl (hs.enqueueOrClaim_cases id claimId) rfl rfl
  | finishAndClaimNext claimId nextClaimId =>
    obtain ⟨next, queue, h, hfin⟩ := hs.finishAndClaimNext_cases claimId nextClaimId
    have hclaims : (finishAndClaimNext claimId nextClaimId).claims? t = next := by
      simp [claims?, h, Except.toOption]
    have happly : (finishAndClaimNext claimId nextClaimId).apply t =
        (t.finishAndClaimNext claimId nextClaimId).2 := rfl
    generalize (t.finishAndClaimNext claimId nextClaimId).2 = t' at hfin happly
    cases hfin with
    | stale => exact queueEffect_same rfl hclaims (by rw [happly])
    | idle => exact queueEffect_same rfl hclaims (by rw [happly])
    | @next id n c q _ _ hdeque _ _ hcl =>
      refine .take c rfl hclaims ?_
      rw [happly, hcl.queue, hcl.node]
      exact hdeque
  | cancelNode id =>
    have hsw := (hs.cancelNode_spec id).1
    refine .sweep [id] rfl rfl hsw.queue fun j hj hq => ⟨?_, ended_of_swept hs hsw hj hq⟩
    exact (List.mem_singleton.mp hj).symm
  | cancelAll =>
    rcases hs.cancelAll_spec with ⟨_, ids, -, hsw, -⟩ | ⟨_, _, -, hsw, -⟩
    · exact .sweep ids rfl rfl hsw.queue fun j hj hq => ⟨trivial, ended_of_swept hs hsw hj hq⟩
    · exact .sweep [] rfl rfl hsw.queue (by simp)
  | removeMessageSubtree ref order =>
    rcases hs.removeMessageSubtree_cases ref order with ⟨-, h⟩ |
      ⟨_, ids, _, -, hsw, -, -, hids⟩ | ⟨r, mid, owner, kind, removed, affected, -, hd⟩
    · exact queueEffect_same rfl rfl (by simp only [apply, h])
    · exact .sweep ids rfl rfl hsw.queue fun j hj hq =>
        ⟨hids j hj, ended_of_swept hs hsw hj hq⟩
    · refine .sweep affected rfl rfl ?_ fun j hj hq =>
        ⟨(hd.affected_iff j).mp hj, ended_of_detached hs hd hj hq⟩
      simp only [apply]
      rw [hd.after]
      exact hd.swept.queue
  | recordSession claimId sessionId =>
    refine queueEffect_same rfl rfl ?_
    rcases t.recordSession_cases claimId sessionId with h | ⟨c, n, -, -, -, h⟩
    · simp only [apply, h]
    · simp only [apply, h, MessageTree.update]
  | completeClaim claimId sessionId =>
    refine queueEffect_same rfl rfl ?_
    rcases t.completeClaim_cases claimId sessionId with h | ⟨c, n, -, -, -, h⟩
    · simp only [apply, h]
    · simp only [apply, h, MessageTree.update]
  | failClaim claimId propagate =>
    obtain ⟨_, ids, -, hsw, hids⟩ := hs.failClaim_spec claimId propagate
    refine .sweep ids rfl rfl hsw.queue fun j hj hq => ⟨?_, ended_of_swept hs hsw hj hq⟩
    obtain ⟨c, hc, hhit⟩ := hids j hj
    obtain ⟨a, ha, rfl, -, hf⟩ := openClaim_eq_some hc
    -- the node of an open claim is not queued
    have hne : a.claim.node.nodeId ≠ j := by
      rintro rfl
      obtain ⟨n, hn, hp⟩ := hs.claimed ha hf
      obtain ⟨m, hm, hpm⟩ := hs.queued _ hq
      rw [hn] at hm
      cases hm
      exact hp hpm
    rcases hhit with rfl | ⟨hprop, hdesc⟩
    · exact absurd rfl hne
    · exact ⟨hprop, a.claim, hc, hne, hdesc⟩

theorem apply_rootId (hs : t.Scheduled waiting) {op : TreeOp} (hop : op.ProperId) :
    (op.apply t).graph.rootId = t.graph.rootId := by
  cases op with
  | finishAndClaimNext claimId nextClaimId =>
    obtain ⟨next, queue, -, hfin⟩ := hs.finishAndClaimNext_cases claimId nextClaimId
    simp only [apply]
    generalize (t.finishAndClaimNext claimId nextClaimId).2 = t' at hfin
    cases hfin with
    | stale => rfl
    | idle => rfl
    | next _ _ _ _ hcl =>
      rw [hcl.graph]
      rfl
  | _ => exact (apply_carries hs hop fun _ _ hrel => hrel.elim).2.rootId

/-- An admitted node is new to the tree, or it is a pending node that is not queued. -/
theorem admits?_cases {op : TreeOp} (hs : t.Scheduled waiting) (hadmits : op.admits? t = some id) :
    (t.graph.getNode id = none ∧ ∃ p pn, t.graph.getNode p = some pn) ∨
      op.Admits id ∧ id ∉ t.queue.deque ∧
        ∃ n, t.graph.getNode id = some n ∧ n.state = .pending := by
  obtain ⟨d, hd, haccepted⟩ := Option.bind_eq_some_iff.mp hadmits
  split_ifs at haccepted with hacc
  cases haccepted
  cases op with
  | addAndEnqueue id scope prompt status parent ref claimId =>
    obtain ⟨r, hr, rfl⟩ := Option.map_eq_some_iff.mp hd
    left
    cases hadd : t.graph.addNode id scope prompt status parent ref with
    | error e => simp [MessageTree.addAndEnqueue, hadd, Except.toOption] at hr
    | ok g =>
      have ha := MessageTreeGraph.addNode_ok hadd
      obtain ⟨pn, hpn⟩ := ha.parent
      exact ⟨ha.freshNode, parent, pn, hpn⟩
  | enqueueOrClaim id claimId =>
    obtain ⟨r, hr, rfl⟩ := Option.map_eq_some_iff.mp hd
    right
    have hcases := hs.enqueueOrClaim_cases id claimId
    generalize (t.enqueueOrClaim id claimId).1 = res at hr hcases
    generalize (t.enqueueOrClaim id claimId).2 = t' at hcases
    cases hcases with
    | duplicate =>
      cases hr
      cases hacc
    | claimed hn hp hnone =>
      refine ⟨rfl, ?_, _, hn, hp⟩
      rw [hs.idle hnone]
      exact List.not_mem_nil
    | queued hn hp _ hnot => exact ⟨rfl, hnot, _, hn, hp⟩
  | _ => cases hd

end TreeOp

/-! ## Reported queue positions -/

namespace MessageTree

variable {t : MessageTree} {waiting : String → Prop}

/-- The entries are those of the queue, numbered from one. -/
def Lists (t : MessageTree) (l : List QueueEntry) : Prop :=
  l.map (·.node.nodeId) = t.queue.deque ∧ l.map (·.position) = List.range' 1 l.length

theorem Consistent.queueEntries_lists (hc : t.Consistent waiting) {l : List QueueEntry}
    (h : t.queueEntries = .ok l) : t.Lists l := by
  have key := foldlM_ok_invariant (P := fun done entries =>
    (∀ id ∈ done, ∃ n, t.graph.getNode id = some n ∧ n.state = .pending) →
      entries.map (·.node.nodeId) = done ∧
        entries.map (·.position) = List.range' 1 entries.length) ?_ ?_ h
  · exact key hc.queued
  · intro done id entries entries' hP hround hdone
    obtain ⟨hids, hpos⟩ := hP fun j hj => hdone j (List.mem_append_left _ hj)
    obtain ⟨n, hn, hp⟩ := hdone id (List.mem_append_right _ (List.mem_singleton_self _))
    simp only [hn, if_pos hp] at hround
    obtain ⟨s, hs⟩ := Option.isSome_iff_exists.mp (hc.status hn (by rw [hp]; rfl))
    simp only [uiTarget, hs, Except.map, Except.ok.injEq] at hround
    subst hround
    have hkey := hc.graph.keyed hn
    constructor
    · simp [hids, hkey]
    · simp [hpos, List.range'_concat, Nat.add_comm]
  · intro _
    exact ⟨rfl, rfl⟩

theorem toOption_listing {α : Type} {r : α} {changed : Bool} {f : List QueueEntry → α} {x : α}
    (h : (if changed then t.queueEntries.map f else .ok x).toOption = some r) :
    r = x ∨ ∃ l, t.queueEntries = .ok l ∧ r = f l := by
  cases changed
  · exact Or.inl (Option.some.inj h).symm
  · simp only [if_true] at h
    cases hl : t.queueEntries with
    | error e => simp [hl, Except.map, Except.toOption] at h
    | ok l =>
      simp only [hl, Except.map, Except.toOption, Option.some.injEq] at h
      exact Or.inr ⟨l, rfl, h.symm⟩

end MessageTree

namespace TreeOp

variable {t : MessageTree} {waiting : String → Prop} {l : List QueueEntry}

open MessageTree

theorem finishAndClaimNext_update {claimId nextClaimId : String} {r : CompletionResult}
    (h : (t.finishAndClaimNext claimId nextClaimId).1 = .ok r) :
    (t.finishAndClaimNext claimId nextClaimId).2.queueEntries = .ok r.queue := by
  have hmap : ∀ (u : MessageTree) (f : List QueueEntry → CompletionResult),
      (∀ l, (f l).queue = l) → u.queueEntries.map f = .ok r → u.queueEntries = .ok r.queue := by
    intro u f hf hu
    cases hl : u.queueEntries with
    | error e => simp [hl, Except.map] at hu
    | ok l =>
      simp only [hl, Except.map, Except.ok.injEq] at hu
      rw [← hu, hf]
  unfold MessageTree.finishAndClaimNext at h ⊢
  split_ifs at h ⊢
  · exact hmap _ _ (fun _ => rfl) h
  · split at h
    · cases h
    · exact hmap _ _ (fun _ => rfl) h

theorem cancelNode_update {id : String}
    (h : (t.cancelNode id).1.toOption.bind (·.queueUpdate) = some l) :
    (t.cancelNode id).2.queueEntries = .ok l := by
  obtain ⟨r, hr, hl⟩ := Option.bind_eq_some_iff.mp h
  have hlisted : ∀ (u : MessageTree) (changed : Bool) (nodes : List NodeUiTarget)
      (activeClaim : Option NodeClaim),
      (if changed then u.queueEntries.map fun queue =>
        ({ nodes := nodes, activeClaim := activeClaim, queueUpdate := some queue } :
          TreeCancellation)
      else .ok { nodes := nodes, activeClaim := activeClaim, queueUpdate := none }).toOption =
        some r → u.queueEntries = .ok l := by
    intro u changed nodes activeClaim hu
    rcases toOption_listing hu with rfl | ⟨l', hl', rfl⟩
    · cases hl
    · cases hl
      exact hl'
  unfold MessageTree.cancelNode at hr ⊢
  dsimp only at hr ⊢
  generalize (if t.activeOn id = true then t.active.map (·.claim) else none) = activeClaim at *
  generalize (if t.activeOn id = true then t.requestCancellation else t) = start at *
  cases hn : start.graph.getNode id with
  | none =>
    simp only [hn, Except.toOption, Option.some.injEq] at hr
    subst hr
    cases hl
  | some n =>
    simp only [hn] at hr ⊢
    by_cases hrun : n.state.runnable = true
    · simp only [if_pos hrun] at hr ⊢
      cases hu : uiTarget n with
      | error e => simp [hu, Except.toOption] at hr
      | ok target =>
        simp only [hu] at hr ⊢
        exact hlisted _ _ _ _ hr
    · simp only [if_neg hrun] at hr ⊢
      by_cases herr : n.state = .error ∧ activeClaim.isSome = true
      · simp only [if_pos herr] at hr ⊢
        cases hu : uiTarget n with
        | error e => simp [hu, Except.toOption] at hr
        | ok target =>
          simp only [hu] at hr ⊢
          exact hlisted _ _ _ _ hr
      · simp only [if_neg herr] at hr ⊢
        exact hlisted _ _ _ _ hr

theorem removeMessageSubtree_update {ref : String} {order : SetOrder}
    (h : (t.removeMessageSubtree ref order).1.toOption.bind (·.cancellation.queueUpdate) =
      some l) : (t.removeMessageSubtree ref order).2.queueEntries = .ok l := by
  obtain ⟨r, hr, hl⟩ := Option.bind_eq_some_iff.mp h
  unfold MessageTree.removeMessageSubtree at hr ⊢
  split at hr
  · cases hr
  · cases hr
    cases hl
  · next owner kind ids _ _ =>
    by_cases hempty : ids = []
    · simp only [if_pos hempty, Except.toOption, Option.some.injEq] at hr
      subst hr
      cases hl
    · simp only [if_neg hempty] at hr ⊢
      split at hr
      · cases hr
      · rcases toOption_listing hr with rfl | ⟨l', hl', rfl⟩
        · cases hl
        · cases hl
          exact hl'

theorem failClaim_update {claimId : String} {propagate : Bool}
    (h : (t.failClaim claimId propagate).1.toOption.bind (·.queueUpdate) = some l) :
    (t.failClaim claimId propagate).2.queueEntries = .ok l := by
  obtain ⟨r, hr, hl⟩ := Option.bind_eq_some_iff.mp h
  unfold MessageTree.failClaim at hr ⊢
  split at hr
  · cases hr
    cases hl
  · split at hr
    · cases hr
      cases hl
    · split at hr
      · cases hr
      · rcases toOption_listing hr with rfl | ⟨l', hl', rfl⟩
        · cases hl
        · cases hl
          exact hl'

theorem cancelAll_update (hs : t.Scheduled waiting)
    (h : t.cancelAll.1.toOption.bind (·.queueUpdate) = some l) :
    l = [] ∧ t.cancelAll.2.queue.deque = [] := by
  obtain ⟨r, hr, hl⟩ := Option.bind_eq_some_iff.mp h
  have hempty : t.cancelAll.2.queue.deque = [] := by
    rcases hs.cancelAll_spec with ⟨_, ids, -, hsw, hall, -⟩ | ⟨e, _, he, -, -⟩
    · rw [hsw.queue, List.filter_eq_nil_iff]
      intro id hid
      obtain ⟨n, hn, -⟩ := hs.queued id hid
      simpa using hall id n hn
    · rw [he] at hr
      cases hr
  refine ⟨?_, hempty⟩
  unfold MessageTree.cancelAll at hr
  split at hr
  · cases hr
  · dsimp only at hr
    split at hr
    · cases hr
    · split at hr
      · cases hr
      · simp only [Except.toOption, Option.some.injEq] at hr
        subst hr
        dsimp only at hl
        split_ifs at hl
        exact (Option.some.inj hl).symm

/-- Every reported queue update lists the queue in its order, from position one. -/
theorem queueUpdate_lists {after : String → Prop} {op : TreeOp} (hs : t.Scheduled waiting)
    (hs' : (op.apply t).Scheduled after) (h : op.queueUpdate? t = some l) :
    (op.apply t).Lists l := by
  cases op with
  | finishAndClaimNext claimId nextClaimId =>
    obtain ⟨r, hr, rfl⟩ := Option.map_eq_some_iff.mp h
    refine hs'.queueEntries_lists (finishAndClaimNext_update ?_)
    cases hres : (t.finishAndClaimNext claimId nextClaimId).1 with
    | error e =>
      rw [hres] at hr
      cases hr
    | ok r' =>
      rw [hres] at hr
      cases hr
      rfl
  | cancelNode id => exact hs'.queueEntries_lists (cancelNode_update h)
  | cancelAll =>
    obtain ⟨rfl, hempty⟩ := cancelAll_update hs h
    exact ⟨hempty.symm, rfl⟩
  | removeMessageSubtree ref order =>
    exact hs'.queueEntries_lists (removeMessageSubtree_update h)
  | failClaim claimId propagate => exact hs'.queueEntries_lists (failClaim_update h)
  | _ => cases h

end TreeOp

/-! ## The log of a run -/

/-- One admission of a node; a node that was removed may be admitted again. -/
structure Admission where
  number : ℕ
  nodeId : String
deriving DecidableEq, Repr

/-- An admission whose node left the queue without being claimed. -/
structure Withdrawal where
  admission : Admission
  before : MessageTree
  op : TreeOp

/-- What became of the admissions of a run. -/
structure ClaimLog where
  run : TreeRun
  admitted : List Admission := []
  queued : List Admission := []
  claimed : List Admission := []
  handedOut : List NodeClaim := []
  withdrawn : List Withdrawal := []

namespace ClaimLog

/-- The admission made by an operation. -/
def newAdmission (g : ClaimLog) (op : TreeOp) : List Admission :=
  (op.admits? g.run.tree).toList.map fun id => ⟨g.admitted.length, id⟩

/-- The admission that an operation claims. -/
def newClaim (g : ClaimLog) (op : TreeOp) : Option Admission :=
  (op.claims? g.run.tree).bind fun c =>
    (g.queued ++ g.newAdmission op).find? fun a => a.nodeId = c.node.nodeId

def next (g : ClaimLog) (op : TreeOp) : ClaimLog where
  run := g.run.next op
  admitted := g.admitted ++ g.newAdmission op
  queued := (g.queued ++ g.newAdmission op).filter fun a =>
    a.nodeId ∈ (op.apply g.run.tree).queue.deque
  claimed := g.claimed ++ (g.newClaim op).toList
  handedOut := g.handedOut ++ (op.claims? g.run.tree).toList
  withdrawn := g.withdrawn ++ ((g.queued ++ g.newAdmission op).filter fun a =>
    a.nodeId ∉ (op.apply g.run.tree).queue.deque ∧ some a ≠ g.newClaim op).map
      fun a => ⟨a, g.run.tree, op⟩

/-- Claims are handed out in the order of admission, and every admission is queued,
claimed, or withdrawn for a reason. -/
structure InOrder (g : ClaimLog) : Prop where
  queue : g.queued.map (·.nodeId) = g.run.tree.queue.deque
  numbers : g.admitted.map (·.number) = List.range g.admitted.length
  fifo : (g.claimed ++ g.queued).Sublist g.admitted
  handedOut : g.claimed.map (·.nodeId) = g.handedOut.map (·.node.nodeId)
  accounted : ∀ a ∈ g.admitted, a ∈ g.claimed ∨ a ∈ g.queued ∨
    ∃ w ∈ g.withdrawn, w.admission = a
  withdrawn : ∀ w ∈ g.withdrawn, w.op.Withdraws w.before w.admission.nodeId ∧
    (w.op.apply w.before).Ended w.admission.nodeId

/-- A root that waits for its admission has not been admitted. -/
def RootFirst (g : ClaimLog) : Prop :=
  g.run.rootWaiting = true → ∀ a ∈ g.admitted, a.nodeId ≠ g.run.tree.graph.rootId

/-- What the run shows from outside: the claims handed out so far, and what the
next operation admits and reports. -/
structure ClaimsInOrder (g : ClaimLog) : Prop where
  fifo : (g.handedOut.map (·.node.nodeId)).Sublist (g.admitted.map (·.nodeId))
  admissions : g.admitted.Nodup
  claims : g.claimed.Sublist g.admitted ∧
    g.claimed.map (·.nodeId) = g.handedOut.map (·.node.nodeId)
  /-- A node is admitted again only as a new node, after its removal. -/
  again : ∀ op : TreeOp, ∀ a ∈ g.admitted, op.admits? g.run.tree = some a.nodeId →
    g.run.tree.graph.getNode a.nodeId = none
  accounted : ∀ a ∈ g.admitted, a ∈ g.claimed ∨ a.nodeId ∈ g.run.tree.queue.deque ∨
    ∃ w ∈ g.withdrawn, w.admission = a ∧ w.op.Withdraws w.before a.nodeId ∧
      (w.op.apply w.before).Ended a.nodeId
  positions : ∀ (op : TreeOp) l, op.ProperId → op.queueUpdate? g.run.tree = some l →
    (op.apply g.run.tree).Lists l

end ClaimLog

/-- The runs of one tree with the log of their claims. -/
def claimSystem : System ClaimLog TreeOp where
  init g := ∃ r, TreeRun.Init r ∧ g = { run := r }
  step g op g' := op.ProperId ∧ g' = g.next op

namespace ClaimLog

variable {g : ClaimLog} {op : TreeOp}

/-- An operation that admits and claims nothing. -/
theorem InOrder.sweep (h : g.InOrder) {ids : List String}
    (hadmits : op.admits? g.run.tree = none) (hclaims : op.claims? g.run.tree = none)
    (hdeque : (op.apply g.run.tree).queue.deque =
      g.run.tree.queue.deque.filter fun id => id ∉ ids)
    (hids : ∀ id ∈ ids, id ∈ g.run.tree.queue.deque →
      op.Withdraws g.run.tree id ∧ (op.apply g.run.tree).Ended id) : (g.next op).InOrder := by
  have hnew : g.newAdmission op = [] := by simp [newAdmission, hadmits]
  have hclaim : g.newClaim op = none := by simp [newClaim, hclaims]
  have hmem : ∀ a ∈ g.queued, a.nodeId ∈ g.run.tree.queue.deque := by
    intro a ha
    rw [← h.queue]
    exact List.mem_map_of_mem ha
  have hfilter : g.queued.filter (fun a => a.nodeId ∈ (op.apply g.run.tree).queue.deque) =
      g.queued.filter fun a => a.nodeId ∉ ids := by
    refine List.filter_congr fun a ha => ?_
    rw [hdeque]
    simp [hmem a ha]
  refine ⟨?_, ?_, ?_, ?_, ?_, ?_⟩
  · show ((g.queued ++ g.newAdmission op).filter _).map (·.nodeId) = (op.apply g.run.tree).queue.deque
    rw [hnew, List.append_nil, hfilter, hdeque, ← h.queue, List.filter_map]
    rfl
  · simpa [next, hnew] using h.numbers
  · simp only [next, hnew, hclaim, List.append_nil, Option.toList_none]
    exact ((List.Sublist.refl _).append List.filter_sublist).trans h.fifo
  · simpa [next, hclaims, hclaim] using h.handedOut
  · intro a ha
    simp only [next, hnew, List.append_nil] at ha
    rcases h.accounted a ha with hc | hq | ⟨w, hw, rfl⟩
    · exact Or.inl (by simp [next, hc])
    · by_cases hin : a.nodeId ∈ (op.apply g.run.tree).queue.deque
      · exact Or.inr (Or.inl (by simp [next, hnew, hq, hin]))
      · exact Or.inr (Or.inr ⟨⟨a, g.run.tree, op⟩, by simp [next, hnew, hclaim, hq, hin], rfl⟩)
    · exact Or.inr (Or.inr ⟨w, by simp [next, hw], rfl⟩)
  · intro w hw
    simp only [next, hnew, hclaim, List.append_nil, List.mem_append, List.mem_map,
      List.mem_filter] at hw
    rcases hw with hw | ⟨a, ⟨ha, hout⟩, rfl⟩
    · exact h.withdrawn w hw
    · have hq := hmem a ha
      have hin : a.nodeId ∈ ids := by
        by_contra hni
        rw [hdeque] at hout
        simp [hq, hni] at hout
      exact hids a.nodeId hin hq

/-- An operation that appends a node to the queue. -/
theorem InOrder.enqueue (h : g.InOrder) {id : String}
    (hadmits : op.admits? g.run.tree = some id) (hclaims : op.claims? g.run.tree = none)
    (hdeque : (op.apply g.run.tree).queue.deque = g.run.tree.queue.deque ++ [id]) :
    (g.next op).InOrder := by
  have hnew : g.newAdmission op = [⟨g.admitted.length, id⟩] := by simp [newAdmission, hadmits]
  have hclaim : g.newClaim op = none := by simp [newClaim, hclaims]
  have hin : ∀ a ∈ g.queued ++ [⟨g.admitted.length, id⟩],
      a.nodeId ∈ (op.apply g.run.tree).queue.deque := by
    intro a ha
    rw [hdeque, ← h.queue]
    simpa using List.mem_map_of_mem (f := (·.nodeId)) ha
  have hqueued : (g.next op).queued = g.queued ++ [⟨g.admitted.length, id⟩] := by
    simp only [next, hnew]
    exact List.filter_eq_self.mpr fun a ha => by simpa using hin a ha
  have hwithdrawn : (g.next op).withdrawn = g.withdrawn := by
    simp only [next, hnew, List.append_right_eq_self, List.map_eq_nil_iff,
      List.filter_eq_nil_iff]
    intro a ha
    simp [hin a ha]
  refine ⟨?_, ?_, ?_, ?_, ?_, ?_⟩
  · rw [hqueued]
    simp [next, TreeRun.next, hdeque, h.queue]
  · simp [next, hnew, h.numbers, List.range_succ]
  · rw [hqueued]
    simp only [next, hnew, hclaim, Option.toList_none, List.append_nil]
    rw [← List.append_assoc]
    exact h.fifo.append (List.Sublist.refl _)
  · simpa [next, hclaims, hclaim] using h.handedOut
  · intro a ha
    rw [hqueued, hwithdrawn]
    simp only [next, hnew, hclaim, Option.toList_none, List.append_nil, List.mem_append] at ha ⊢
    rcases ha with ha | ha
    · rcases h.accounted a ha with hc | hq | hw
      · exact Or.inl hc
      · exact Or.inr (Or.inl (Or.inl hq))
      · exact Or.inr (Or.inr hw)
    · exact Or.inr (Or.inl (Or.inr ha))
  · rw [hwithdrawn]
    exact h.withdrawn

/-- An admission that is claimed at once; the queue is empty before and after. -/
theorem InOrder.claim (h : g.InOrder) {c : NodeClaim}
    (hadmits : op.admits? g.run.tree = some c.node.nodeId)
    (hclaims : op.claims? g.run.tree = some c) (hempty : g.run.tree.queue.deque = [])
    (hdeque : (op.apply g.run.tree).queue.deque = []) : (g.next op).InOrder := by
  have hnew : g.newAdmission op = [⟨g.admitted.length, c.node.nodeId⟩] := by
    simp [newAdmission, hadmits]
  have hnil : g.queued = [] := by
    rw [← List.map_eq_nil_iff (f := (·.nodeId)), h.queue, hempty]
  have hclaim : g.newClaim op = some ⟨g.admitted.length, c.node.nodeId⟩ := by
    simp [newClaim, hclaims, hnew, hnil]
  have hqueued : (g.next op).queued = [] := by simp [next, hdeque]
  have hwithdrawn : (g.next op).withdrawn = g.withdrawn := by
    simp [next, hnew, hnil, hclaim]
  refine ⟨?_, ?_, ?_, ?_, ?_, ?_⟩
  · rw [hqueued]
    simp [next, TreeRun.next, hdeque]
  · simp [next, hnew, h.numbers, List.range_succ]
  · rw [hqueued, List.append_nil]
    simp only [next, hnew, hclaim, Option.toList_some]
    have hfifo := h.fifo
    rw [hnil, List.append_nil] at hfifo
    exact hfifo.append (List.Sublist.refl _)
  · simp [next, hclaims, hclaim, h.handedOut]
  · intro a ha
    rw [hqueued, hwithdrawn]
    simp only [next, hnew, hclaim, Option.toList_some, List.mem_append] at ha ⊢
    rcases ha with ha | ha
    · rcases h.accounted a ha with hc | hq | hw
      · exact Or.inl (Or.inl hc)
      · rw [hnil] at hq
        cases hq
      · exact Or.inr (Or.inr hw)
    · exact Or.inl (Or.inr ha)
  · rw [hwithdrawn]
    exact h.withdrawn

/-- An operation that claims the head of the queue. -/
theorem InOrder.take (h : g.InOrder) {c : NodeClaim}
    (hadmits : op.admits? g.run.tree = none) (hclaims : op.claims? g.run.tree = some c)
    (hdeque : g.run.tree.queue.deque = c.node.nodeId :: (op.apply g.run.tree).queue.deque) :
    (g.next op).InOrder := by
  have hnew : g.newAdmission op = [] := by simp [newAdmission, hadmits]
  have hmap := h.queue
  rw [hdeque] at hmap
  obtain ⟨a, rest, hcons, hid, hrest⟩ := List.map_eq_cons_iff.mp hmap
  have hclaim : g.newClaim op = some a := by simp [newClaim, hclaims, hnew, hcons, hid]
  have hhead : a.nodeId ∉ (op.apply g.run.tree).queue.deque := by
    have hnodup := g.run.tree.queue.nodup
    rw [hdeque, List.nodup_cons] at hnodup
    rw [hid]
    exact hnodup.1
  have htail : ∀ b ∈ rest, b.nodeId ∈ (op.apply g.run.tree).queue.deque := by
    intro b hb
    rw [← hrest]
    exact List.mem_map_of_mem hb
  have hqueued : (g.next op).queued = rest := by
    simp only [next, hnew, List.append_nil, hcons]
    rw [List.filter_cons_of_neg (by simpa using hhead)]
    exact List.filter_eq_self.mpr fun b hb => by simpa using htail b hb
  have hwithdrawn : (g.next op).withdrawn = g.withdrawn := by
    simp only [next, hnew, List.append_nil, hcons, hclaim, List.append_right_eq_self,
      List.map_eq_nil_iff, List.filter_eq_nil_iff, List.mem_cons]
    rintro b (rfl | hb)
    · simp
    · simp [htail b hb]
  have hfifo := h.fifo
  rw [hcons] at hfifo
  refine ⟨?_, ?_, ?_, ?_, ?_, ?_⟩
  · rw [hqueued]
    exact hrest
  · simpa [next, hnew] using h.numbers
  · rw [hqueued]
    simpa [next, hnew, hclaim] using hfifo
  · simp [next, hclaims, hclaim, h.handedOut, hid]
  · intro b hb
    rw [hqueued, hwithdrawn]
    simp only [next, hnew, hclaim, Option.toList_some, List.append_nil, List.mem_append,
      List.mem_singleton] at hb ⊢
    rcases h.accounted b hb with hc | hq | hw
    · exact Or.inl (Or.inl hc)
    · rw [hcons, List.mem_cons] at hq
      rcases hq with rfl | hq
      · exact Or.inl (Or.inr rfl)
      · exact Or.inr (Or.inl hq)
    · exact Or.inr (Or.inr hw)
  · rw [hwithdrawn]
    exact h.withdrawn

/-- One operation keeps the order of the claims. -/
theorem InOrder.next (h : g.InOrder) (hr : g.run.Invariant) (hop : op.ProperId) :
    (g.next op).InOrder := by
  cases TreeOp.queueEffect hr.scheduled hop with
  | sweep ids hadmits hclaims hdeque hids => exact h.sweep hadmits hclaims hdeque hids
  | enqueue id hadmits hclaims _ hdeque => exact h.enqueue hadmits hclaims hdeque
  | claim c hadmits hclaims hempty hdeque => exact h.claim hadmits hclaims hempty hdeque
  | take c hadmits hclaims hdeque => exact h.take hadmits hclaims hdeque

theorem RootFirst.next (h : g.RootFirst) (hr : g.run.Invariant) (hop : op.ProperId) :
    (g.next op).RootFirst := by
  intro hw a ha
  simp only [ClaimLog.next, TreeRun.next, Bool.and_eq_true, Bool.not_eq_true',
    decide_eq_false_iff_not] at hw
  obtain ⟨hw, hnot⟩ := hw
  have hroot : (g.next op).run.tree.graph.rootId = g.run.tree.graph.rootId :=
    TreeOp.apply_rootId hr.scheduled hop
  rw [hroot]
  simp only [ClaimLog.next, newAdmission, List.mem_append, List.mem_map,
    Option.mem_toList] at ha
  rcases ha with ha | ⟨id, hid, rfl⟩
  · exact h hw a ha
  · rintro rfl
    rcases TreeOp.admits?_cases hr.scheduled hid with ⟨hnone, p, pn, hpn⟩ | ⟨hadm, -⟩
    · -- a graph without its root has no parent to reply to
      obtain ⟨r, hroot⟩ := hr.scheduled.graph.root_exists hpn
      rw [hnone] at hroot
      cases hroot
    · exact hnot hadm

theorem invariant_of_reachable (hg : claimSystem.Reachable g) :
    treeSystem.Reachable g.run ∧ g.InOrder ∧ g.RootFirst := by
  refine hg.invariant (P := fun g => treeSystem.Reachable g.run ∧ g.InOrder ∧ g.RootFirst) ?_ ?_
  · rintro g ⟨r, hinit, rfl⟩
    refine ⟨.start hinit, ⟨?_, rfl, .slnil, rfl, ?_, ?_⟩, ?_⟩
    · cases hinit with
      | fresh _ _ _ hnew =>
        obtain ⟨_, -, rfl⟩ := MessageTree.new_ok hnew
        rfl
      | restored h =>
        obtain ⟨-, -, hempty, -⟩ := MessageTree.fromSnapshot_spec h
        exact hempty.symm
    · simp
    · simp
    · intro _ a ha
      cases ha
  · rintro g op _ - ⟨hr, hin, hroot⟩ ⟨hop, rfl⟩
    have hinv := TreeRun.invariant_of_reachable hr
    exact ⟨TreeRun.reachable_next hr hop, hin.next hinv hop, hroot.next hinv hop⟩

theorem InOrder.admissions (h : g.InOrder) : g.admitted.Nodup := by
  refine List.Nodup.of_map (·.number) ?_
  rw [h.numbers]
  exact List.nodup_range

/-- Claims are handed out in the order of admission, each admission at most once;
an admission that is not claimed is queued or was withdrawn. -/
theorem claims_in_order (hg : claimSystem.Reachable g) : g.ClaimsInOrder := by
  obtain ⟨hr, h, hroot⟩ := invariant_of_reachable hg
  have hs := (TreeRun.invariant_of_reachable hr).scheduled
  have hclaimed : g.claimed.Sublist g.admitted :=
    (List.sublist_append_left _ _).trans h.fifo
  refine ⟨?_, h.admissions, ⟨hclaimed, h.handedOut⟩, ?_, ?_, ?_⟩
  · rw [← h.handedOut]
    exact hclaimed.map _
  · intro op a ha hadmits
    rcases TreeOp.admits?_cases hs hadmits with ⟨hnone, -⟩ | ⟨-, hnot, n, hn, hp⟩
    · exact hnone
    · rcases hs.pending hn hp with hq | ⟨hw, hid⟩
      · exact absurd hq hnot
      · exact absurd hid (hroot hw a ha)
  · intro a ha
    rcases h.accounted a ha with hc | hq | ⟨w, hw, rfl⟩
    · exact Or.inl hc
    · refine Or.inr (Or.inl ?_)
      rw [← h.queue]
      exact List.mem_map_of_mem hq
    · exact Or.inr (Or.inr ⟨w, hw, rfl, h.withdrawn w hw⟩)
  · intro op l hop hl
    have hs' := (TreeRun.invariant_of_reachable (TreeRun.reachable_next hr hop)).scheduled
    exact TreeOp.queueUpdate_lists hs hs' hl

end ClaimLog

/-! ## A run of three operations -/

section Example

/-- The root is claimed, a reply is queued, the release claims the reply. -/
def sampleLog : ClaimLog :=
  (((⟨⟨sampleTree, true, []⟩, [], [], [], [], []⟩ : ClaimLog).next (.enqueueOrClaim "10" "a")).next
    (.addAndEnqueue "12" ⟨"telegram", "7"⟩ "again" "13" "10" "11" "b")).next
      (.finishAndClaimNext "a" "c")

theorem sampleLog_reachable : claimSystem.Reachable sampleLog := by
  have start : claimSystem.Reachable ⟨⟨sampleTree, true, []⟩, [], [], [], [], []⟩ :=
    .start ⟨_, sampleTree_init, rfl⟩
  exact ((start.next ⟨by simp [TreeOp.ProperId], rfl⟩).next
    ⟨by simp [TreeOp.ProperId], rfl⟩).next ⟨by simp [TreeOp.ProperId], rfl⟩

theorem claims_in_order_sample : sampleLog.ClaimsInOrder ∧
    sampleLog.handedOut.map (·.node.nodeId) = ["10", "12"] :=
  ⟨ClaimLog.claims_in_order sampleLog_reachable, by decide +kernel⟩

end Example

end Switchboard.Messaging
