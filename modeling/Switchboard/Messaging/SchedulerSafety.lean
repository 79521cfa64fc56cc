import Switchboard.Messaging.ManagerRuns

/-!
# The scheduler invariant, over runs

What holds in every state that a run of one tree reaches, and for every tree the
manager has published. A claim released while its node was still `IN_PROGRESS`
leaves that node behind; this is the one way for a node to be in progress
without being the node of the active claim.
-/

namespace Switchboard.Messaging

open MessageTree

/-- The scheduler invariant of a tree, seen from outside. -/
structure SchedulerInvariant (r : TreeRun) : Prop where
  /-- No second claim is handed out before the active one is released. -/
  oneClaim : ∀ (op : TreeOp) a, op.ProperId → r.tree.active = some a →
    ¬ op.Releases a.claim.claimId →
    ∃ b, (op.apply r.tree).active = some b ∧ b.claim = a.claim
  queueNodup : r.tree.queue.deque.Nodup
  pendingIff : ∀ id n, r.tree.graph.getNode id = some n →
    (r.rootWaiting = true → id ≠ r.tree.graph.rootId) →
    (n.state = .pending ↔ id ∈ r.tree.queue.deque)
  idle : r.tree.active = none → r.tree.queue.deque = []
  queuedStatus : ∀ id ∈ r.tree.queue.deque,
    ∃ n, r.tree.graph.getNode id = some n ∧ n.statusMessageId.isSome
  inProgress : ∀ id n, r.tree.graph.getNode id = some n → n.state = .inProgress →
    r.tree.activeOn id = true ∨ id ∈ r.released
  /-- A pending node stands in the queue of an active claim whose release hands
  the head of the queue to a new claim. -/
  notStranded : ∀ id n, r.tree.graph.getNode id = some n →
    (r.rootWaiting = true → id ≠ r.tree.graph.rootId) → n.state = .pending →
    ∃ a head rest, r.tree.active = some a ∧ r.tree.queue.deque = head :: rest ∧
      id ∈ head :: rest ∧ ∀ nextId, ∃ c queue,
        (r.tree.finishAndClaimNext a.claim.claimId nextId).1 = .ok ⟨some c, queue⟩ ∧
        c.node.nodeId = head ∧
        (r.tree.finishAndClaimNext a.claim.claimId nextId).2.queue.deque = rest ∧
        (r.tree.finishAndClaimNext a.claim.claimId nextId).2.active = some { claim := c }

/-- Releasing the active claim claims the head of the queue. -/
theorem finishAndClaimNext_head {t : MessageTree} {waiting : String → Prop}
    (hs : t.Scheduled waiting) {a : ActiveClaim} (ha : t.active = some a) {head : String}
    {rest : List String} (hq : t.queue.deque = head :: rest) (nextId : String) :
    ∃ c queue, (t.finishAndClaimNext a.claim.claimId nextId).1 = .ok ⟨some c, queue⟩ ∧
      c.node.nodeId = head ∧
      (t.finishAndClaimNext a.claim.claimId nextId).2.queue.deque = rest ∧
      (t.finishAndClaimNext a.claim.claimId nextId).2.active = some { claim := c } := by
  obtain ⟨next, queue, h, hfin⟩ := hs.finishAndClaimNext_cases a.claim.claimId nextId
  rw [h]
  generalize (t.finishAndClaimNext a.claim.claimId nextId).2 = t' at hfin
  cases hfin with
  | stale hne => simp [ha] at hne
  | idle _ hnil =>
    rw [hq] at hnil
    cases hnil
  | @next id n c q t' _ hdeque _ _ hcl =>
    obtain ⟨rfl, rfl⟩ := List.cons.inj (hq.symm.trans hdeque)
    refine ⟨c, queue, rfl, hcl.node, ?_, hcl.active⟩
    rw [hcl.queue]

theorem TreeRun.Invariant.schedulerInvariant {r : TreeRun} (hr : r.Invariant) :
    SchedulerInvariant r := by
  have hpending : ∀ id n, r.tree.graph.getNode id = some n →
      (r.rootWaiting = true → id ≠ r.tree.graph.rootId) →
      (n.state = .pending ↔ id ∈ r.tree.queue.deque) := by
    intro id n hn hroot
    constructor
    · intro hp
      rcases hr.scheduled.pending hn hp with h | ⟨hw, hid⟩
      · exact h
      · exact absurd hid (hroot hw)
    · intro hq
      obtain ⟨m, hm, hp⟩ := hr.scheduled.queued id hq
      rw [hn] at hm
      cases hm
      exact hp
  refine ⟨?_, r.tree.queue.nodup, hpending, hr.scheduled.idle, ?_, ?_, ?_⟩
  · intro op a hop ha hrel
    refine (TreeOp.apply_carries hr.scheduled hop ?_).2.active ha
    intro b hb
    rw [ha] at hb
    cases hb
    exact hrel
  · intro id hq
    obtain ⟨n, hn, hp⟩ := hr.scheduled.queued id hq
    exact ⟨n, hn, hr.scheduled.status hn (by rw [hp]; rfl)⟩
  · intro id n hn hp
    exact hr.inProgress hn hp
  · intro id n hn hroot hp
    have hq := (hpending id n hn hroot).mp hp
    obtain ⟨a, ha⟩ : ∃ a, r.tree.active = some a := by
      cases ha : r.tree.active with
      | none =>
        rw [hr.scheduled.idle ha] at hq
        cases hq
      | some a => exact ⟨a, rfl⟩
    cases hd : r.tree.queue.deque with
    | nil =>
      rw [hd] at hq
      cases hq
    | cons head rest =>
      exact ⟨a, head, rest, ha, rfl, hd ▸ hq, finishAndClaimNext_head hr.scheduled ha hd⟩

/-! ## Published trees -/

/-- A tree in a state that a run with steps in `C` reaches, its root admitted. -/
def Admitted (C : TreeRun → TreeOp → Prop) (t : MessageTree) : Prop :=
  ∃ r, treeSystem.Reach C r ∧ r.tree = t ∧ r.rootWaiting = false

theorem Admitted.apply {C : TreeRun → TreeOp → Prop} {t : MessageTree} {op : TreeOp}
    (ht : Admitted C t) (hop : op.ProperId) (hC : ∀ r : TreeRun, r.tree = t → C r op) :
    Admitted C (op.apply t) := by
  obtain ⟨r, hr, rfl, hw⟩ := ht
  exact ⟨r.next op, hr.next (hC r rfl) ⟨hop, rfl⟩, rfl, by simp [TreeRun.next, hw]⟩

theorem admitted_fresh {C : TreeRun → TreeOp → Prop} {root : MessageNode} {t : MessageTree}
    {claimId : String} (hroot : MessageTreeGraph.RootNode root) (hp : root.state = .pending)
    (hst : root.statusMessageId.isSome) (hnew : MessageTree.new root = .ok t)
    (hC : ∀ r, C r (.enqueueOrClaim root.nodeId claimId)) :
    Admitted C (t.enqueueOrClaim root.nodeId claimId).2 := by
  have hid : t.graph.rootId = root.nodeId := by
    obtain ⟨g, hg, rfl⟩ := MessageTree.new_ok hnew
    exact (MessageTreeGraph.new_ok hg).2.1
  refine ⟨TreeRun.next ⟨t, true, []⟩ (.enqueueOrClaim root.nodeId claimId),
    (System.Reach.start (S := treeSystem) (TreeRun.Init.fresh hroot hp hst hnew)).next (hC _)
      ⟨trivial, rfl⟩, rfl, ?_⟩
  simp [TreeRun.next, TreeOp.Admits, hid]

theorem admitted_restored {C : TreeRun → TreeOp → Prop} {s : TreeSnapshot} {t : MessageTree}
    (h : MessageTree.fromSnapshot s = .ok t) : Admitted C t :=
  ⟨⟨t, false, []⟩, .start (.restored h), rfl, rfl⟩

/-- Every tree the manager publishes is in a state of some run of its own. -/
theorem published_admitted {m : TreeRepository} (hm : managerSystem.Reachable m) :
    m.AllTrees (Admitted fun _ _ => True) := by
  refine hm.invariant (P := TreeRepository.AllTrees (Admitted fun _ _ => True)) ?_ ?_
  · rintro m (rfl | ⟨s, rfl⟩)
    · intro i t hi
      cases hi
    · exact TreeRepository.allTrees_fromSnapshot (fun s t h => admitted_restored h) s
  · rintro m op _ - hall ⟨hop, rfl⟩
    refine ManagerOp.Keeps.apply ⟨?_, ?_⟩ hall hop
    · exact fun root tree claimId h1 h2 h3 h4 => admitted_fresh h1 h2 h3 h4 fun _ => trivial
    · exact fun tree top ht hp _ => ht.apply hp fun _ _ => trivial

/-- A tree whose root was admitted hands out no claim for a node that exists. -/
theorem Admitted.enqueueOrClaim_claim {C : TreeRun → TreeOp → Prop} {t : MessageTree}
    (ht : Admitted C t) (nodeId claimId : String) :
    ∃ d, (t.enqueueOrClaim nodeId claimId).1 = .ok d ∧ d.claim = none := by
  obtain ⟨r, hr, rfl, hw⟩ := ht
  have hs := (TreeRun.invariant_of_reachable hr.reachable).scheduled
  have hcases := hs.enqueueOrClaim_cases nodeId claimId
  generalize (r.tree.enqueueOrClaim nodeId claimId).2 = t' at hcases
  generalize (r.tree.enqueueOrClaim nodeId claimId).1 = d at hcases
  cases hcases with
  | duplicate => exact ⟨_, rfl, rfl⟩
  | queued => exact ⟨_, rfl, rfl⟩
  | claimed hn hp ha _ =>
    rcases hs.pending hn hp with hq | ⟨hw', -⟩
    · rw [hs.idle ha] at hq
      cases hq
    · rw [hw] at hw'
      cases hw'

/-- The scheduler invariant holds along every run of a tree, and the duplicate
path of `admit` never returns a claim. -/
theorem scheduler_invariant :
    (∀ r, treeSystem.Reachable r → SchedulerInvariant r) ∧
      ∀ m, managerSystem.Reachable m → ∀ scope nodeId statusId identity tree prompt parent claimId,
        TreeQueueManager.duplicateTree m scope nodeId statusId = some (identity, tree) →
        ∃ d, (TreeQueueManager.admitMessage m scope nodeId prompt statusId parent claimId).1 = .ok d ∧
          d.claim = none := by
  refine ⟨fun r hr => (TreeRun.invariant_of_reachable hr).schedulerInvariant, ?_⟩
  intro m hm scope nodeId statusId identity tree prompt parent claimId hdup
  have hpub : m.getTree identity = some tree := by
    unfold TreeQueueManager.duplicateTree at hdup
    split at hdup
    · next h =>
      cases hdup
      exact TreeRepository.getTreeForReference_published h
    · exact TreeRepository.getTreeForReference_published hdup
  unfold TreeQueueManager.admitMessage
  simp only [hdup, TreeQueueManager.onTree]
  exact (published_admitted hm identity tree hpub).enqueueOrClaim_claim nodeId claimId

/-! ## A node in progress without an active claim -/

section Example

/-- A root as `admit` makes it. -/
def sampleRoot : MessageNode :=
  { nodeId := "10", scope := ⟨"telegram", "7"⟩, prompt := "hello", statusMessageId := some "11" }

def sampleTree : MessageTree where
  graph :=
    { rootId := "10", identity := ⟨⟨"telegram", "7"⟩, "10"⟩
      nodes := Dict.empty.set "10" sampleRoot, statusToNode := Dict.empty.set "11" "10" }

theorem sampleTree_init : TreeRun.Init ⟨sampleTree, true, []⟩ :=
  have hroot : MessageTreeGraph.RootNode sampleRoot := ⟨by decide, ⟨rfl, rfl⟩, rfl⟩
  .fresh hroot rfl rfl rfl

/-- Claim the root, then release the claim while the root is in progress. -/
theorem inProgress_without_claim : ∃ r, treeSystem.Reachable r ∧ r.rootWaiting = false ∧
    (r.tree.graph.getNode "10").map (·.state) = some .inProgress ∧ r.tree.active = none := by
  refine ⟨((⟨sampleTree, true, []⟩ : TreeRun).next (.enqueueOrClaim "10" "a")).next
    (.finishAndClaimNext "a" "b"), ?_, by decide, by decide, by decide⟩
  exact TreeRun.reachable_next (TreeRun.reachable_next (.start sampleTree_init) trivial) trivial

/-- The manager after the admission of one root. -/
def sampleManager : TreeRepository :=
  (TreeQueueManager.admitMessage .empty ⟨"telegram", "7"⟩ "10" "hello" "11" none "a").2

theorem sampleManager_reachable : managerSystem.Reachable sampleManager :=
  (System.Reachable.start (S := managerSystem) (Or.inl rfl)).next
    (l := .admitMessage ⟨"telegram", "7"⟩ "10" "hello" "11" none "a")
    ⟨by simp [ManagerOp.ProperId], rfl⟩

theorem scheduler_invariant_sample :
    SchedulerInvariant (TreeRun.next ⟨sampleTree, true, []⟩ (.enqueueOrClaim "10" "a")) ∧
      ∃ d, (TreeQueueManager.admitMessage sampleManager ⟨"telegram", "7"⟩ "10" "hello" "12" none
        "b").1 = .ok d ∧ d.claim = none :=
  ⟨scheduler_invariant.1 _ (TreeRun.reachable_next (.start sampleTree_init) trivial),
    scheduler_invariant.2 _ sampleManager_reachable _ _ _ _ _ _ _ _ rfl⟩

end Example

end Switchboard.Messaging
