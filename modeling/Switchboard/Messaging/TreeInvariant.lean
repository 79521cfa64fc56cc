import Switchboard.Messaging.GraphSubtree
import Switchboard.Messaging.Tree

/-!
# The scheduler invariant and the effect of a sweep

`Scheduled` relates node states, queue and active claim. The cancelling
operations all have the same effect: the runnable nodes of some set become
`ERROR` and leave the queue, and nothing else changes but the cancellation flag.
`Swept` states that effect, and `Scheduled.swept` that it keeps the invariant.
-/

namespace Switchboard.Messaging

namespace MessageTreeGraph

variable {g h : MessageTreeGraph} {ids : List String}

/-- `h` is `g` with the runnable nodes among `ids` marked as errors. -/
structure Marked (ids : List String) (g h : MessageTreeGraph) : Prop where
  rootId : h.rootId = g.rootId
  identity : h.identity = g.identity
  status : h.statusToNode = g.statusToNode
  keys : h.nodes.keys = g.nodes.keys
  node : ∀ id, h.getNode id = (g.getNode id).map fun n =>
    if id ∈ ids ∧ n.state.runnable then n.markError else n

theorem Marked.refl (g : MessageTreeGraph) : g.Marked [] g where
  rootId := rfl
  identity := rfl
  status := rfl
  keys := rfl
  node := by
    intro id
    simp

theorem Marked.of_node (hm : Marked ids g h) {id : String} {n : MessageNode}
    (hn : g.getNode id = some n) :
    h.getNode id = some (if id ∈ ids ∧ n.state.runnable then n.markError else n) := by
  rw [hm.node, hn]
  rfl

theorem Marked.node_back (hm : Marked ids g h) {id : String} {m : MessageNode}
    (hn : h.getNode id = some m) : ∃ n, g.getNode id = some n ∧
      m = if id ∈ ids ∧ n.state.runnable then n.markError else n := by
  rw [hm.node] at hn
  obtain ⟨n, hg, rfl⟩ := Option.map_eq_some_iff.mp hn
  exact ⟨n, hg, rfl⟩

/-- A node that is still runnable after the marking is an unmarked old one. -/
theorem Marked.runnable_back (hm : Marked ids g h) {id : String} {m : MessageNode}
    (hn : h.getNode id = some m) (hr : m.state.runnable = true) :
    g.getNode id = some m ∧ id ∉ ids := by
  obtain ⟨n, hg, rfl⟩ := hm.node_back hn
  split_ifs at hr ⊢ with h1
  · simp at hr
  · exact ⟨hg, fun hid => h1 ⟨hid, hr⟩⟩

/-- Mark one more node. -/
theorem Marked.mark (hm : Marked ids g h) {id : String} {n : MessageNode}
    (hn : h.getNode id = some n) (hr : n.state.runnable = true) :
    Marked (ids ++ [id]) g (h.updateNode id MessageNode.markError) where
  rootId := hm.rootId
  identity := hm.identity
  status := hm.status
  keys := (Dict.keys_modify _ _ _).trans hm.keys
  node := by
    intro j
    rw [getNode_updateNode]
    split_ifs with hj
    · subst hj
      rw [hn, (hm.runnable_back hn hr).1]
      simp [hr]
    · rw [hm.node]
      simp [hj]

/-- Pass a node that is absent or not runnable. -/
theorem Marked.skip (hm : Marked ids g h) {id : String}
    (hn : ∀ n, h.getNode id = some n → n.state.runnable = false) : Marked (ids ++ [id]) g h where
  rootId := hm.rootId
  identity := hm.identity
  status := hm.status
  keys := hm.keys
  node := by
    intro j
    rw [hm.node]
    cases hj : g.getNode j with
    | none => rfl
    | some n =>
      simp only [Option.map_some, List.mem_append, List.mem_singleton, Option.some.injEq]
      by_cases hji : j = id
      · subst hji
        have hnode := hn _ (hm.of_node hj)
        split_ifs at hnode ⊢ with h1 h2 h2
        · rfl
        · exact absurd ⟨Or.inl h1.1, h1.2⟩ h2
        · rw [h2.2] at hnode
          cases hnode
        · rfl
      · simp [hji]

theorem Marked.congr {js : List String} (hm : Marked ids g h)
    (hij : ∀ id n, g.getNode id = some n → n.state.runnable = true → (id ∈ ids ↔ id ∈ js)) :
    Marked js g h where
  rootId := hm.rootId
  identity := hm.identity
  status := hm.status
  keys := hm.keys
  node := by
    intro id
    rw [hm.node]
    cases hn : g.getNode id with
    | none => rfl
    | some n =>
      rw [Option.map_some, Option.map_some]
      by_cases hr : n.state.runnable = true
      · simp only [hij id n hn hr]
      · simp [hr]

theorem Marked.sameShape (hm : Marked ids g h) : g.SameShape h where
  rootId := hm.rootId
  identity := hm.identity
  status := hm.status
  keys := hm.keys
  node := by
    intro id n hn
    refine ⟨_, hm.of_node hn, ?_⟩
    split_ifs
    · exact n.sameLinks_updateState _ _
    · exact ⟨rfl, rfl, rfl, rfl, rfl⟩

/-- Marking changes no status id. -/
theorem Marked.statusId (hm : Marked ids g h) {id : String} {m : MessageNode}
    (hn : h.getNode id = some m) : ∃ n, g.getNode id = some n ∧
      m.statusMessageId = n.statusMessageId ∧ m.nodeId = n.nodeId := by
  obtain ⟨n, hg, rfl⟩ := hm.node_back hn
  refine ⟨n, hg, ?_⟩
  split_ifs <;> exact ⟨rfl, rfl⟩

end MessageTreeGraph

namespace MessageTree

variable {t t' : MessageTree} {waiting : String → Prop}

/-- Node states, queue and status messages agree: the `PENDING` nodes are those
queued, except that a node may still wait for its own admission. -/
structure Consistent (waiting : String → Prop) (t : MessageTree) : Prop where
  graph : t.graph.WellFormed
  queued : ∀ id ∈ t.queue.deque, ∃ n, t.graph.getNode id = some n ∧ n.state = .pending
  pending : ∀ {id n}, t.graph.getNode id = some n → n.state = .pending →
    id ∈ t.queue.deque ∨ waiting id
  status : ∀ {id n}, t.graph.getNode id = some n → n.state.runnable = true →
    n.statusMessageId.isSome

/-- The invariant between operations: moreover nothing is queued without an
active claim, and a claim that was not cancelled has its node, past `PENDING`. -/
structure Scheduled (waiting : String → Prop) (t : MessageTree) : Prop
    extends Consistent waiting t where
  idle : t.active = none → t.queue.deque = []
  claimed : ∀ {a}, t.active = some a → a.cancellationRequested = false →
    ∃ n, t.graph.getNode a.claim.node.nodeId = some n ∧ n.state ≠ .pending

theorem Consistent.mono {also : String → Prop} (hc : t.Consistent waiting)
    (hw : ∀ id n, t.graph.getNode id = some n → n.state = .pending → waiting id →
      id ∈ t.queue.deque ∨ also id) : t.Consistent also where
  graph := hc.graph
  queued := hc.queued
  pending := fun hn hp => (hc.pending hn hp).elim Or.inl (hw _ _ hn hp)
  status := hc.status

theorem Scheduled.mono {also : String → Prop} (hs : t.Scheduled waiting)
    (hw : ∀ id n, t.graph.getNode id = some n → n.state = .pending → waiting id →
      id ∈ t.queue.deque ∨ also id) : t.Scheduled also where
  toConsistent := hs.toConsistent.mono hw
  idle := hs.idle
  claimed := hs.claimed

/-- The cancellation flags may be set, the claims stay. -/
structure SameClaim (before after : Option ActiveClaim) : Prop where
  claim : after.map (·.claim) = before.map (·.claim)
  requested : ∀ {a b}, before = some a → after = some b → b.cancellationRequested = false →
    a.cancellationRequested = false

theorem SameClaim.refl (a : Option ActiveClaim) : SameClaim a a where
  claim := rfl
  requested := by
    intro b c hb hc hf
    rw [hb] at hc
    cases hc
    exact hf

theorem sameClaim_requestCancellation (t : MessageTree) :
    SameClaim t.active t.requestCancellation.active where
  claim := by
    cases h : t.active <;> simp [requestCancellation, h]
  requested := by
    intro a b ha hb hf
    simp only [requestCancellation, ha, Option.map_some, Option.some.injEq] at hb
    rw [← hb] at hf
    cases hf

theorem SameClaim.eq_none {a b : Option ActiveClaim} (h : SameClaim a b) :
    b = none ↔ a = none := by
  rw [← Option.map_eq_none_iff (f := fun x : ActiveClaim => x.claim), h.claim,
    Option.map_eq_none_iff]

theorem SameClaim.back {a b : Option ActiveClaim} (h : SameClaim a b) {y : ActiveClaim}
    (hy : b = some y) : ∃ x, a = some x ∧ y.claim = x.claim := by
  have hc := h.claim
  rw [hy, Option.map_some] at hc
  obtain ⟨x, hx, hxy⟩ := Option.map_eq_some_iff.mp hc.symm
  exact ⟨x, hx, hxy.symm⟩

theorem activeOn_eq (t : MessageTree) (id : String) :
    t.activeOn id = (t.active.map (·.claim)).any fun c => c.node.nodeId = id := by
  rw [activeOn, Option.any_map]

theorem SameClaim.activeOn_eq (h : SameClaim t.active t'.active) (id : String) :
    t'.activeOn id = t.activeOn id := by
  rw [MessageTree.activeOn_eq, MessageTree.activeOn_eq, h.claim]

/-- The runnable nodes among `ids` are cancelled: marked, and off the queue. -/
structure Swept (ids : List String) (t t' : MessageTree) : Prop where
  graph : t.graph.Marked ids t'.graph
  queue : t'.queue.deque = t.queue.deque.filter fun id => id ∉ ids
  active : SameClaim t.active t'.active

theorem Scheduled.swept {ids : List String} (hs : t.Scheduled waiting) (hw : Swept ids t t') :
    t'.Scheduled waiting where
  graph := hs.graph.of_sameShape hw.graph.sameShape
  queued := by
    intro id hid
    rw [hw.queue, List.mem_filter] at hid
    obtain ⟨n, hn, hp⟩ := hs.queued id hid.1
    have hids : id ∉ ids := by simpa using hid.2
    exact ⟨n, by rw [hw.graph.node, hn]; simp [hids], hp⟩
  pending := by
    intro id m hm hp
    obtain ⟨hn, hids⟩ := hw.graph.runnable_back hm (by rw [hp]; rfl)
    refine (hs.pending hn hp).imp_left fun hq => ?_
    rw [hw.queue, List.mem_filter]
    exact ⟨hq, by simpa using hids⟩
  idle := by
    intro ha
    rw [hw.queue, hs.idle (hw.active.eq_none.mp ha), List.filter_nil]
  status := by
    intro id m hm hr
    exact hs.status (hw.graph.runnable_back hm hr).1 hr
  claimed := by
    intro b hb hf
    obtain ⟨a, ha, hab⟩ := hw.active.back hb
    obtain ⟨n, hn, hp⟩ := hs.claimed ha (hw.active.requested ha hb hf)
    rw [hab]
    refine ⟨_, hw.graph.of_node hn, ?_⟩
    split_ifs
    · simp
    · exact hp

theorem uiTarget_of_isSome {n : MessageNode} (h : n.statusMessageId.isSome) :
    ∃ target, uiTarget n = .ok target := by
  obtain ⟨s, hs⟩ := Option.isSome_iff_exists.mp h
  exact ⟨⟨n.scope, n.nodeId, s⟩, by rw [uiTarget, hs]⟩

theorem uiTarget_of_none {n : MessageNode} (h : n.statusMessageId = none) :
    uiTarget n = .error (.valueError "Runnable node has no status message") := by
  rw [uiTarget, h]

/-- The queue listing never raises: queued nodes have a status message. -/
theorem Consistent.queueEntries_ok (hs : t.Consistent waiting) : ∃ l, t.queueEntries = .ok l := by
  refine foldlM_returns ?_ _
  intro entries id _
  cases hn : t.graph.getNode id with
  | none => exact ⟨entries, rfl⟩
  | some n =>
    simp only
    split_ifs with hp
    · obtain ⟨target, ht⟩ := uiTarget_of_isSome (hs.status hn (by rw [hp]; rfl))
      exact ⟨_, by rw [ht]; rfl⟩
    · exact ⟨entries, rfl⟩

end MessageTree

end Switchboard.Messaging
