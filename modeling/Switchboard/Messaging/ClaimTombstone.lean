import Switchboard.Messaging.SchedulerSafety

/-!
# Tombstones on cancelled claims

A cancellation that hits the node of the active claim sets a flag on the claim.
No operation takes the flag back, so an operation that presents the claim later
finds it flagged, or finds another claim in its place.
-/

namespace Switchboard.Messaging

namespace MessageTree

variable {t t' : MessageTree} {id claimId ref : String}

/-! ## What the operations do to the active claim -/

/-- The claim of `t'` was drawn in between, or is that of `t` with its flag kept. -/
def KeepsFlag (drawn : String → Prop) (t t' : MessageTree) : Prop :=
  ∀ b, t'.active = some b → drawn b.claim.claimId ∨
    ∃ a, t.active = some a ∧ b.claim = a.claim ∧
      (a.cancellationRequested = true → b.cancellationRequested = true)

theorem keepsFlag_of_eq {drawn : String → Prop} (h : t'.active = t.active) :
    KeepsFlag drawn t t' := by
  intro b hb
  exact Or.inr ⟨b, h ▸ hb, rfl, id⟩

theorem keepsFlag_requestCancellation {drawn : String → Prop}
    (h : t'.active = t.requestCancellation.active) : KeepsFlag drawn t t' := by
  intro b hb
  rw [h] at hb
  obtain ⟨a, ha, rfl⟩ := Option.map_eq_some_iff.mp hb
  exact Or.inr ⟨a, ha, rfl, fun _ => rfl⟩

theorem claim_active (t : MessageTree) (n : MessageNode) (claimId : String) :
    (t.claim n claimId).2.active = t.active ∨
      ∃ c : NodeClaim, (t.claim n claimId).2.active = some { claim := c } ∧
        c.claimId = claimId := by
  unfold claim
  dsimp only
  split
  · exact Or.inl rfl
  · exact Or.inr ⟨_, rfl, rfl⟩

theorem keepsFlag_claim (n : MessageNode) (claimId : String) (h : t'.active = t.active ∨ t'.active = none) :
    KeepsFlag (· = claimId) t (t'.claim n claimId).2 := by
  intro b hb
  rcases t'.claim_active n claimId with hc | ⟨c, hc, hid⟩
  · rw [hc] at hb
    rcases h with h | h
    · exact Or.inr ⟨b, h ▸ hb, rfl, fun hf => hf⟩
    · rw [h] at hb
      cases hb
  · rw [hc] at hb
    cases hb
    exact Or.inl hid

theorem keepsFlag_enqueueOrClaim (h : t'.active = t.active) :
    KeepsFlag (· = claimId) t (t'.enqueueOrClaim id claimId).2 := by
  unfold enqueueOrClaim
  split
  · exact keepsFlag_of_eq h
  · next n _ =>
    split_ifs
    · exact keepsFlag_of_eq h
    · split
      · have hk := keepsFlag_claim n claimId (Or.inl h)
        split
        · next hc =>
          rw [hc] at hk
          exact hk
        · next hc =>
          rw [hc] at hk
          exact hk
      · split
        · exact keepsFlag_of_eq h
        · exact keepsFlag_of_eq h

theorem keepsFlag_claimNext (rounds : ℕ) (h : t'.active = none) :
    KeepsFlag (· = claimId) t (claimNext rounds t' claimId).2 := by
  have hnone : ∀ u : MessageTree, u.active = none → KeepsFlag (· = claimId) t u := by
    intro u hu b hb
    rw [hu] at hb
    cases hb
  induction rounds generalizing t' with
  | zero => exact hnone t' h
  | succ rounds ih =>
    unfold claimNext
    split
    · exact hnone t' h
    · next popped q _ =>
      split_ifs
      · exact hnone _ h
      · dsimp only
        split
        · exact ih h
        · next n _ =>
          split_ifs
          · have hk : KeepsFlag (· = claimId) t ({ t' with queue := q }.claim n claimId).2 :=
              keepsFlag_claim n claimId (Or.inr h)
            split
            · next hc =>
              rw [hc] at hk
              exact hk
            · next hc =>
              rw [hc] at hk
              exact hk
          · exact ih h

theorem keepsFlag_finishAndClaimNext {nextClaimId : String} :
    KeepsFlag (· = nextClaimId) t (t.finishAndClaimNext claimId nextClaimId).2 := by
  have hk : KeepsFlag (· = nextClaimId) t
      (claimNext t.queue.qsize { t with active := none } nextClaimId).2 :=
    keepsFlag_claimNext t.queue.qsize rfl
  unfold finishAndClaimNext
  split_ifs
  · exact keepsFlag_of_eq rfl
  · split
    · next h =>
      rw [h] at hk
      exact hk
    · next h =>
      rw [h] at hk
      exact hk

/-! ## What the cancelling operations do to it -/

/-- `cancel_node` flags the claim exactly if it is on the node. -/
theorem cancelNode_active (t : MessageTree) (id : String) :
    (t.cancelNode id).2.active =
      (if t.activeOn id then t.requestCancellation else t).active := by
  unfold cancelNode
  dsimp only
  repeat' split
  all_goals rfl

theorem Sweep.target_tree (s : Sweep) (n : MessageNode) : (s.target n).2.tree = s.tree := by
  unfold Sweep.target
  split <;> rfl

theorem cancelActive_active (t : MessageTree) :
    t.cancelActive.2.tree.active = t.requestCancellation.active := by
  unfold cancelActive
  split
  · next h => simp [requestCancellation, h]
  · dsimp only
    split
    · rfl
    · split_ifs
      · rw [Sweep.target_tree]
        rfl
      · rw [Sweep.target_tree]
        rfl
      · rfl

theorem cancelQueued_active (s : Sweep) (id : String) :
    (cancelQueued s id).2.tree.active = s.tree.active := by
  unfold cancelQueued
  split
  · rfl
  · split_ifs
    · rw [Sweep.target_tree]
      rfl
    · rfl

theorem cancelStale_active (s : Sweep) (id : String) :
    (cancelStale s id).2.tree.active = s.tree.active := by
  unfold cancelStale
  split
  · rfl
  · split_ifs
    · rfl
    · rw [Sweep.target_tree]
      rfl

theorem cancelAffected_active (activeClaim : Option NodeClaim) (s : Sweep) (id : String) :
    (cancelAffected activeClaim s id).2.tree.active = s.tree.active := by
  unfold cancelAffected
  split
  · rfl
  · next n _ =>
    have htarget := Sweep.target_tree (s.dequeue id) n
    dsimp only
    split_ifs
    · split
      · next h =>
        rw [h] at htarget
        exact (congrArg MessageTree.active htarget).trans rfl
      · next h =>
        rw [h] at htarget
        exact (congrArg MessageTree.active htarget).trans rfl
    · rw [htarget]
      rfl
    · rfl

theorem propagateFailure_active (s : Sweep) (id : String) :
    (propagateFailure s id).2.tree.active = s.tree.active := by
  unfold propagateFailure
  split
  · rfl
  · split_ifs
    · rfl
    · rw [Sweep.target_tree]
      rfl

/-- A loop whose rounds leave the active claim alone does so. -/
theorem raisingLoop_active {f : Sweep → String → Except Fault Unit × Sweep}
    (hf : ∀ s id, (f s id).2.tree.active = s.tree.active) (l : List String) (s : Sweep) :
    (raisingLoop f l s).2.tree.active = s.tree.active := by
  refine raisingLoop_preserves (P := fun u : Sweep => u.tree.active = s.tree.active) ?_ rfl
  intro id _ u hu
  rw [hf, hu]

theorem cancelAll_active (t : MessageTree) :
    t.cancelAll.2.active = t.requestCancellation.active := by
  have hact := t.cancelActive_active
  unfold cancelAll
  split
  · next s h =>
    rw [h] at hact
    exact hact
  · next s h =>
    rw [h] at hact
    have hqueued := raisingLoop_active cancelQueued_active s.tree.queue.drain.1
      { s with tree := { s.tree with queue := s.tree.queue.drain.2 } }
    dsimp only
    split
    · next s' h' =>
      rw [h'] at hqueued
      exact hqueued.trans hact
    · next s' h' =>
      rw [h'] at hqueued
      have hstale := raisingLoop_active cancelStale_active s'.tree.graph.nodes.keys s'
      split
      · next h'' =>
        rw [h''] at hstale
        exact hstale.trans (hqueued.trans hact)
      · next h'' =>
        rw [h''] at hstale
        exact hstale.trans (hqueued.trans hact)

theorem failNodes_active (t : MessageTree) (id : String) (n : MessageNode) (propagate : Bool) :
    (t.failNodes id n propagate).2.tree.active = t.active := by
  have hfirst : (if n.state = .error then (.ok (), { tree := t })
      else (({ tree := t } : Sweep).mark id).target n : Except Fault Unit × Sweep).2.tree.active =
        t.active := by
    split_ifs
    · rfl
    · rw [Sweep.target_tree]
      rfl
  unfold failNodes
  by_cases hc : n.state = .completed
  · rw [if_pos hc]
  · rw [if_neg hc]
    dsimp only
    generalize (if n.state = .error then (.ok (), { tree := t })
      else (({ tree := t } : Sweep).mark id).target n : Except Fault Unit × Sweep) = first
      at hfirst ⊢
    obtain ⟨e | _, s⟩ := first
    · exact hfirst
    · cases propagate
      · exact hfirst
      · simp only [if_true]
        split
        · exact hfirst
        · exact (raisingLoop_active propagateFailure_active _ s).trans hfirst

theorem requestedIf_active {c : Bool} {x : Option ActiveClaim}
    (h : (if c = true then t.requestCancellation else t).active = x) :
    x = t.active ∨ x = t.requestCancellation.active := by
  split_ifs at h
  · exact Or.inr h.symm
  · exact Or.inl h.symm

/-- A removal leaves the claim alone or flags it. -/
theorem removeMessageSubtree_active (t : MessageTree) (ref : String) (order : SetOrder) :
    (t.removeMessageSubtree ref order).2.active = t.active ∨
      (t.removeMessageSubtree ref order).2.active = t.requestCancellation.active := by
  unfold removeMessageSubtree
  split
  · exact Or.inl rfl
  · exact Or.inl rfl
  · next owner kind referenceIds _ _ =>
    by_cases hempty : referenceIds = []
    · rw [if_pos hempty]
      exact Or.inl rfl
    · rw [if_neg hempty]
      dsimp only
      split
      · next h =>
        have hloop := congrArg (·.2.tree.active) h
        rw [raisingLoop_active (cancelAffected_active _)] at hloop
        exact requestedIf_active hloop
      · next h =>
        have hloop := congrArg (·.2.tree.active) h
        rw [raisingLoop_active (cancelAffected_active _)] at hloop
        exact requestedIf_active hloop

/-- A removal that hits the node of the claim flags the claim, even if it raises. -/
theorem removeMessageSubtree_flags {a : ActiveClaim} (hg : t.graph.WellFormed)
    (order : SetOrder) (ha : t.active = some a) (hhit : t.RemovalHits ref a.claim.node.nodeId) :
    (t.removeMessageSubtree ref order).2.active = t.requestCancellation.active := by
  obtain ⟨hsome, hcases⟩ := hhit
  obtain ⟨⟨owner, kind⟩, hres⟩ := Option.isSome_iff_exists.mp hsome
  obtain ⟨l, hl, -, hmem⟩ := hg.getReferenceDescendants_ok hsome
  have hne : l ≠ [] := List.ne_nil_of_mem ((hmem ref).mpr Relation.ReflTransGen.refl)
  unfold removeMessageSubtree
  simp only [hres, hl, if_neg hne]
  have hclaim : (t.active.bind fun b => if b.claim.node.nodeId ∈ order.list
      (if kind = .status then
        order.list (l.filter fun c => (t.graph.getNode c).isSome) ++ [owner.nodeId]
      else order.list (l.filter fun c => (t.graph.getNode c).isSome))
      then some b.claim else none).isSome = true := by
    rw [ha, Option.bind_some, if_pos]
    · rfl
    · rw [order.mem]
      rcases hcases with ⟨hdesc, hnode⟩ | ⟨n, hn, hid⟩
      · have hin : a.claim.node.nodeId ∈
            order.list (l.filter fun c => (t.graph.getNode c).isSome) := by
          rw [order.mem, List.mem_filter]
          exact ⟨(hmem _).mpr hdesc, by simpa using hnode⟩
        split_ifs
        · exact List.mem_append_left _ hin
        · exact hin
      · rw [hres] at hn
        cases hn
        rw [if_pos rfl, ← hid]
        exact List.mem_append_right _ (List.mem_singleton_self _)
  simp only [hclaim, if_true]
  split
  · next h =>
    have hloop := congrArg (·.2.tree.active) h
    rw [raisingLoop_active (cancelAffected_active _)] at hloop
    exact hloop.symm
  · next h =>
    have hloop := congrArg (·.2.tree.active) h
    rw [raisingLoop_active (cancelAffected_active _)] at hloop
    exact hloop.symm

/-! ## What an operation presenting a buried claim can do -/

/-- The claim is not the active one, or it was flagged. -/
def Buried (claimId : String) (t : MessageTree) : Prop :=
  ∀ a, t.active = some a → a.claim.claimId = claimId → a.cancellationRequested = true

theorem Buried.openClaim (h : t.Buried claimId) : t.openClaim claimId = none := by
  unfold MessageTree.openClaim
  cases ha : t.active with
  | none => rfl
  | some a =>
    by_cases hid : a.claim.claimId = claimId
    · simp [h a ha hid]
    · simp [hid]

theorem Buried.keep {drawn : String → Prop} (h : t.Buried claimId) (hk : KeepsFlag drawn t t')
    (hfresh : ¬ drawn claimId) : t'.Buried claimId := by
  intro b hb hid
  rcases hk b hb with hd | ⟨a, ha, hc, hf⟩
  · exact absurd (hid ▸ hd) hfresh
  · exact hf (h a ha (hc ▸ hid))

/-- No node was completed on the way from `t` to `t'`, and no session recorded. -/
def NoOutcome (t t' : MessageTree) : Prop :=
  ∀ id m, t'.graph.getNode id = some m → ∃ n, t.graph.getNode id = some n ∧
    m.sessionId = n.sessionId ∧ (m.state = .completed → n.state = .completed)

theorem noOutcome_of_graph (h : t'.graph = t.graph) : NoOutcome t t' :=
  fun _ m hm => ⟨m, h ▸ hm, rfl, fun hc => hc⟩

theorem NoOutcome.trans {t'' : MessageTree} (h : NoOutcome t t') (h' : NoOutcome t' t'') :
    NoOutcome t t'' := by
  intro id m hm
  obtain ⟨n, hn, hs, hc⟩ := h' id m hm
  obtain ⟨k, hk, hs', hc'⟩ := h id n hn
  exact ⟨k, hk, hs.trans hs', fun h => hc' (hc h)⟩

theorem noOutcome_claim (t : MessageTree) (n : MessageNode) (claimId : String) :
    NoOutcome t (t.claim n claimId).2 := by
  have hmark : NoOutcome t (t.update n.nodeId fun n => n.updateState .inProgress) := by
    intro id m hm
    simp only [update, MessageTreeGraph.getNode_updateNode] at hm
    split_ifs at hm
    · obtain ⟨k, hk, rfl⟩ := Option.map_eq_some_iff.mp hm
      exact ⟨k, by rwa [‹id = n.nodeId›], rfl, fun h => by cases h⟩
    · exact ⟨m, hm, rfl, fun h => h⟩
  unfold claim
  dsimp only
  split
  · exact hmark
  · exact hmark.trans (noOutcome_of_graph rfl)

theorem noOutcome_claimNext (rounds : ℕ) (h : NoOutcome t t') :
    NoOutcome t (claimNext rounds t' claimId).2 := by
  induction rounds generalizing t' with
  | zero => exact h
  | succ rounds ih =>
    unfold claimNext
    split
    · exact h
    · next popped q _ =>
      have hq : NoOutcome t { t' with queue := q } := h.trans (noOutcome_of_graph rfl)
      split_ifs
      · exact hq
      · dsimp only
        split
        · exact ih hq
        · next n _ =>
          split_ifs
          · have hc := hq.trans (noOutcome_claim { t' with queue := q } n claimId)
            split
            · next he =>
              rw [he] at hc
              exact hc
            · next he =>
              rw [he] at hc
              exact hc
          · exact ih hq

theorem noOutcome_finishAndClaimNext (t : MessageTree) (claimId nextClaimId : String) :
    NoOutcome t (t.finishAndClaimNext claimId nextClaimId).2 := by
  have h : NoOutcome t (claimNext t.queue.qsize { t with active := none } nextClaimId).2 :=
    noOutcome_claimNext t.queue.qsize (noOutcome_of_graph rfl)
  unfold finishAndClaimNext
  split_ifs
  · exact noOutcome_of_graph rfl
  · split
    · next he =>
      rw [he] at h
      exact h
    · next he =>
      rw [he] at h
      exact h

end MessageTree

namespace TreeOp

variable {t : MessageTree} {claimId : String}

/-- The claim ids an operation may draw. -/
def Draws (claimId : String) : TreeOp → Prop
  | addAndEnqueue _ _ _ _ _ _ drawn | enqueueOrClaim _ drawn | finishAndClaimNext _ drawn =>
    drawn = claimId
  | _ => False

/-- The operation presents a claim id. -/
def Presents (claimId : String) : TreeOp → Prop
  | finishAndClaimNext id _ | recordSession id _ | completeClaim id _ | failClaim id _ =>
    id = claimId
  | _ => False

/-- The cancellations that hit a node of a tree. -/
def Hits (t : MessageTree) (id : String) : TreeOp → Prop
  | cancelNode nodeId => nodeId = id
  | cancelAll => True
  | removeMessageSubtree ref _ => t.RemovalHits ref id
  | _ => False

/-- What any operation does to the active claim. -/
theorem keepsFlag_apply (t : MessageTree) (op : TreeOp) :
    MessageTree.KeepsFlag (fun id => op.Draws id) t (op.apply t) := by
  have mono : ∀ {p q : String → Prop} {u : MessageTree}, (∀ id, p id → q id) →
      MessageTree.KeepsFlag p t u → MessageTree.KeepsFlag q t u := fun hpq hk b hb =>
    (hk b hb).imp_left (hpq _)
  cases op with
  | addAndEnqueue id scope prompt status parent ref drawn =>
    simp only [apply, MessageTree.addAndEnqueue]
    split
    · exact MessageTree.keepsFlag_of_eq rfl
    · exact mono (fun _ => Eq.symm) (MessageTree.keepsFlag_enqueueOrClaim rfl)
  | enqueueOrClaim id drawn =>
    exact mono (fun _ => Eq.symm) (MessageTree.keepsFlag_enqueueOrClaim rfl)
  | finishAndClaimNext id drawn =>
    exact mono (fun _ => Eq.symm) MessageTree.keepsFlag_finishAndClaimNext
  | cancelNode id =>
    have h := t.cancelNode_active id
    rcases MessageTree.requestedIf_active h.symm with h | h
    · exact MessageTree.keepsFlag_of_eq h
    · exact MessageTree.keepsFlag_requestCancellation h
  | cancelAll => exact MessageTree.keepsFlag_requestCancellation t.cancelAll_active
  | removeMessageSubtree ref order =>
    rcases t.removeMessageSubtree_active ref order with h | h
    · exact MessageTree.keepsFlag_of_eq h
    · exact MessageTree.keepsFlag_requestCancellation h
  | recordSession id sessionId =>
    refine MessageTree.keepsFlag_of_eq ?_
    rcases t.recordSession_cases id sessionId with h | ⟨c, n, -, -, -, h⟩
    · simp only [apply, h]
    · simp only [apply, h, MessageTree.update]
  | completeClaim id sessionId =>
    refine MessageTree.keepsFlag_of_eq ?_
    rcases t.completeClaim_cases id sessionId with h | ⟨c, n, -, -, -, h⟩
    · simp only [apply, h]
    · simp only [apply, h, MessageTree.update]
  | failClaim id propagate =>
    refine MessageTree.keepsFlag_of_eq ?_
    simp only [apply, MessageTree.failClaim]
    split
    · rfl
    · split
      · rfl
      · next n _ =>
        have h := t.failNodes_active ‹NodeClaim›.node.nodeId n propagate
        split
        · next he =>
          rw [he] at h
          exact h
        · next he =>
          rw [he] at h
          exact h

/-- A cancellation that hits the node of the active claim buries the claim. -/
theorem buried_of_hits {op : TreeOp} {a : ActiveClaim} (hg : t.graph.WellFormed)
    (ha : t.active = some a) (hit : op.Hits t a.claim.node.nodeId) :
    (op.apply t).Buried a.claim.claimId := by
  have hrequested : ∀ u : MessageTree, u.active = t.requestCancellation.active →
      u.Buried a.claim.claimId := by
    intro u hu b hb _
    rw [hu] at hb
    obtain ⟨_, -, rfl⟩ := Option.map_eq_some_iff.mp hb
    rfl
  cases op with
  | cancelNode id =>
    refine hrequested _ ((t.cancelNode_active id).trans ?_)
    rw [if_pos (MessageTree.activeOn_iff.mpr ⟨a, ha, Eq.symm hit⟩)]
  | cancelAll => exact hrequested _ t.cancelAll_active
  | removeMessageSubtree ref order =>
    exact hrequested _ (MessageTree.removeMessageSubtree_flags hg order ha hit)
  | _ => exact hit.elim

theorem noOutcome_of_buried {op : TreeOp} (h : t.Buried claimId) (hp : op.Presents claimId) :
    MessageTree.NoOutcome t (op.apply t) := by
  cases op with
  | finishAndClaimNext id drawn => exact t.noOutcome_finishAndClaimNext id drawn
  | recordSession id sessionId =>
    cases hp
    simp only [apply, MessageTree.recordSession, h.openClaim]
    exact MessageTree.noOutcome_of_graph rfl
  | completeClaim id sessionId =>
    cases hp
    simp only [apply, MessageTree.completeClaim, h.openClaim]
    exact MessageTree.noOutcome_of_graph rfl
  | failClaim id propagate =>
    cases hp
    simp only [apply, MessageTree.failClaim, h.openClaim]
    exact MessageTree.noOutcome_of_graph rfl
  | _ => exact hp.elim

/-- An operation presenting a claim that is not active changes nothing. -/
theorem apply_stale {op : TreeOp} (h : ∀ a, t.active = some a → a.claim.claimId ≠ claimId)
    (hp : op.Presents claimId) : op.apply t = t := by
  have hopen : t.openClaim claimId = none :=
    MessageTree.Buried.openClaim fun a ha hid => absurd hid (h a ha)
  cases op with
  | finishAndClaimNext id drawn =>
    cases hp
    have hstale : t.active.map (·.claim.claimId) ≠ some claimId := by
      intro he
      obtain ⟨a, ha, hid⟩ := Option.map_eq_some_iff.mp he
      exact h a ha hid
    simp only [apply, MessageTree.finishAndClaimNext, if_pos hstale]
  | recordSession id sessionId =>
    cases hp
    simp only [apply, MessageTree.recordSession, hopen]
  | completeClaim id sessionId =>
    cases hp
    simp only [apply, MessageTree.completeClaim, hopen]
  | failClaim id propagate =>
    cases hp
    simp only [apply, MessageTree.failClaim, hopen]
  | _ => exact hp.elim

end TreeOp

/-- A claim that is buried stays so as long as its random id is not drawn again. -/
theorem buried_of_run {r r' : TreeRun} {later : List TreeOp} {claimId : String}
    (hrun : treeSystem.Run r later r') (hfresh : ∀ op ∈ later, ¬ op.Draws claimId)
    (h : r.tree.Buried claimId) : r'.tree.Buried claimId := by
  induction hrun with
  | nil => exact h
  | @cons r op _ later _ hst _ ih =>
    obtain ⟨-, rfl⟩ := hst
    refine ih (fun o ho => hfresh o (List.mem_cons_of_mem _ ho)) ?_
    exact h.keep (TreeOp.keepsFlag_apply r.tree op) (hfresh op List.mem_cons_self)

/-- Once a cancellation has hit the node of the active claim, no later operation that
presents the claim completes a node or records a session, as long as the random id is
not drawn again. An operation presenting a claim id that is not active changes nothing. -/
theorem cancellation_tombstone :
    (∀ (r : TreeRun) (a : ActiveClaim) (cancel : TreeOp) (later : List TreeOp) (r' : TreeRun)
        (op : TreeOp), treeSystem.Reachable r → r.tree.active = some a →
      cancel.Hits r.tree a.claim.node.nodeId → treeSystem.Run (r.next cancel) later r' →
      (∀ o ∈ later, ¬ o.Draws a.claim.claimId) → op.Presents a.claim.claimId →
      MessageTree.NoOutcome r'.tree (op.apply r'.tree)) ∧
    ∀ (t : MessageTree) (claimId : String) (op : TreeOp),
      (∀ a, t.active = some a → a.claim.claimId ≠ claimId) → op.Presents claimId →
      op.apply t = t := by
  constructor
  · intro r a cancel later r' op hr ha hit hrun hfresh hp
    have hg := (TreeRun.invariant_of_reachable hr).scheduled.graph
    have hburied := buried_of_run hrun hfresh (TreeOp.buried_of_hits hg ha hit)
    exact TreeOp.noOutcome_of_buried hburied hp
  · intro t claimId op h hp
    exact TreeOp.apply_stale h hp

/-- The claimed root is cancelled; then its runner reports success. -/
theorem cancellation_tombstone_sample :
    ∃ r a, r = TreeRun.next ⟨sampleTree, true, []⟩ (.enqueueOrClaim "10" "a") ∧
      r.tree.active = some a ∧
      MessageTree.NoOutcome (r.next (.cancelNode "10")).tree
        ((TreeOp.completeClaim "a" (some "s")).apply (r.next (.cancelNode "10")).tree) ∧
      (TreeOp.completeClaim "b" none).apply r.tree = r.tree := by
  have hr : treeSystem.Reachable (TreeRun.next ⟨sampleTree, true, []⟩ (.enqueueOrClaim "10" "a")) :=
    TreeRun.reachable_next (.start sampleTree_init) trivial
  refine ⟨_, _, rfl, rfl, ?_, ?_⟩
  · exact cancellation_tombstone.1 _ _ (.cancelNode "10") [] _ (.completeClaim "a" (some "s")) hr
      rfl rfl (.nil _) (by simp) rfl
  · refine cancellation_tombstone.2 _ "b" (.completeClaim "b" none) ?_ rfl
    intro a ha
    cases ha
    decide

end Switchboard.Messaging
