import Switchboard.Messaging.Repository
import Switchboard.Messaging.TreeRuns

/-!
# Runs of the tree manager

The manager starts empty or from a conversation snapshot and takes lock sections
one after the other. Each of them applies tree operations to published trees or
publishes a fresh tree whose root was just admitted, so every published tree is
in a state that a run of `treeSystem` reaches.
-/

namespace Switchboard.Messaging

/-- The lock sections of the manager that change its trees. -/
inductive ManagerOp where
  | admitMessage (scope : MessageScope) (nodeId prompt statusId : String)
      (parentReference : Option String) (claimId : String)
  | recordSession (claim : NodeClaim) (sessionId : String)
  | completeClaim (claim : NodeClaim) (sessionId : Option String)
  | failClaim (claim : NodeClaim) (propagate : Bool)
  | finishClaim (claim : NodeClaim) (nextClaimId : String)
  | cancelNode (scope : MessageScope) (ref : String)
  | cancelAll
  | clearScope (scope : MessageScope)
  | removeMessageSubtree (scope : MessageScope) (ref : String) (order : SetOrder)

namespace ManagerOp

open TreeQueueManager

/-- The repository a lock section leaves, whether it returns or raises. -/
def apply (r : TreeRepository) : ManagerOp → TreeRepository
  | admitMessage scope id prompt status parent claimId =>
    (TreeQueueManager.admitMessage r scope id prompt status parent claimId).2
  | recordSession claim sessionId => (TreeQueueManager.recordSession r claim sessionId).2
  | completeClaim claim sessionId => (TreeQueueManager.completeClaim r claim sessionId).2
  | failClaim claim propagate => (TreeQueueManager.failClaim r claim propagate).2
  | finishClaim claim next => (TreeQueueManager.finishClaim r claim next).2
  | cancelNode scope ref => (TreeQueueManager.cancelNode r scope ref).2
  | cancelAll => (TreeQueueManager.cancelAll r).2
  | clearScope scope => (TreeQueueManager.clearScope r scope).2
  | removeMessageSubtree scope ref order =>
    (TreeQueueManager.removeMessageSubtree r scope ref order).2

/-- Node ids are not empty. -/
def ProperId : ManagerOp → Prop
  | admitMessage _ id .. => id ≠ ""
  | _ => True

end ManagerOp

/-- The runs of the manager. -/
def managerSystem : System TreeRepository ManagerOp where
  init r := r = .empty ∨ ∃ s, r = (TreeRepository.fromSnapshot s).1
  step r op r' := op.ProperId ∧ r' = op.apply r

namespace TreeRepository

/-- Every published tree satisfies `P`. -/
def AllTrees (P : MessageTree → Prop) (r : TreeRepository) : Prop :=
  ∀ identity tree, r.getTree identity = some tree → P tree

variable {P : MessageTree → Prop} {r : TreeRepository} {identity : TreeIdentity}
  {tree : MessageTree}

theorem AllTrees.putTree (hr : AllTrees P r) (h : P tree) :
    AllTrees P (r.putTree identity tree) := by
  intro i t hi
  unfold TreeRepository.putTree getTree at hi
  simp only [Dict.get?_modify] at hi
  split_ifs at hi
  · obtain ⟨_, -, rfl⟩ := Option.map_eq_some_iff.mp hi
    exact h
  · exact hr i t hi

theorem AllTrees.removeTree (hr : AllTrees P r) : AllTrees P (r.removeTree identity) := by
  intro i t hi
  unfold TreeRepository.removeTree at hi
  split_ifs at hi
  · unfold getTree at hi
    simp only [Dict.get?_erase] at hi
    split_ifs at hi
    exact hr i t hi
  · exact hr i t hi

theorem AllTrees.registerNode {nodeId statusId : String} {r' : TreeRepository}
    (hr : AllTrees P r) (h : r.registerNode identity nodeId statusId = .ok r') :
    AllTrees P r' := by
  unfold TreeRepository.registerNode at h
  split_ifs at h
  cases h
  exact hr

theorem AllTrees.addTree {nodeId statusId : String} {r' : TreeRepository} (hr : AllTrees P r)
    (ht : P tree) (h : r.addTree tree nodeId statusId = .ok r') : AllTrees P r' := by
  unfold TreeRepository.addTree at h
  split_ifs at h
  cases hreg : r.registerNode tree.identity nodeId statusId with
  | error e =>
    rw [hreg] at h
    cases h
  | ok r1 =>
    rw [hreg] at h
    cases h
    intro i t hi
    unfold getTree at hi
    simp only [Dict.get?_set] at hi
    split_ifs at hi
    · cases hi
      exact ht
    · exact hr.registerNode hreg i t hi

theorem getTreeForReference_published {scope : MessageScope} {ref : String}
    (h : r.getTreeForReference scope ref = some (identity, tree)) :
    r.getTree identity = some tree := by
  unfold getTreeForReference at h
  obtain ⟨i, -, h⟩ := Option.bind_eq_some_iff.mp h
  obtain ⟨t, ht, h⟩ := Option.map_eq_some_iff.mp h
  cases h
  exact ht

theorem allTrees_fromSnapshot (hrestored : ∀ s t, MessageTree.fromSnapshot s = .ok t → P t)
    (s : ConversationSnapshot) : AllTrees P (fromSnapshot s).1 := by
  unfold fromSnapshot
  refine List.foldlRecOn
    (motive := fun st : TreeRepository × ConversationSnapshot × List NodeUiTarget =>
      AllTrees P st.1) _ _ ?_ ?_
  · intro i t hi
    cases hi
  · rintro ⟨repo, normalized, staleTargets⟩ hst snapshot _
    unfold restoreTree
    split
    · exact hst
    · next tree htree =>
      simp only
      split_ifs
      · exact hst
      · intro i t hi
        unfold getTree at hi
        simp only [Dict.get?_set] at hi
        split_ifs at hi
        · cases hi
          exact hrestored _ _ htree
        · exact hst i t hi

end TreeRepository

namespace ManagerOp

open TreeRepository

variable {P : MessageTree → Prop} {r : TreeRepository}

/-- What lets `P` hold of all published trees: fresh trees satisfy it once their
root is admitted, and the tree operations of this lock section keep it. -/
structure Keeps (P : MessageTree → Prop) (r : TreeRepository) (op : ManagerOp) : Prop where
  fresh : ∀ root tree claimId, MessageTreeGraph.RootNode root → root.state = .pending →
    root.statusMessageId.isSome → MessageTree.new root = .ok tree →
    P (tree.enqueueOrClaim root.nodeId claimId).2
  step : ∀ tree top, P tree → TreeOp.ProperId top →
    (∀ ref order, top = .removeMessageSubtree ref order → ∃ scope identity,
      op = .removeMessageSubtree scope ref order ∧
        r.getTreeForReference scope ref = some (identity, tree)) →
    P (top.apply tree)

/-- The step lemma for published trees. -/
theorem Keeps.apply {op : ManagerOp} (hk : Keeps P r op) (hr : AllTrees P r)
    (hop : op.ProperId) : AllTrees P (op.apply r) := by
  have hstep : ∀ {tree} top, P tree → TreeOp.ProperId top →
      (∀ ref order, top ≠ .removeMessageSubtree ref order) → P (top.apply tree) :=
    fun top ht hp hne => hk.step _ top ht hp fun ref order h => absurd h (hne ref order)
  have hcancel : ∀ (s : TreeQueueManager.Sweep) (i : TreeIdentity), AllTrees P s.repository →
      AllTrees P (TreeQueueManager.cancelTree s i).2.repository := by
    intro s i hs
    unfold TreeQueueManager.cancelTree
    cases hi : s.repository.getTree i with
    | none => exact hs
    | some tree =>
      have hkept : P tree.cancelAll.2 :=
        hstep .cancelAll (hs i tree hi) trivial (fun _ _ h => nomatch h)
      simp only
      split
      · next h =>
        rw [h] at hkept
        exact hs.putTree hkept
      · next h =>
        rw [h] at hkept
        exact hs.putTree hkept
  cases op with
  | admitMessage scope id prompt status parent claimId =>
    simp only [ManagerOp.apply, TreeQueueManager.admitMessage]
    split
    · next identity tree hdup =>
      have hpub : r.getTree identity = some tree := by
        unfold TreeQueueManager.duplicateTree at hdup
        split at hdup
        · next h =>
          cases hdup
          exact getTreeForReference_published h
        · exact getTreeForReference_published hdup
      exact hr.putTree
        (hstep (.enqueueOrClaim id claimId) (hr _ _ hpub) trivial (fun _ _ h => nomatch h))
    · split
      · next ref =>
        split
        · exact hr
        · next identity tree htree =>
          split
          · exact hr
          · next parent _ =>
            have hput : AllTrees P (r.putTree identity (tree.addAndEnqueue id scope prompt status
                parent.nodeId parent.referenceId claimId).2) :=
              hr.putTree (hstep (.addAndEnqueue id scope prompt status parent.nodeId
                parent.referenceId claimId) (hr _ _ (getTreeForReference_published htree)) hop
                (fun _ _ h => nomatch h))
            unfold TreeQueueManager.onTree
            split
            · next h =>
              obtain ⟨-, rfl⟩ := Prod.mk.inj h
              exact hput
            · next h =>
              obtain ⟨-, rfl⟩ := Prod.mk.inj h
              split
              · exact hput
              · next hreg => exact hput.registerNode hreg
      · split
        · exact hr
        · next tree hnew =>
          have hfresh := hk.fresh
            { nodeId := id, scope := scope, prompt := prompt, statusMessageId := some status }
            tree claimId ⟨hop, ⟨rfl, rfl⟩, rfl⟩ rfl rfl hnew
          split
          · exact hr
          · next h =>
            rw [h] at hfresh
            split
            · exact hr
            · next hadd => exact hr.addTree hfresh hadd
  | recordSession claim sessionId =>
    simp only [ManagerOp.apply, TreeQueueManager.recordSession]
    split
    · exact hr
    · next tree ht =>
      exact hr.putTree (hstep (.recordSession claim.claimId sessionId) (hr _ _ ht) trivial
        (fun _ _ h => nomatch h))
  | completeClaim claim sessionId =>
    simp only [ManagerOp.apply, TreeQueueManager.completeClaim]
    split
    · exact hr
    · next tree ht =>
      exact hr.putTree (hstep (.completeClaim claim.claimId sessionId) (hr _ _ ht) trivial
        (fun _ _ h => nomatch h))
  | failClaim claim propagate =>
    simp only [ManagerOp.apply, TreeQueueManager.failClaim]
    split
    · exact hr
    · next tree ht =>
      exact hr.putTree (hstep (.failClaim claim.claimId propagate) (hr _ _ ht) trivial
        (fun _ _ h => nomatch h))
  | finishClaim claim next =>
    simp only [ManagerOp.apply, TreeQueueManager.finishClaim]
    split
    · exact hr
    · next tree ht =>
      exact hr.putTree (hstep (.finishAndClaimNext claim.claimId next) (hr _ _ ht) trivial
        (fun _ _ h => nomatch h))
  | cancelNode scope ref =>
    simp only [ManagerOp.apply, TreeQueueManager.cancelNode]
    split
    · exact hr
    · next identity tree ht =>
      split
      · exact hr
      · next target _ =>
        exact hr.putTree (hstep (.cancelNode target.nodeId)
          (hr _ _ (getTreeForReference_published ht)) trivial (fun _ _ h => nomatch h))
  | cancelAll =>
    have hloop := raisingLoop_preserves (P := fun s => AllTrees P s.repository)
      (f := TreeQueueManager.cancelTree) (l := r.trees.keys) (fun c _ s hs => hcancel s c hs)
      (s := { repository := r }) hr
    simp only [ManagerOp.apply, TreeQueueManager.cancelAll]
    split
    · next h =>
      rw [h] at hloop
      exact hloop
    · next h =>
      rw [h] at hloop
      exact hloop
  | clearScope scope =>
    have hloop := raisingLoop_preserves (P := fun s => AllTrees P s.repository)
      (f := TreeQueueManager.clearTree) (l := r.trees.keys.filter fun i => i.scope = scope)
      (fun c _ s hs => by
        have hc := hcancel s c hs
        unfold TreeQueueManager.clearTree
        split
        · next h =>
          rw [h] at hc
          exact hc
        · next h =>
          rw [h] at hc
          exact hc.removeTree) (s := { repository := r }) hr
    simp only [ManagerOp.apply, TreeQueueManager.clearScope]
    split
    · next h =>
      rw [h] at hloop
      exact hloop
    · next h =>
      rw [h] at hloop
      exact hloop
  | removeMessageSubtree scope ref order =>
    simp only [ManagerOp.apply, TreeQueueManager.removeMessageSubtree]
    split
    · exact hr
    · next identity tree ht =>
      split
      · exact hr
      · next target htarget =>
        have href : target.referenceId = ref := by
          unfold MessageTree.resolveReply at htarget
          obtain ⟨_, -, rfl⟩ := Option.map_eq_some_iff.mp htarget
          rfl
        have hkept := hk.step tree (.removeMessageSubtree ref order)
          (hr _ _ (getTreeForReference_published ht)) trivial (by
            intro ref' order' h
            cases h
            exact ⟨scope, identity, rfl, ht⟩)
        rw [href]
        split
        · next h =>
          rw [TreeOp.apply, h] at hkept
          exact hr.putTree hkept
        · next h =>
          rw [TreeOp.apply, h] at hkept
          split_ifs
          · exact (hr.putTree hkept).removeTree
          · exact hr.putTree hkept

end ManagerOp

end Switchboard.Messaging
