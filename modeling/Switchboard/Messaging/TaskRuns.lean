import Switchboard.Messaging.TaskCorrespondence
import Switchboard.Messaging.CancellationSafety

/-!
# Runs of the processor

Every step keeps the invariant of the processor. A claim that has a slot always has a
step of its own that brings it nearer to the removal of the slot, and no other step takes
it further away. `wait_idle` returns without a slot unless an admission comes between
the event and the call that waits for it.
-/

namespace Switchboard.Messaging

namespace MessageTree

variable {t t' : MessageTree} {id claimId : String} {d : QueueDecision} {c : NodeClaim}

/-- The claim of a decision is the active one, under the id drawn for it. -/
theorem claim_of_enqueueOrClaim (h : t.enqueueOrClaim id claimId = (.ok d, t'))
    (hc : d.claim = some c) : t'.active = some { claim := c } ∧ c.claimId = claimId := by
  unfold enqueueOrClaim at h
  split at h
  · cases h
    cases hc
  · next n _ =>
    split_ifs at h
    · cases h
      cases hc
    · split at h
      · unfold claim at h
        dsimp only at h
        split at h
        · next he =>
          split at he
          · cases h
          · cases he
        · next he =>
          split at he
          · cases he
          · cases he
            cases h
            cases hc
            exact ⟨rfl, rfl⟩
      · split at h
        · cases h
          cases hc
        · cases h
          cases hc

theorem claim_of_addAndEnqueue {scope : MessageScope} {prompt status parent ref : String}
    (h : t.addAndEnqueue id scope prompt status parent ref claimId = (.ok d, t'))
    (hc : d.claim = some c) : t'.active = some { claim := c } ∧ c.claimId = claimId := by
  unfold addAndEnqueue at h
  split at h
  · cases h
  · exact claim_of_enqueueOrClaim h hc

end MessageTree

namespace ProcessorState

variable {s s' : ProcessorState} {key : String} {slot : TaskSlot} {tree tree' : MessageTree}
  {j : ℕ}

/-! ## The steps keep the invariant -/

theorem Sound.task (h : s.Sound none) (key : String) (st : TaskStep) :
    (s.task key st).Sound none := by
  refine h.updateSlot fun slot hslot => ?_
  obtain ⟨hsound, hkeeps, -⟩ := (h.slots hslot (by simp)).step st
  exact ⟨hkeeps, fun _ => hsound⟩

theorem Sound.cancel (h : s.Sound none) (claim : NodeClaim) (reason : Option CancellationReason) :
    (s.cancel claim reason).Sound none := by
  unfold ProcessorState.cancel
  split_ifs
  · refine h.updateSlot fun slot hslot => ?_
    obtain ⟨hsound, hkeeps, -⟩ := (h.slots hslot (by simp)).cancel reason
    exact ⟨hkeeps, fun _ => hsound⟩
  · exact h

theorem Sound.cancelActive (h : s.Sound none) (result : Except Fault TreeCancellation)
    (reason : Option CancellationReason) : (s.cancelActive result reason).Sound none := by
  unfold ProcessorState.cancelActive
  split
  · exact h
  · split
    · exact h
    · exact h.cancel _ reason

/-- A claim that an admission may launch. -/
def Launchable (s : ProcessorState) (j : ℕ) (claim : NodeClaim) : Prop :=
  (∃ tree, s.trees[j]? = some tree ∧ tree.active.map (·.claim) = some claim) ∧
    claim.claimId ∉ s.launched

theorem Sound.launchAdmitted (h : s.Sound none) {d : QueueDecision}
    (hd : ∀ claim, d.claim = some claim → s.Launchable j claim) :
    (s.launchAdmitted j d).Sound none := by
  unfold ProcessorState.launchAdmitted
  cases hc : d.claim with
  | none => exact h
  | some claim =>
    obtain ⟨⟨tree, htree, hactive⟩, hfresh⟩ := hd claim hc
    obtain ⟨s', hs', hsound, -⟩ := h.launch htree hactive hfresh false []
    dsimp only
    rw [hs']
    exact hsound

/-- An operation that releases no claim, on a tree object. -/
theorem Sound.setApply (h : s.Sound none) (htree : s.trees[j]? = some tree) {op : TreeOp}
    (hop : op.ProperId) (hrel : ∀ claimId, ¬ op.Releases claimId) :
    { s with trees := s.trees.set j (op.apply tree) }.Sound none := by
  have hadmitted := h.admitted tree (List.mem_of_getElem? htree)
  refine h.setTree (hadmitted.apply hop fun _ _ => trivial) ?_
  intro key slot hget hkey _ hj
  obtain ⟨t, ht, hactive⟩ := h.holds hget hkey (by simp)
  rw [hj, htree] at ht
  cases ht
  obtain ⟨waiting, hs⟩ := hadmitted.scheduled
  obtain ⟨a, ha, hclaim⟩ := Option.map_eq_some_iff.mp hactive
  obtain ⟨b, hb, hba⟩ :=
    (TreeOp.apply_carries hs hop fun a _ => hrel a.claim.claimId).2.active ha
  rw [hb, Option.map_some, hba, hclaim]

theorem Sound.admitRoot (h : s.Sound none) (scope : MessageScope) {nodeId : String}
    (prompt statusId : String) {claimId : String} (hid : nodeId ≠ "")
    (hunused : claimId ∉ s.launched) :
    (s.admitRoot scope nodeId prompt statusId claimId).Sound none := by
  unfold ProcessorState.admitRoot
  split
  · exact h
  · next tree hnew =>
    have hroot : MessageTreeGraph.RootNode
        { nodeId := nodeId, scope := scope, prompt := prompt
          statusMessageId := some statusId } := ⟨hid, ⟨rfl, rfl⟩, rfl⟩
    have hadmitted : Admitted (fun _ _ => True) (tree.enqueueOrClaim nodeId claimId).2 :=
      admitted_fresh hroot rfl rfl hnew fun _ => trivial
    split
    · exact h
    · next d tree' he =>
      rw [he] at hadmitted
      refine (h.addTree hadmitted _).launchAdmitted fun claim hclaim => ?_
      obtain ⟨hactive, hdrawn⟩ := MessageTree.claim_of_enqueueOrClaim he hclaim
      exact ⟨⟨tree', by simp, by rw [hactive]; rfl⟩, hdrawn ▸ hunused⟩

theorem Sound.onTree (h : s.Sound none) (j : ℕ) {op : TreeOp} (reason : Option CancellationReason)
    (hop : op.ProperId) (hunused : ∀ claimId, op.Draws claimId → claimId ∉ s.launched) :
    (s.onTree j op reason).Sound none := by
  unfold ProcessorState.onTree
  split
  · exact h
  · next tree htree =>
    by_cases hpublished : j ∉ s.published
    · rw [if_pos hpublished]
      exact h
    · rw [if_neg hpublished]
      have hset := fun hrel : ∀ claimId, ¬ op.Releases claimId => h.setApply htree hop hrel
      cases op with
      | addAndEnqueue nodeId scope prompt status parent ref claimId =>
        have hadded := hset fun _ => id
        dsimp only
        cases hd : (tree.addAndEnqueue nodeId scope prompt status parent ref claimId).1 with
        | error e => exact hadded
        | ok d =>
          refine hadded.launchAdmitted fun claim hclaim => ?_
          obtain ⟨hactive, hdrawn⟩ :=
            MessageTree.claim_of_addAndEnqueue (Prod.ext hd rfl) hclaim
          refine ⟨⟨_, List.getElem?_set_self (List.getElem?_eq_some_iff.mp htree).1, ?_⟩,
            hunused _ hdrawn.symm⟩
          simp only [TreeOp.apply, hactive]
          rfl
      | cancelNode nodeId => exact (hset fun _ => id).cancelActive _ reason
      | cancelAll => exact (hset fun _ => id).cancelActive _ reason
      | removeMessageSubtree ref order => exact (hset fun _ => id).cancelActive _ reason
      | finishAndClaimNext => exact h
      | _ => exact hset fun _ => id

theorem Sound.returnWait (h : s.Sound none) : s.returnWait.Sound none :=
  ⟨h.admitted, h.keyed, h.slots, h.holds, h.launched, h.launchedOnce, h.tasksOnce,
    h.tasksLaunched, h.finished, h.finishedOnce, rfl, h.idle, h.attached⟩

/-- The step lemma of the invariant. -/
theorem Sound.apply (h : s.Sound none) {op : ProcessorOp} (hop : op.Proper s) :
    (op.apply s).Sound none := by
  have hcounters : ∀ (published : List ℕ) (waiting woken : ℕ),
      { s with published := published, waiting := waiting, woken := woken }.Sound none :=
    fun _ _ _ => ⟨h.admitted, h.keyed, h.slots, h.holds, h.launched, h.launchedOnce, h.tasksOnce,
      h.tasksLaunched, h.finished, h.finishedOnce, h.failures, h.idle, h.attached⟩
  cases op with
  | admitRoot scope nodeId prompt statusId claimId =>
    exact h.admitRoot scope prompt statusId hop.1 hop.2.1
  | onTree j op reason => exact h.onTree j reason hop.1 fun claimId hd => (hop.2 claimId hd).1
  | detach j => exact hcounters _ s.waiting s.woken
  | task key st => exact h.task key st
  | finish key byRecovery nextClaimId => exact h.finish key byRecovery hop.1
  | waitIdle =>
    unfold ProcessorOp.apply ProcessorState.waitIdle
    dsimp only
    split_ifs
    · exact h.returnWait
    · exact hcounters s.published (s.waiting + 1) s.woken
  | resumeWait =>
    unfold ProcessorOp.apply ProcessorState.resumeWait
    dsimp only
    split_ifs
    · exact h
    · exact (hcounters s.published s.waiting (s.woken - 1)).returnWait

theorem sound_init (hs : processorSystem.init s) : s.Sound none := by
  obtain ⟨trees, htrees, rfl⟩ := hs
  refine ⟨?_, (fun h => nomatch h), (fun h => nomatch h), (fun h => nomatch h), ?_,
    List.nodup_nil, List.nodup_nil, (fun h => nomatch h), ?_, List.nodup_nil, rfl,
    iff_of_true rfl rfl, (fun h => nomatch h)⟩
  · intro tree htree
    obtain ⟨snapshot, hsnapshot⟩ := htrees tree htree
    exact admitted_restored hsnapshot
  · intro key
    exact iff_of_false List.not_mem_nil fun ⟨_, h⟩ => nomatch h
  · intro key
    exact iff_of_false List.not_mem_nil fun h => List.not_mem_nil h.1

/-- The run lemma. -/
theorem sound_of_reachable (hs : processorSystem.Reachable s) : s.Sound none :=
  hs.invariant (P := fun s => s.Sound none) (fun _ => sound_init)
    fun _ _ _ _ h hstep => hstep.2 ▸ h.apply hstep.1

/-! ## What a step does to the other claims -/

/-- A bound for the steps of a claim before its slot is removed. -/
def rank (s : ProcessorState) (key : String) : ℕ :=
  match s.objects.get? key with
  | none => 0
  | some slot => if key ∈ s.tasks then slot.rank else 0

theorem rank_eq_zero (hkey : key ∉ s.tasks) : s.rank key = 0 := by
  unfold rank
  split
  · rfl
  · exact if_neg hkey

theorem rank_of_slot (hget : s.objects.get? key = some slot) (hkey : key ∈ s.tasks) :
    s.rank key = slot.rank := by
  unfold rank
  simp only [hget, hkey, if_true]

theorem Sound.hasSlot (h : s.Sound none) (hkey : key ∈ s.tasks) :
    ∃ slot, s.objects.get? key = some slot ∧ slot.Sound true := by
  obtain ⟨slot, hget⟩ := h.launched.mp (h.tasksLaunched hkey)
  have hslot := h.slots hget (by simp)
  rw [decide_eq_true hkey] at hslot
  exact ⟨slot, hget, hslot⟩

theorem rank_congr (hobjects : s'.objects.get? key = s.objects.get? key)
    (htasks : key ∈ s'.tasks ↔ key ∈ s.tasks) : s'.rank key = s.rank key := by
  unfold rank
  simp only [hobjects, htasks]

/-- What every step but a finish does to launches, finishes and bounds. -/
structure Frame (s s' : ProcessorState) : Prop where
  finished : s'.finished = s.finished
  launched : ∀ key ∈ s.launched, key ∈ s'.launched
  rank : ∀ key ∈ s.launched, s'.rank key ≤ s.rank key

theorem frame_of_eq (hobjects : s'.objects = s.objects) (htasks : s'.tasks = s.tasks)
    (hfinished : s'.finished = s.finished) (hlaunched : s'.launched = s.launched) : s.Frame s' where
  finished := hfinished
  launched := fun key hkey => hlaunched ▸ hkey
  rank := fun key _ => (rank_congr (by rw [hobjects]) (by rw [htasks])).le

theorem Frame.trans {s'' : ProcessorState} (h : s.Frame s') (h' : s'.Frame s'') : s.Frame s'' where
  finished := h'.finished.trans h.finished
  launched := fun key hkey => h'.launched key (h.launched key hkey)
  rank := fun key hkey => (h'.rank key (h.launched key hkey)).trans (h.rank key hkey)

theorem frame_launchAdmitted {d : QueueDecision}
    (hd : ∀ claim, d.claim = some claim → claim.claimId ∉ s.launched) :
    s.Frame (s.launchAdmitted j d) := by
  unfold launchAdmitted
  cases hc : d.claim with
  | none => exact frame_of_eq rfl rfl rfl rfl
  | some claim =>
    have hfresh := hd claim hc
    dsimp only
    unfold launch
    split_ifs
    · exact frame_of_eq rfl rfl rfl rfl
    · refine ⟨rfl, fun key hkey => List.mem_append_left _ hkey, fun key hkey => ?_⟩
      have hne : key ≠ claim.claimId := fun he => hfresh (he ▸ hkey)
      exact (rank_congr (Dict.get?_set_of_ne _ _ hne) (by simp [hne])).le

theorem frame_updateSlot {f : TaskSlot → TaskSlot}
    (hf : ∀ slot, s.objects.get? key = some slot → key ∈ s.tasks → (f slot).rank ≤ slot.rank) :
    s.Frame (s.updateSlot key f) := by
  refine ⟨rfl, fun _ => id, fun k _ => ?_⟩
  by_cases hk : k = key
  · subst hk
    by_cases hmem : k ∈ s.tasks
    · cases hget : s.objects.get? k with
      | none =>
        have hget' : (s.updateSlot k f).objects.get? k = s.objects.get? k := by
          unfold updateSlot
          rw [Dict.get?_modify_self, hget]
          rfl
        exact (rank_congr hget' Iff.rfl).le
      | some slot =>
        have hget' : (s.updateSlot k f).objects.get? k = some (f slot) := by
          unfold updateSlot
          rw [Dict.get?_modify_self, hget]
          rfl
        rw [rank_of_slot hget hmem, rank_of_slot hget' hmem]
        exact hf slot hget hmem
    · have hzero : (s.updateSlot k f).rank k = 0 := rank_eq_zero hmem
      rw [hzero]
      exact Nat.zero_le _
  · have hget' : (s.updateSlot key f).objects.get? k = s.objects.get? k :=
      Dict.get?_modify_of_ne _ _ hk
    exact (rank_congr hget' Iff.rfl).le

theorem Sound.frame_task (h : s.Sound none) (key : String) (st : TaskStep) :
    s.Frame (s.task key st) := by
  refine frame_updateSlot fun slot hget hkey => ?_
  have hslot := h.slots hget (by simp)
  rcases (hslot.step st).2.2 (decide_eq_true hkey) with hsame | hlower
  · rw [hsame]
  · exact hlower.le

theorem Sound.frame_cancel (h : s.Sound none) (claim : NodeClaim)
    (reason : Option CancellationReason) : s.Frame (s.cancel claim reason) := by
  unfold ProcessorState.cancel
  split_ifs
  · exact frame_updateSlot fun slot hget _ => ((h.slots hget (by simp)).cancel reason).2.2
  · exact frame_of_eq rfl rfl rfl rfl

theorem Sound.frame_cancelActive (h : s.Sound none) (result : Except Fault TreeCancellation)
    (reason : Option CancellationReason) : s.Frame (s.cancelActive result reason) := by
  unfold ProcessorState.cancelActive
  split
  · exact frame_of_eq rfl rfl rfl rfl
  · split
    · exact frame_of_eq rfl rfl rfl rfl
    · exact h.frame_cancel _ reason

theorem frame_admitRoot (scope : MessageScope) (nodeId prompt statusId : String) {claimId : String}
    (hunused : claimId ∉ s.launched) :
    s.Frame (s.admitRoot scope nodeId prompt statusId claimId) := by
  unfold admitRoot
  split
  · exact frame_of_eq rfl rfl rfl rfl
  · split
    · exact frame_of_eq rfl rfl rfl rfl
    · next d tree' he =>
      have hadded : s.Frame
          { s with trees := s.trees ++ [tree'], published := s.published ++ [s.trees.length] } :=
        frame_of_eq rfl rfl rfl rfl
      refine hadded.trans (frame_launchAdmitted fun claim hclaim => ?_)
      rw [(MessageTree.claim_of_enqueueOrClaim he hclaim).2]
      exact hunused

theorem Sound.frame_onTree (h : s.Sound none) (j : ℕ) {op : TreeOp}
    (reason : Option CancellationReason) (hop : op.ProperId)
    (hunused : ∀ claimId, op.Draws claimId → claimId ∉ s.launched) :
    s.Frame (s.onTree j op reason) := by
  unfold ProcessorState.onTree
  split
  · exact frame_of_eq rfl rfl rfl rfl
  · next tree htree =>
    by_cases hpublished : j ∉ s.published
    · rw [if_pos hpublished]
      exact frame_of_eq rfl rfl rfl rfl
    · rw [if_neg hpublished]
      have hset : s.Frame { s with trees := s.trees.set j (op.apply tree) } :=
        frame_of_eq rfl rfl rfl rfl
      have hcancels := fun (hrel : ∀ claimId, ¬ op.Releases claimId)
          (result : Except Fault TreeCancellation) =>
        hset.trans ((h.setApply htree hop hrel).frame_cancelActive result reason)
      cases op with
      | addAndEnqueue nodeId scope prompt status parent ref claimId =>
        dsimp only
        cases hd : (tree.addAndEnqueue nodeId scope prompt status parent ref claimId).1 with
        | error e => exact hset
        | ok d =>
          refine hset.trans (frame_launchAdmitted fun claim hclaim => ?_)
          exact hunused _ (MessageTree.claim_of_addAndEnqueue (Prod.ext hd rfl) hclaim).2.symm
      | cancelNode nodeId => exact hcancels (fun _ => id) _
      | cancelAll => exact hcancels (fun _ => id) _
      | removeMessageSubtree ref order => exact hcancels (fun _ => id) _
      | finishAndClaimNext => exact frame_of_eq rfl rfl rfl rfl
      | _ => exact hset

end ProcessorState

/-- The step is one of the task of the claim, its callback or its recovery. -/
def ProcessorOp.Own (key : String) : ProcessorOp → Prop
  | task k _ | finish k _ _ => k = key
  | _ => False

namespace ProcessorState

variable {s s' : ProcessorState} {key : String} {slot : TaskSlot} {tree tree' : MessageTree}
  {j : ℕ}

theorem Sound.frame_apply (h : s.Sound none) {op : ProcessorOp} (hop : op.Proper s)
    (hfinish : ∀ k b n, op ≠ .finish k b n) : s.Frame (op.apply s) := by
  cases op with
  | admitRoot scope nodeId prompt statusId claimId =>
    exact frame_admitRoot scope nodeId prompt statusId hop.2.1
  | onTree j op reason => exact h.frame_onTree j reason hop.1 fun claimId hd => (hop.2 claimId hd).1
  | detach j => exact frame_of_eq rfl rfl rfl rfl
  | task key st => exact h.frame_task key st
  | finish k b n => exact absurd rfl (hfinish k b n)
  | waitIdle =>
    unfold ProcessorOp.apply ProcessorState.waitIdle
    dsimp only
    split_ifs <;> exact frame_of_eq rfl rfl rfl rfl
  | resumeWait =>
    unfold ProcessorOp.apply ProcessorState.resumeWait
    dsimp only
    split_ifs <;> exact frame_of_eq rfl rfl rfl rfl

/-- What the removal of a slot leaves alone. -/
structure Removes (s : ProcessorState) (key : String) (s' : ProcessorState) : Prop where
  tasks : s'.tasks = s.tasks.erase key
  objects : s'.objects = s.objects
  launched : s'.launched = s.launched
  finished : s'.finished = s.finished
  waits : s'.waits = s.waits
  woken : s'.woken ≠ s.woken → s'.tasks = []

theorem removeSlot_spec (s : ProcessorState) (key : String) : s.Removes key (s.removeSlot key) := by
  unfold removeSlot
  dsimp only
  split_ifs with hnil
  · exact ⟨rfl, rfl, rfl, rfl, rfl, fun _ => hnil⟩
  · exact ⟨rfl, rfl, rfl, rfl, rfl, fun hne => absurd rfl hne⟩

/-- A finish leaves the other claims alone, and ends the bound of its own. -/
theorem rank_finish {k : String} {b : Bool} (hout : s.FinishOutcome k b s')
    (hkey : key ∈ s.launched) : s'.rank key ≤ s.rank key := by
  cases hout with
  | notDue => exact le_rfl
  | @finishes s' f slot hget hk hf hkeeps hsound =>
    obtain ⟨htasks, hobjects, -⟩ := (s'.updateSlot k f).removeSlot_spec k
    by_cases he : key = k
    · subst he
      rw [rank_eq_zero]
      · exact Nat.zero_le _
      · rw [htasks]
        exact hf.sound.tasksOnce.not_mem_erase
    · refine (rank_congr ?_ ?_).le
      · rw [hobjects]
        exact (Dict.get?_modify_of_ne _ _ he).trans (hf.slots key hkey)
      · rw [htasks, List.mem_erase_of_ne he]
        exact hf.tasks key hkey

/-- The step lemma of the bound. -/
theorem Sound.rank_apply (h : s.Sound none) {op : ProcessorOp} (hop : op.Proper s)
    (hkey : key ∈ s.launched) : (op.apply s).rank key ≤ s.rank key := by
  by_cases hfinish : ∃ k b n, op = .finish k b n
  · obtain ⟨k, b, n, rfl⟩ := hfinish
    exact rank_finish (h.finish_cases k b hop.1) hkey
  · push Not at hfinish
    exact (h.frame_apply hop hfinish).rank key hkey

theorem Sound.launched_apply (h : s.Sound none) {op : ProcessorOp} (hop : op.Proper s)
    (hkey : key ∈ s.launched) : key ∈ (op.apply s).launched := by
  by_cases hfinish : ∃ k b n, op = .finish k b n
  · obtain ⟨k, b, n, rfl⟩ := hfinish
    have hout := h.finish_cases k b hop.1
    simp only [ProcessorOp.apply]
    generalize s.finish k b n = t at hout
    cases hout with
    | notDue => exact hkey
    | finishes _ _ hf _ _ =>
      rw [(ProcessorState.removeSlot_spec _ k).launched]
      exact hf.launched key hkey
  · push Not at hfinish
    exact (h.frame_apply hop hfinish).launched key hkey

theorem Sound.rank_pos (h : s.Sound none) (hkey : key ∈ s.tasks) : 0 < s.rank key := by
  obtain ⟨slot, hget, hslot⟩ := h.hasSlot hkey
  rw [rank_of_slot hget hkey]
  exact hslot.inCharge rfl

theorem FinishOutcome.rank {b : Bool} (hout : s.FinishOutcome key b s') :
    s' = s ∧ (∀ slot, s.objects.get? key = some slot → ¬ FinishDue slot b) ∨ s'.rank key = 0 := by
  cases hout with
  | notDue hdue => exact Or.inl ⟨rfl, hdue⟩
  | @finishes s' f slot hget hk hf hkeeps hsound =>
    refine Or.inr (rank_eq_zero ?_)
    rw [((s'.updateSlot key f).removeSlot_spec key).tasks]
    exact hf.sound.tasksOnce.not_mem_erase

theorem get?_task (hget : s.objects.get? key = some slot) (hkey : key ∈ s.tasks) (st : TaskStep) :
    (s.task key st).objects.get? key = some (slot.step true st) := by
  unfold task updateSlot
  rw [Dict.get?_modify_self, hget, decide_eq_true hkey]
  rfl

/-- A step of the claim that does something lowers its bound. -/
theorem Sound.rank_own (h : s.Sound none) {op : ProcessorOp} (hop : op.Proper s)
    (hkey : key ∈ s.tasks) (hown : op.Own key)
    (hacts : (op.apply s).objects.get? key ≠ s.objects.get? key) :
    (op.apply s).rank key < s.rank key := by
  obtain ⟨slot, hget, hslot⟩ := h.hasSlot hkey
  cases op with
  | task k st =>
    obtain rfl : k = key := hown
    have hget' := get?_task hget hkey st
    have hmem : k ∈ (s.task k st).tasks := hkey
    have hrank := rank_of_slot hget' hmem
    simp only [ProcessorOp.apply] at hacts ⊢
    rw [hrank, rank_of_slot hget hkey]
    refine ((hslot.step st).2.2 rfl).resolve_left fun hsame => hacts ?_
    rw [hget', hsame, hget]
  | finish k b n =>
    obtain rfl : k = key := hown
    have hout := h.finish_cases k b hop.1
    rcases hout.rank with ⟨hsame, -⟩ | hzero
    · exact absurd (by simp only [ProcessorOp.apply, hsame]) hacts
    · simp only [ProcessorOp.apply, hzero]
      exact h.rank_pos hkey
  | _ => exact hown.elim

/-- A claim that has a slot always has a step of its own that does something. -/
theorem Sound.due (h : s.Sound none) (hkey : key ∈ s.tasks) {nextClaimId : String}
    (hunused : s.Unused nextClaimId) :
    ∃ op : ProcessorOp, op.Own key ∧ op.Proper s ∧
      (op.apply s).objects.get? key ≠ s.objects.get? key := by
  obtain ⟨slot, hget, hslot⟩ := h.hasSlot hkey
  have hfinish : ∀ b, FinishDue slot b → ∃ op : ProcessorOp, op.Own key ∧ op.Proper s ∧
      (op.apply s).objects.get? key ≠ s.objects.get? key := by
    intro b hdue
    refine ⟨.finish key b nextClaimId, rfl, hunused, ?_⟩
    have hout := h.finish_cases key b hunused.1
    simp only [ProcessorOp.apply]
    generalize s.finish key b nextClaimId = t at hout
    cases hout with
    | notDue hnot => exact absurd hdue (hnot slot hget)
    | @finishes s' f slot' hget' _ hf _ hsound =>
      rw [hget] at hget'
      cases hget'
      have hafter : ((s'.updateSlot key f).removeSlot key).objects.get? key = some (f slot) := by
        rw [((s'.updateSlot key f).removeSlot_spec key).objects]
        unfold ProcessorState.updateSlot
        rw [Dict.get?_modify_self, hf.get? h hkey, hget]
        rfl
      rw [hafter, hget]
      intro he
      have htransitioned := hsound.transitioned
      rw [Option.some.inj he, hslot.transitioned] at htransitioned
      cases htransitioned
  by_cases hphase : slot.phase = .finishing
  · exact hfinish false hphase
  · by_cases hrecovery : slot.recovery = .finishing
    · exact hfinish true hrecovery
    · obtain ⟨st, hst⟩ := hslot.step_due hphase hrecovery
      refine ⟨.task key st, rfl, trivial, ?_⟩
      simp only [ProcessorOp.apply]
      rw [get?_task hget hkey st, hget]
      intro he
      rw [Option.some.inj he] at hst
      exact lt_irrefl _ hst

/-! ## Successors -/

/-- The successor that a finish chose on a published tree was launched. -/
def Continued (s : ProcessorState) : Prop :=
  ∀ f ∈ s.finished, f.published = true → ∀ next, f.next = some next → next ∈ s.launched

theorem Continued.apply (hc : s.Continued) (h : s.Sound none) {op : ProcessorOp}
    (hop : op.Proper s) : (op.apply s).Continued := by
  have hkeep : (op.apply s).finished = s.finished → (op.apply s).Continued := by
    intro hfinished f hf hpublished next hnext
    rw [hfinished] at hf
    exact h.launched_apply hop (hc f hf hpublished next hnext)
  by_cases hfinish : ∃ k b n, op = .finish k b n
  · obtain ⟨k, b, n, rfl⟩ := hfinish
    have hout := h.finish_cases k b hop.1
    simp only [ProcessorOp.apply] at hkeep ⊢
    generalize s.finish k b n = t at hkeep hout
    cases hout with
    | notDue => exact hc
    | @finishes s' f slot hget hk hf hkeeps hsound =>
      obtain ⟨record, hrecord, hnext⟩ := hf.record
      have hspec := (s'.updateSlot k f).removeSlot_spec k
      intro g hg hpublished next hgnext
      rw [hspec.launched]
      rw [hspec.finished] at hg
      replace hg : g ∈ s.finished ++ [record] := hrecord ▸ hg
      rcases List.mem_append.mp hg with hg | hg
      · exact hf.launched next (hc g hg hpublished next hgnext)
      · rw [List.mem_singleton.mp hg] at hpublished hgnext
        exact hnext hpublished next hgnext
  · push Not at hfinish
    exact hkeep (h.frame_apply hop hfinish).finished

theorem continued_of_reachable (hs : processorSystem.Reachable s) : s.Continued := by
  refine hs.invariant (P := Continued) ?_ ?_
  · rintro s ⟨trees, -, rfl⟩ f hf
    cases hf
  · rintro s op _ hr hc ⟨hop, rfl⟩
    exact hc.apply (sound_of_reachable hr) hop

end ProcessorState

/-! ## Waiting -/

/-- The claim that an admission launches. -/
def ProcessorOp.admits (s : ProcessorState) : ProcessorOp → Option NodeClaim
  | admitRoot scope nodeId prompt statusId claimId =>
    match MessageTree.new
        { nodeId := nodeId, scope := scope, prompt := prompt, statusMessageId := some statusId } with
    | .error _ => none
    | .ok tree => match (tree.enqueueOrClaim nodeId claimId).1 with
      | .error _ => none
      | .ok decision => decision.claim
  | onTree j (.addAndEnqueue id scope prompt status parent ref claimId) _ =>
    match s.trees[j]? with
    | none => none
    | some tree =>
      if j ∈ s.published then
        match (tree.addAndEnqueue id scope prompt status parent ref claimId).1 with
        | .error _ => none
        | .ok decision => decision.claim
      else none
  | _ => none

/-- While a call of `wait_idle` that the event has woken has not gone on, no admission
launches a claim. -/
def QuietWake (s : ProcessorState) (op : ProcessorOp) : Prop :=
  s.woken ≠ 0 → op.admits s = none

namespace ProcessorState

variable {s s' : ProcessorState} {key : String} {j : ℕ}

/-- What `wait_idle` may rely on. -/
structure Quiet (s : ProcessorState) : Prop where
  woken : s.woken ≠ 0 → s.tasks = []
  waits : ∀ n ∈ s.waits, n = 0

/-- The table of tasks and the waiting calls are as before. -/
structure Stays (s s' : ProcessorState) : Prop where
  tasks : s'.tasks = s.tasks
  woken : s'.woken = s.woken
  waits : s'.waits = s.waits

theorem Stays.quiet (h : s.Stays s') (hq : s.Quiet) : s'.Quiet where
  woken := by
    rw [h.woken, h.tasks]
    exact hq.woken
  waits := by
    rw [h.waits]
    exact hq.waits

theorem stays_cancelActive (result : Except Fault TreeCancellation)
    (reason : Option CancellationReason) : s.Stays (s.cancelActive result reason) := by
  unfold cancelActive
  split
  · exact ⟨rfl, rfl, rfl⟩
  · split
    · exact ⟨rfl, rfl, rfl⟩
    · unfold cancel
      split_ifs <;> exact ⟨rfl, rfl, rfl⟩

/-- What an admission does to the waiting calls. -/
structure AdmitsStep (s : ProcessorState) (admitted : Option NodeClaim) (s' : ProcessorState) :
    Prop where
  woken : s'.woken = s.woken
  waits : s'.waits = s.waits
  quiet : admitted = none → s'.tasks = s.tasks

theorem launchAdmitted_step (d : QueueDecision) :
    s.AdmitsStep d.claim (s.launchAdmitted j d) := by
  unfold launchAdmitted
  cases d.claim with
  | none => exact ⟨rfl, rfl, fun _ => rfl⟩
  | some claim =>
    dsimp only
    unfold launch
    split_ifs
    · exact ⟨rfl, rfl, fun h => nomatch h⟩
    · exact ⟨rfl, rfl, fun h => nomatch h⟩

theorem AdmitsStep.quiet_of {admitted : Option NodeClaim} (h : s.AdmitsStep admitted s')
    (hq : s.Quiet) (hwake : s.woken ≠ 0 → admitted = none) : s'.Quiet where
  woken := by
    rw [h.woken]
    intro hne
    rw [h.quiet (hwake hne)]
    exact hq.woken hne
  waits := by
    rw [h.waits]
    exact hq.waits

theorem Quiet.admitRoot (hq : s.Quiet) {scope : MessageScope}
    {nodeId prompt statusId claimId : String}
    (hwake : QuietWake s (.admitRoot scope nodeId prompt statusId claimId)) :
    (s.admitRoot scope nodeId prompt statusId claimId).Quiet := by
  unfold ProcessorState.admitRoot
  split
  · exact hq
  · next tree hnew =>
    simp only [QuietWake, ProcessorOp.admits, hnew] at hwake
    split
    · exact hq
    · next d tree' he =>
      simp only [he] at hwake
      exact AdmitsStep.quiet_of (launchAdmitted_step d)
        (Stays.quiet (s := s) ⟨rfl, rfl, rfl⟩ hq) hwake

theorem Quiet.onTree (hq : s.Quiet) {j : ℕ} {op : TreeOp} {reason : Option CancellationReason}
    (hwake : QuietWake s (.onTree j op reason)) : (s.onTree j op reason).Quiet := by
  unfold ProcessorState.onTree
  split
  · exact hq
  · next tree htree =>
    by_cases hpublished : j ∉ s.published
    · rw [if_pos hpublished]
      exact hq
    · rw [if_neg hpublished]
      have hset : Quiet { s with trees := s.trees.set j (op.apply tree) } :=
        Stays.quiet (s := s) ⟨rfl, rfl, rfl⟩ hq
      cases op with
      | addAndEnqueue nodeId scope prompt status parent ref claimId =>
        dsimp only
        simp only [QuietWake, ProcessorOp.admits, htree, not_not.mp hpublished, if_true] at hwake
        cases hd : (tree.addAndEnqueue nodeId scope prompt status parent ref claimId).1 with
        | error e => exact hset
        | ok d =>
          rw [hd] at hwake
          exact AdmitsStep.quiet_of (launchAdmitted_step d) hset hwake
      | cancelNode nodeId => exact (stays_cancelActive _ reason).quiet hset
      | cancelAll => exact (stays_cancelActive _ reason).quiet hset
      | removeMessageSubtree ref order => exact (stays_cancelActive _ reason).quiet hset
      | finishAndClaimNext => exact hq
      | _ => exact hset

theorem Quiet.finish (hq : s.Quiet) {b : Bool} (hout : s.FinishOutcome key b s') : s'.Quiet := by
  cases hout with
  | notDue => exact hq
  | @finishes s' f slot hget hkey hf hkeeps hsound =>
    have hspec := (s'.updateSlot key f).removeSlot_spec key
    -- a claim has a slot, so no call has been woken
    have hwoken : s.woken = 0 := by
      by_contra hne
      rw [hq.woken hne] at hkey
      cases hkey
    refine ⟨fun hne => hspec.woken fun hsame => hne ?_, ?_⟩
    · rw [hsame]
      exact hf.waits.2.trans hwoken
    · rw [hspec.waits]
      exact hf.waits.1 ▸ hq.waits

theorem Quiet.returnWait (hq : s.Quiet) (hnil : s.tasks = []) : s.returnWait.Quiet where
  woken := fun _ => hnil
  waits := by
    intro n hn
    rcases List.mem_append.mp hn with hn | hn
    · exact hq.waits n hn
    · rw [List.mem_singleton.mp hn, hnil]
      rfl

theorem Quiet.apply (hq : s.Quiet) (h : s.Sound none) {op : ProcessorOp} (hop : op.Proper s)
    (hwake : QuietWake s op) : (op.apply s).Quiet := by
  cases op with
  | admitRoot scope nodeId prompt statusId claimId => exact hq.admitRoot hwake
  | onTree j op reason => exact hq.onTree hwake
  | detach j => exact Stays.quiet (s := s) ⟨rfl, rfl, rfl⟩ hq
  | task key st => exact Stays.quiet (s := s) ⟨rfl, rfl, rfl⟩ hq
  | finish k b n => exact hq.finish (h.finish_cases k b hop.1)
  | waitIdle =>
    unfold ProcessorOp.apply ProcessorState.waitIdle
    dsimp only
    split_ifs with hidle
    · exact hq.returnWait (h.idle.mp hidle)
    · exact Stays.quiet (s := s) ⟨rfl, rfl, rfl⟩ hq
  | resumeWait =>
    unfold ProcessorOp.apply ProcessorState.resumeWait
    dsimp only
    split_ifs with hzero
    · exact hq
    · have hless : Quiet { s with woken := s.woken - 1 } := ⟨fun _ => hq.woken hzero, hq.waits⟩
      exact hless.returnWait (hq.woken hzero)

theorem quiet_of_reach (hs : processorSystem.Reach QuietWake s) : s.Quiet := by
  refine hs.invariant (P := Quiet) ?_ ?_
  · rintro s ⟨trees, -, rfl⟩
    exact ⟨fun hne => absurd rfl hne, fun n hn => nomatch hn⟩
  · rintro s op _ hr hq hwake ⟨hop, rfl⟩
    exact hq.apply (sound_of_reachable hr.reachable) hop hwake

/-! ## Task and claim correspondence -/

/-- A claim has its slot, or its finish transition had its effect, once. -/
structure Corresponds (s : ProcessorState) : Prop where
  launchedOnce : s.launched.Nodup
  finishedOnce : (s.finished.map (·.claimId)).Nodup
  attached : ∀ key ∈ s.tasks, key ∈ s.launched
  finished : ∀ key, key ∈ s.finished.map (·.claimId) ↔ key ∈ s.launched ∧ key ∉ s.tasks
  continued : s.Continued
  failures : s.completionFailures = []

theorem corresponds_of_reachable (hs : processorSystem.Reachable s) : s.Corresponds := by
  have h := sound_of_reachable hs
  refine ⟨h.launchedOnce, h.finishedOnce, fun key => h.tasksLaunched, fun key => ?_,
    continued_of_reachable hs, h.failures⟩
  rw [h.finished]
  simp [Gone]

/-- In an endless run, the claim takes a step with effect again and again while it has a slot. -/
def Scheduled (states : ℕ → ProcessorState) (ops : ℕ → ProcessorOp) (key : String) : Prop :=
  ∀ n, key ∈ (states n).tasks → ∃ m, n ≤ m ∧ (ops m).Own key ∧
    (states (m + 1)).objects.get? key ≠ (states m).objects.get? key

theorem slot_removed {states : ℕ → ProcessorState} {ops : ℕ → ProcessorOp}
    (h0 : processorSystem.Reachable (states 0)) (hrun : processorSystem.Endless states ops)
    (hfair : Scheduled states ops key) {n : ℕ} (hkey : key ∈ (states n).launched) :
    ∃ m, n ≤ m ∧ key ∉ (states m).tasks := by
  have hsound := fun n => sound_of_reachable (hrun.reachable h0 n)
  have hlaunched : ∀ k, key ∈ (states (n + k)).launched := by
    intro k
    induction k with
    | zero => exact hkey
    | succ k ih =>
      have hnext := (hsound (n + k)).launched_apply (hrun (n + k)).1 ih
      rw [← (hrun (n + k)).2] at hnext
      exact hnext
  have hbounded : ∀ k, (states (n + (k + 1))).rank key ≤ (states (n + k)).rank key := by
    intro k
    have hle := (hsound (n + k)).rank_apply (hrun (n + k)).1 (hlaunched k)
    rw [← (hrun (n + k)).2] at hle
    exact hle
  let later : ℕ → ProcessorState := fun k => states (n + k)
  have heventually : ∃ k, 0 ≤ k ∧ key ∉ (later k).tasks := by
    refine System.eventually_of_rank (P := fun s : ProcessorState => key ∉ s.tasks)
      (fun s : ProcessorState => s.rank key) ?_ ?_ 0
    · intro k _ _
      exact hbounded k
    · intro k hk
      obtain ⟨m, hm, hown, hacts⟩ := hfair (n + k) (not_not.mp hk)
      obtain ⟨l, rfl⟩ := Nat.exists_eq_add_of_le (show n ≤ m by omega)
      refine ⟨l, by omega, ?_⟩
      by_cases hmem : key ∈ (states (n + l)).tasks
      · refine Or.inr ?_
        have hlt := (hsound (n + l)).rank_own (hrun (n + l)).1 hmem hown
        rw [← (hrun (n + l)).2] at hlt
        exact hlt hacts
      · refine Or.inl fun hin => ?_
        have hpos := (hsound (n + (l + 1))).rank_pos hin
        have hzero := rank_eq_zero hmem
        have := hbounded l
        omega
  obtain ⟨k, -, hk⟩ := heventually
  exact ⟨n + k, Nat.le_add_right n k, hk⟩

theorem Sound.launchAdmitted_waits (h : s.Sound none) {d : QueueDecision} {claim : NodeClaim}
    (hc : d.claim = some claim) (hlaunchable : s.Launchable j claim) (hwoken : s.woken ≠ 0) :
    ∃ n ∈ (s.launchAdmitted j d).resumeWait.waits, n ≠ 0 := by
  obtain ⟨⟨tree, htree, hactive⟩, hfresh⟩ := hlaunchable
  obtain ⟨s', hs', -, htasks, -, -, hwaits, -⟩ := h.launch htree hactive hfresh false []
  unfold ProcessorState.launchAdmitted
  simp only [hc, hs']
  unfold ProcessorState.resumeWait
  rw [if_neg (by rw [hwaits.2]; exact hwoken)]
  refine ⟨s'.tasks.length, List.mem_append_right _ (List.mem_singleton_self _), ?_⟩
  rw [htasks]
  simp

/-- An admission that launches a claim after the event makes the woken call return too early. -/
theorem Sound.early_return (h : s.Sound none) {op : ProcessorOp} (hop : op.Proper s)
    (hwoken : s.woken ≠ 0) (hadmits : op.admits s ≠ none) :
    ∃ n ∈ (op.apply s).resumeWait.waits, n ≠ 0 := by
  cases op with
  | admitRoot scope nodeId prompt statusId claimId =>
    change ∃ n ∈ (s.admitRoot scope nodeId prompt statusId claimId).resumeWait.waits, n ≠ 0
    unfold ProcessorState.admitRoot
    split
    · next hnew =>
      simp only [ProcessorOp.admits, hnew] at hadmits
      exact absurd rfl hadmits
    · next tree hnew =>
      simp only [ProcessorOp.admits, hnew] at hadmits
      have hroot : MessageTreeGraph.RootNode
          { nodeId := nodeId, scope := scope, prompt := prompt
            statusMessageId := some statusId } := ⟨hop.1, ⟨rfl, rfl⟩, rfl⟩
      have hadmitted : Admitted (fun _ _ => True) (tree.enqueueOrClaim nodeId claimId).2 :=
        admitted_fresh hroot rfl rfl hnew fun _ => trivial
      split
      · next he =>
        simp only [he] at hadmits
        exact absurd rfl hadmits
      · next d tree' he =>
        simp only [he] at hadmits hadmitted
        obtain ⟨claim, hclaim⟩ := Option.ne_none_iff_exists'.mp hadmits
        obtain ⟨hactive, hdrawn⟩ := MessageTree.claim_of_enqueueOrClaim he hclaim
        exact (h.addTree hadmitted _).launchAdmitted_waits hclaim
          ⟨⟨tree', by simp, by rw [hactive]; rfl⟩, hdrawn ▸ hop.2.1⟩ hwoken
  | onTree j op reason =>
    cases op with
    | addAndEnqueue nodeId scope prompt status parent ref claimId =>
      simp only [ProcessorOp.admits] at hadmits
      simp only [ProcessorOp.apply, ProcessorState.onTree]
      cases htree : s.trees[j]? with
      | none =>
        rw [htree] at hadmits
        exact absurd rfl hadmits
      | some tree =>
        simp only [htree] at hadmits
        by_cases hpublished : j ∈ s.published
        · simp only [hpublished, if_true] at hadmits
          simp only [hpublished, not_true, if_false]
          cases hd : (tree.addAndEnqueue nodeId scope prompt status parent ref claimId).1 with
          | error e =>
            rw [hd] at hadmits
            exact absurd rfl hadmits
          | ok d =>
            simp only [hd] at hadmits
            obtain ⟨claim, hclaim⟩ := Option.ne_none_iff_exists'.mp hadmits
            obtain ⟨hactive, hdrawn⟩ :=
              MessageTree.claim_of_addAndEnqueue (Prod.ext hd rfl) hclaim
            refine (h.setApply htree hop.1 fun _ => id).launchAdmitted_waits hclaim
              ⟨⟨_, List.getElem?_set_self (List.getElem?_eq_some_iff.mp htree).1, ?_⟩,
                (hop.2 _ hdrawn.symm).1⟩ hwoken
            simp only [TreeOp.apply, hactive]
            rfl
        · simp only [hpublished, if_false] at hadmits
          exact absurd rfl hadmits
    | _ => exact absurd rfl hadmits
  | _ => exact absurd rfl hadmits

end ProcessorState

/-- Each launched claim has its slot or was finished once, while it has its slot it has
steps of its own that lead to the removal, and successors on published trees are launched.
`wait_idle` returns without a slot if no admission launches a claim between the event and
the call that it wakes; one that does makes that call return with a slot. -/
theorem task_correspondence {s : ProcessorState} (hs : processorSystem.Reachable s) :
    s.Corresponds ∧
      (∀ key ∈ s.tasks, ∀ nextClaimId, s.Unused nextClaimId → ∃ op : ProcessorOp,
        op.Own key ∧ op.Proper s ∧ (op.apply s).objects.get? key ≠ s.objects.get? key) ∧
      (∀ states ops key n, states 0 = s → processorSystem.Endless states ops →
        ProcessorState.Scheduled states ops key → key ∈ (states n).launched →
        ∃ m, n ≤ m ∧ key ∉ (states m).tasks) ∧
      (processorSystem.Reach QuietWake s → ∀ n ∈ s.waits, n = 0) ∧
      ∀ op : ProcessorOp, op.Proper s → s.woken ≠ 0 → op.admits s ≠ none →
        ∃ n ∈ (op.apply s).resumeWait.waits, n ≠ 0 := by
  have h := ProcessorState.sound_of_reachable hs
  refine ⟨ProcessorState.corresponds_of_reachable hs, fun key hkey _ hunused => h.due hkey hunused,
    ?_, fun hquiet => (ProcessorState.quiet_of_reach hquiet).waits,
    fun op hop hwoken hadmits => h.early_return hop hwoken hadmits⟩
  intro states ops key n h0 hrun hfair hkey
  exact ProcessorState.slot_removed (h0 ▸ hs) hrun hfair hkey

section Example

/-- A claim is launched, a call of `wait_idle` waits, and the claim is finished. -/
def finishedProcessor : ProcessorState :=
  ([.admitRoot ⟨"telegram", "7"⟩ "10" "hello" "11" "a", .task "a" .begin, .task "a" (.leave false),
    .waitIdle, .finish "a" false "b"] : List ProcessorOp).foldl (fun s op => op.apply s) {}

theorem reach_apply {s : ProcessorState} (hs : processorSystem.Reach QuietWake s)
    (op : ProcessorOp) (hquiet : QuietWake s op) (hop : op.Proper s) :
    processorSystem.Reach QuietWake (op.apply s) :=
  hs.next hquiet ⟨hop, rfl⟩

theorem finishedProcessor_reach : processorSystem.Reach QuietWake finishedProcessor := by
  have h0 : processorSystem.Reach QuietWake {} := .start ⟨[], by simp, rfl⟩
  have h1 := reach_apply h0 (.admitRoot ⟨"telegram", "7"⟩ "10" "hello" "11" "a")
    (fun hne => absurd rfl hne) (And.intro (by decide) (by decide))
  have h2 := reach_apply h1 (.task "a" .begin) (fun _ => rfl) trivial
  have h3 := reach_apply h2 (.task "a" (.leave false)) (fun _ => rfl) trivial
  have h4 := reach_apply h3 .waitIdle (fun _ => rfl) trivial
  exact reach_apply h4 (.finish "a" false "b") (fun _ => rfl)
    (show ProcessorState.Unused _ "b" by decide)

/-- The admission of a second root, between the event and the call that waits for it. -/
def lateAdmission : ProcessorOp := .admitRoot ⟨"telegram", "7"⟩ "20" "hello" "21" "c"

theorem lateAdmission_proper : lateAdmission.Proper finishedProcessor :=
  And.intro (by decide) (by decide)

theorem wait_returns_early : ∃ s, processorSystem.Reachable s ∧ s.waits = [1] := by
  have h1 := finishedProcessor_reach.reachable.next ⟨lateAdmission_proper, rfl⟩
  exact ⟨_, h1.next (l := .resumeWait) ⟨trivial, rfl⟩, by decide⟩

theorem task_correspondence_sample :
    (finishedProcessor.finished.map (·.claimId)).Nodup ∧
      ∃ n ∈ (lateAdmission.apply finishedProcessor).resumeWait.waits, n ≠ 0 :=
  have h := task_correspondence finishedProcessor_reach.reachable
  ⟨h.1.finishedOnce, h.2.2.2.2 lateAdmission lateAdmission_proper (by decide) (by decide)⟩

end Example

end Switchboard.Messaging
