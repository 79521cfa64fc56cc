import Switchboard.Messaging.Processor

/-!
# Tasks and claims

Every claim that was launched either has a slot, whose own steps lead to its removal,
or was finished exactly once. `wait_idle` may return with a slot that was made after
the event had woken it.
-/

namespace Switchboard.Messaging

/-! ## Slots -/

namespace TaskSlot

variable {slot : TaskSlot} {attached : Bool}

/-- A bound for the steps that the task, its callback and its recovery take before the
slot is removed. It is zero when nothing is left that could remove it. -/
def rank (slot : TaskSlot) : ℕ :=
  match slot.phase with
  | .created => 6
  | .announcing => 4
  | .running => 3
  | .failing => 2
  | .finishing => 1
  | .done => match slot.recovery with
    | .none => if slot.doneCallback then 0 else 5
    | .waiting => if slot.doneCallback then 3 else 4
    | .finishing => if slot.doneCallback then 1 else 2
    | .done => 0

/-- The invariant of a slot. -/
structure Sound (slot : TaskSlot) (attached : Bool) : Prop where
  transitioned : slot.transitioned = !attached
  entered : slot.phase ≠ .done → attached = true ∧ slot.doneCallback = false ∧
    (slot.recovery = .none ∨ slot.recovery = .waiting)
  recovering : slot.recovery = .finishing → attached = true
  inCharge : attached = true → 0 < slot.rank

/-- What the steps of a slot leave alone. -/
structure Keeps (slot slot' : TaskSlot) : Prop where
  tree : slot'.tree = slot.tree
  claim : slot'.claim = slot.claim

theorem Keeps.refl (slot : TaskSlot) : slot.Keeps slot := ⟨rfl, rfl⟩

/-- A task that goes on within its body. -/
theorem Sound.goesOn (h : slot.Sound attached) (hphase : slot.phase ≠ .done) (phase : TaskPhase)
    (hnew : phase ≠ .done) (b : Bool) :
    { slot with phase := phase, runnerStarted := b }.Sound attached := by
  refine ⟨h.transitioned, fun _ => h.entered hphase, h.recovering, fun _ => ?_⟩
  cases phase with
  | done => exact absurd rfl hnew
  | _ => exact Nat.succ_pos _

theorem Sound.leaveBody_eq (h : slot.Sound attached) (hphase : slot.phase ≠ .done) :
    slot.leaveBody = { slot with phase := .finishing } := by
  have hattached := (h.entered hphase).1
  have htransitioned : slot.transitioned = false := by rw [h.transitioned, hattached]; rfl
  unfold TaskSlot.leaveBody
  rw [htransitioned]
  rfl

theorem Sound.leaveBody (h : slot.Sound attached) (hphase : slot.phase ≠ .done) :
    slot.leaveBody.Sound attached ∧ slot.Keeps slot.leaveBody ∧ slot.leaveBody.rank = 1 := by
  rw [h.leaveBody_eq hphase]
  exact ⟨h.goesOn hphase .finishing (by simp) slot.runnerStarted, ⟨rfl, rfl⟩, rfl⟩

theorem Sound.enterRunner (h : slot.Sound attached) (hphase : slot.phase ≠ .done) :
    slot.enterRunner.Sound attached ∧ slot.Keeps slot.enterRunner ∧
      slot.enterRunner.rank ≤ 3 := by
  unfold TaskSlot.enterRunner
  split_ifs
  · obtain ⟨hsound, hkeeps, hrank⟩ := h.leaveBody hphase
    exact ⟨hsound, hkeeps, by omega⟩
  · exact ⟨h.goesOn hphase .running (by simp) true, ⟨rfl, rfl⟩, le_rfl⟩

theorem Sound.begin (h : slot.Sound attached) (hphase : slot.phase = .created) :
    slot.begin.Sound attached ∧ slot.Keeps slot.begin ∧ slot.begin.rank < 6 := by
  have hne : slot.phase ≠ .done := by rw [hphase]; simp
  obtain ⟨hattached, hcallback, hrecovery⟩ := h.entered hne
  unfold TaskSlot.begin
  split_ifs
  · refine ⟨⟨h.transitioned, fun hdone => absurd rfl hdone, h.recovering, fun _ => ?_⟩,
      ⟨rfl, rfl⟩, ?_⟩
    · rcases hrecovery with hr | hr <;> simp [rank, hr, hcallback]
    · rcases hrecovery with hr | hr <;> simp [rank, hr, hcallback]
  · exact ⟨h.goesOn hne .announcing (by simp) slot.runnerStarted, ⟨rfl, rfl⟩, by simp [rank]⟩
  · obtain ⟨hsound, hkeeps, hrank⟩ := h.enterRunner hne
    exact ⟨hsound, hkeeps, by omega⟩

theorem Sound.taskDone (h : slot.Sound attached) (hphase : slot.phase = .done)
    (hcallback : slot.doneCallback = false) :
    (slot.taskDone attached).Sound attached ∧ slot.Keeps (slot.taskDone attached) ∧
      (attached = true → (slot.taskDone attached).rank < slot.rank) := by
  unfold TaskSlot.taskDone
  cases attached with
  | false =>
    refine ⟨⟨h.transitioned, fun hdone => absurd hphase hdone, ?_, by simp⟩, ⟨rfl, rfl⟩, by simp⟩
    simpa using h.recovering
  | true =>
    have htransitioned := h.transitioned
    have hcharge := h.inCharge rfl
    simp only [rank, hphase, hcallback] at hcharge
    simp only [Bool.not_true] at htransitioned
    cases hr : slot.recovery <;> simp only [hr] at hcharge
    · refine ⟨⟨h.transitioned, fun hdone => absurd hphase hdone, by simp, ?_⟩, ⟨rfl, rfl⟩, ?_⟩ <;>
        simp [rank, hphase, hr, htransitioned, hcallback]
    · refine ⟨⟨h.transitioned, fun hdone => absurd hphase hdone, by simp, ?_⟩, ⟨rfl, rfl⟩, ?_⟩ <;>
        simp [rank, hphase, hr, hcallback]
    · refine ⟨⟨h.transitioned, fun hdone => absurd hphase hdone, by simp, ?_⟩, ⟨rfl, rfl⟩, ?_⟩ <;>
        simp [rank, hphase, hr, hcallback]
    · simp at hcharge

theorem Sound.recover (h : slot.Sound attached) (hphase : slot.phase = .done)
    (hr : slot.recovery = .waiting) {recovery : RecoveryPhase}
    (hrecovery : recovery = if slot.transitioned then .done else .finishing) :
    { slot with recovery := recovery }.Sound attached ∧
      (attached = true → { slot with recovery := recovery }.rank < slot.rank) := by
  have htransitioned := h.transitioned
  cases attached with
  | false =>
    rw [htransitioned] at hrecovery
    subst hrecovery
    exact ⟨⟨h.transitioned, fun hdone => absurd hphase hdone, by simp, by simp⟩, by simp⟩
  | true =>
    rw [htransitioned] at hrecovery
    subst hrecovery
    refine ⟨⟨h.transitioned, fun hdone => absurd hphase hdone, by simp, fun _ => ?_⟩, fun _ => ?_⟩
    · simp only [rank, hphase, Bool.not_true, Bool.false_eq_true, if_false]
      split_ifs <;> simp
    · simp only [rank, hphase, hr, Bool.not_true, Bool.false_eq_true, if_false]
      split_ifs <;> simp

/-- The step lemma of a slot: a step that does something lowers the bound. -/
theorem Sound.step (h : slot.Sound attached) (st : TaskStep) :
    (slot.step attached st).Sound attached ∧ slot.Keeps (slot.step attached st) ∧
      (attached = true → slot.step attached st = slot ∨
        (slot.step attached st).rank < slot.rank) := by
  have hsame : slot.Sound attached ∧ slot.Keeps slot ∧
      (attached = true → slot = slot ∨ slot.rank < slot.rank) :=
    ⟨h, .refl slot, fun _ => Or.inl rfl⟩
  have hlower : ∀ {slot' : TaskSlot} {n : ℕ}, slot.rank = n →
      slot'.Sound attached ∧ slot.Keeps slot' ∧ slot'.rank < n →
      slot'.Sound attached ∧ slot.Keeps slot' ∧
        (attached = true → slot' = slot ∨ slot'.rank < slot.rank) :=
    fun hn h' => ⟨h'.1, h'.2.1, fun _ => Or.inr (hn ▸ h'.2.2)⟩
  have hleave : slot.phase ≠ .done → 2 ≤ slot.rank →
      slot.leaveBody.Sound attached ∧ slot.Keeps slot.leaveBody ∧
        (attached = true → slot.leaveBody = slot ∨ slot.leaveBody.rank < slot.rank) := by
    intro hphase hn
    obtain ⟨hsound, hkeeps, hrank⟩ := h.leaveBody hphase
    exact hlower rfl ⟨hsound, hkeeps, by omega⟩
  cases st with
  | begin =>
    simp only [TaskSlot.step]
    split_ifs with hphase
    · exact hlower (by simp [rank, hphase]) (h.begin hphase)
    · exact hsame
  | announced cancelled =>
    simp only [TaskSlot.step]
    split_ifs with hphase hcancelled
    · exact hleave (by simp [hphase]) (by simp [rank, hphase])
    · obtain ⟨hsound, hkeeps, hrank⟩ := h.enterRunner (by simp [hphase])
      exact hlower (n := 4) (by simp [rank, hphase]) ⟨hsound, hkeeps, by omega⟩
    · exact hsame
  | leave failed =>
    simp only [TaskSlot.step]
    split_ifs with hphase hfailed
    · exact hlower (n := 3) (by simp [rank, hphase])
        ⟨h.goesOn (by simp [hphase]) .failing (by simp) slot.runnerStarted, ⟨rfl, rfl⟩,
          by simp [rank]⟩
    · exact hleave (by simp [hphase]) (by simp [rank, hphase])
    · exact hsame
  | failureHandled =>
    simp only [TaskSlot.step]
    split_ifs with hphase
    · exact hleave (by simp [hphase]) (by simp [rank, hphase])
    · exact hsame
  | taskDone =>
    simp only [TaskSlot.step]
    split_ifs with hdue
    · obtain ⟨hsound, hkeeps, hrank⟩ := h.taskDone hdue.1 hdue.2
      exact ⟨hsound, hkeeps, fun ha => Or.inr (hrank ha)⟩
    · exact hsame
  | recover =>
    simp only [TaskSlot.step]
    split_ifs with hdue
    · obtain ⟨hsound, hrank⟩ := h.recover hdue.1 hdue.2 (by simp [*] : RecoveryPhase.done = _)
      exact ⟨hsound, ⟨rfl, rfl⟩, fun ha => Or.inr (hrank ha)⟩
    · obtain ⟨hsound, hrank⟩ := h.recover hdue.1 hdue.2 (by simp [*] : RecoveryPhase.finishing = _)
      exact ⟨hsound, ⟨rfl, rfl⟩, fun ha => Or.inr (hrank ha)⟩
    · exact hsame

/-- A slot that is not being finished has a step that lowers its bound. -/
theorem Sound.step_due (h : slot.Sound true) (hphase : slot.phase ≠ .finishing)
    (hrecovery : slot.recovery ≠ .finishing) :
    ∃ st, (slot.step true st).rank < slot.rank := by
  cases hp : slot.phase with
  | created =>
    refine ⟨.begin, ?_⟩
    rw [TaskSlot.step, if_pos hp, show slot.rank = 6 by simp [rank, hp]]
    exact (h.begin hp).2.2
  | announcing =>
    refine ⟨.announced true, ?_⟩
    rw [TaskSlot.step, if_pos hp, if_pos rfl, (h.leaveBody (by simp [hp])).2.2]
    simp [rank, hp]
  | running =>
    refine ⟨.leave false, ?_⟩
    rw [TaskSlot.step, if_pos hp, if_neg (by simp), (h.leaveBody (by simp [hp])).2.2]
    simp [rank, hp]
  | failing =>
    refine ⟨.failureHandled, ?_⟩
    rw [TaskSlot.step, if_pos hp, (h.leaveBody (by simp [hp])).2.2]
    simp [rank, hp]
  | finishing => exact absurd hp hphase
  | done =>
    have hcharge := h.inCharge rfl
    cases hr : slot.recovery with
    | none =>
      have hcallback : slot.doneCallback = false := by
        cases hc : slot.doneCallback with
        | false => rfl
        | true => simp [rank, hp, hr, hc] at hcharge
      refine ⟨.taskDone, ?_⟩
      rw [TaskSlot.step, if_pos ⟨hp, hcallback⟩]
      exact (h.taskDone hp hcallback).2.2 rfl
    | waiting =>
      refine ⟨.recover, ?_⟩
      rw [TaskSlot.step, if_pos ⟨hp, hr⟩]
      exact (h.recover hp hr rfl).2 rfl
    | finishing => exact absurd hr hrecovery
    | done => simp [rank, hp, hr] at hcharge

theorem Sound.cancel (h : slot.Sound attached) (reason : Option CancellationReason) :
    (slot.cancel reason).Sound attached ∧ slot.Keeps (slot.cancel reason) ∧
      (slot.cancel reason).rank ≤ slot.rank := by
  unfold TaskSlot.cancel
  dsimp only
  split_ifs with hphase hstarted hnone
  · exact ⟨⟨h.transitioned, h.entered, h.recovering, h.inCharge⟩, ⟨rfl, rfl⟩, le_rfl⟩
  · exact ⟨⟨h.transitioned, h.entered, h.recovering, h.inCharge⟩, ⟨rfl, rfl⟩, le_rfl⟩
  · have hrank : { slot with
        cancellationRequested := true, cancellationReason := reason, cancelled := true
        recovery := .waiting }.rank = slot.rank := by
      cases hp : slot.phase <;> simp only [rank, hp]
      exact absurd hp hphase
    refine ⟨⟨h.transitioned, fun _ => ?_, by simp, fun ha => hrank ▸ h.inCharge ha⟩, ⟨rfl, rfl⟩,
      hrank.le⟩
    obtain ⟨ha, hcallback, -⟩ := h.entered hphase
    exact ⟨ha, hcallback, Or.inr rfl⟩
  · exact ⟨⟨h.transitioned, h.entered, h.recovering, h.inCharge⟩, ⟨rfl, rfl⟩, le_rfl⟩

end TaskSlot

/-! ## The processor -/

namespace ProcessorState

variable {s s' : ProcessorState} {leaving : Option String} {key : String} {slot : TaskSlot}
  {tree tree' : MessageTree} {claim : NodeClaim} {j : ℕ}

/-- The tree object of a slot has its claim as the active one. -/
def Holds (s : ProcessorState) (slot : TaskSlot) : Prop :=
  ∃ tree, s.trees[slot.tree]? = some tree ∧ tree.active.map (·.claim) = some slot.claim

/-- The claim has no slot, or it is the one that is just being finished. -/
def Gone (s : ProcessorState) (leaving : Option String) (key : String) : Prop :=
  key ∉ s.tasks ∨ leaving = some key

/-- The invariant of the processor, apart from the claim that is just being finished. -/
structure Sound (s : ProcessorState) (leaving : Option String) : Prop where
  admitted : ∀ tree ∈ s.trees, Admitted (fun _ _ => True) tree
  keyed : ∀ {key slot}, s.objects.get? key = some slot → slot.claim.claimId = key
  slots : ∀ {key slot}, s.objects.get? key = some slot → leaving ≠ some key →
    slot.Sound (decide (key ∈ s.tasks))
  holds : ∀ {key slot}, s.objects.get? key = some slot → key ∈ s.tasks → leaving ≠ some key →
    s.Holds slot
  launched : ∀ {key}, key ∈ s.launched ↔ ∃ slot, s.objects.get? key = some slot
  launchedOnce : s.launched.Nodup
  tasksOnce : s.tasks.Nodup
  tasksLaunched : ∀ {key}, key ∈ s.tasks → key ∈ s.launched
  finished : ∀ {key}, key ∈ s.finished.map (·.claimId) ↔ key ∈ s.launched ∧ s.Gone leaving key
  finishedOnce : (s.finished.map (·.claimId)).Nodup
  failures : s.completionFailures = []
  idle : s.idle = true ↔ s.tasks = []
  attached : ∀ {key}, leaving = some key → key ∈ s.tasks

theorem Sound.updateSlot (h : s.Sound leaving) {f : TaskSlot → TaskSlot}
    (hf : ∀ slot, s.objects.get? key = some slot → slot.Keeps (f slot) ∧
      (leaving ≠ some key → (f slot).Sound (decide (key ∈ s.tasks)))) :
    (s.updateSlot key f).Sound leaving := by
  have hback : ∀ {k new}, (s.updateSlot key f).objects.get? k = some new →
      ∃ old, s.objects.get? k = some old ∧ old.Keeps new ∧
        (leaving ≠ some k → new.Sound (decide (k ∈ s.tasks))) := by
    intro k new hnew
    unfold ProcessorState.updateSlot at hnew
    rw [Dict.get?_modify] at hnew
    split_ifs at hnew with hk
    · obtain ⟨old, hold, rfl⟩ := Option.map_eq_some_iff.mp hnew
      rw [hk]
      exact ⟨old, hold, hf old hold⟩
    · exact ⟨new, hnew, .refl new, fun hl => h.slots hnew hl⟩
  refine ⟨h.admitted, ?_, ?_, ?_, ?_, h.launchedOnce, h.tasksOnce, h.tasksLaunched, h.finished,
    h.finishedOnce, h.failures, h.idle, h.attached⟩
  · intro k new hnew
    obtain ⟨old, hold, hkeeps, -⟩ := hback hnew
    rw [hkeeps.claim]
    exact h.keyed hold
  · intro k new hnew hl
    obtain ⟨old, hold, -, hsound⟩ := hback hnew
    exact hsound hl
  · intro k new hnew hk hl
    obtain ⟨old, hold, hkeeps, -⟩ := hback hnew
    obtain ⟨tree, htree, hactive⟩ := h.holds hold hk hl
    refine ⟨tree, ?_, ?_⟩
    · rw [hkeeps.tree]
      exact htree
    · rw [hkeeps.claim]
      exact hactive
  · intro k
    refine h.launched.trans ?_
    constructor
    · rintro ⟨old, hold⟩
      unfold ProcessorState.updateSlot
      rw [Dict.get?_modify]
      split_ifs with hk
      · rw [← hk, hold]
        exact ⟨_, rfl⟩
      · exact ⟨old, hold⟩
    · rintro ⟨new, hnew⟩
      obtain ⟨old, hold, -⟩ := hback hnew
      exact ⟨old, hold⟩

/-- A tree object changes, and keeps the active claim that a slot may hold. -/
theorem Sound.setTree (h : s.Sound leaving) (hadmitted : Admitted (fun _ _ => True) tree')
    (hactive : ∀ {key slot}, s.objects.get? key = some slot → key ∈ s.tasks →
      leaving ≠ some key → slot.tree = j → tree'.active.map (·.claim) = some slot.claim) :
    { s with trees := s.trees.set j tree' }.Sound leaving := by
  refine ⟨?_, h.keyed, h.slots, ?_, h.launched, h.launchedOnce, h.tasksOnce, h.tasksLaunched,
    h.finished, h.finishedOnce, h.failures, h.idle, h.attached⟩
  · intro t ht
    rcases List.mem_or_eq_of_mem_set ht with ht | rfl
    · exact h.admitted t ht
    · exact hadmitted
  · intro k sl hsl hk hl
    obtain ⟨tree, htree, hact⟩ := h.holds hsl hk hl
    by_cases hj : sl.tree = j
    · refine ⟨tree', ?_, hactive hsl hk hl hj⟩
      have hlt := (List.getElem?_eq_some_iff.mp htree).1
      rw [hj] at hlt ⊢
      exact List.getElem?_set_self hlt
    · refine ⟨tree, ?_, hact⟩
      rw [List.getElem?_set_ne (Ne.symm hj)]
      exact htree

theorem Sound.addTree (h : s.Sound leaving) (hadmitted : Admitted (fun _ _ => True) tree)
    (published : List ℕ) :
    { s with trees := s.trees ++ [tree], published := published }.Sound leaving := by
  refine ⟨?_, h.keyed, h.slots, ?_, h.launched, h.launchedOnce, h.tasksOnce, h.tasksLaunched,
    h.finished, h.finishedOnce, h.failures, h.idle, h.attached⟩
  · intro t ht
    rcases List.mem_append.mp ht with ht | ht
    · exact h.admitted t ht
    · rw [List.mem_singleton.mp ht]
      exact hadmitted
  · intro k sl hsl hk hl
    obtain ⟨t, ht, hact⟩ := h.holds hsl hk hl
    refine ⟨t, ?_, hact⟩
    rw [List.getElem?_append_left (List.getElem?_eq_some_iff.mp ht).1]
    exact ht

/-- A new slot has a claim that no other slot ever had. -/
theorem Sound.launch (h : s.Sound leaving) (hj : s.trees[j]? = some tree)
    (hactive : tree.active.map (·.claim) = some claim) (hfresh : claim.claimId ∉ s.launched)
    (announceStarted : Bool) (queue : List QueueEntry) :
    ∃ s', s.launch j claim announceStarted queue = .ok s' ∧ s'.Sound leaving ∧
      s'.tasks = s.tasks ++ [claim.claimId] ∧ s'.launched = s.launched ++ [claim.claimId] ∧
      s'.finished = s.finished ∧ (s'.waits = s.waits ∧ s'.woken = s.woken) ∧
      ∀ key, key ≠ claim.claimId → s'.objects.get? key = s.objects.get? key := by
  have hnot : claim.claimId ∉ s.tasks := fun hmem => hfresh (h.tasksLaunched hmem)
  have hold : ∀ {k slot}, s.objects.get? k = some slot → k ≠ claim.claimId := by
    rintro k slot hslot rfl
    exact hfresh (h.launched.mpr ⟨slot, hslot⟩)
  have hmem : ∀ {k}, k ≠ claim.claimId → (k ∈ s.tasks ++ [claim.claimId] ↔ k ∈ s.tasks) := by
    intro k hk
    simp [hk]
  unfold ProcessorState.launch
  rw [if_neg hnot]
  refine ⟨_, rfl, ⟨h.admitted, ?_, ?_, ?_, ?_, ?_, ?_, ?_, ?_, h.finishedOnce, h.failures, ?_,
    fun hl => List.mem_append_left _ (h.attached hl)⟩, rfl, rfl, rfl, ⟨rfl, rfl⟩,
    fun k hk => Dict.get?_set_of_ne _ _ hk⟩
  · intro k slot hslot
    rw [Dict.get?_set] at hslot
    split_ifs at hslot with hk
    · cases hslot
      exact hk.symm
    · exact h.keyed hslot
  · intro k slot hslot hl
    rw [Dict.get?_set] at hslot
    split_ifs at hslot with hk
    · cases hslot
      have hin : k ∈ s.tasks ++ [claim.claimId] := by simp [hk]
      rw [decide_eq_true hin]
      exact ⟨rfl, fun _ => ⟨rfl, rfl, Or.inl rfl⟩, fun _ => rfl, fun _ => by simp [TaskSlot.rank]⟩
    · have hin := hmem (hold hslot)
      simp only [hin]
      exact h.slots hslot hl
  · intro k slot hslot hk hl
    rw [Dict.get?_set] at hslot
    split_ifs at hslot
    · cases hslot
      exact ⟨tree, hj, hactive⟩
    · exact h.holds hslot ((hmem (hold hslot)).mp hk) hl
  · intro k
    rw [List.mem_append, List.mem_singleton, h.launched, Dict.get?_set]
    split_ifs with hk
    · simp [hk]
    · simp [hk]
  · exact h.launchedOnce.append (List.nodup_singleton _) (List.disjoint_singleton.mpr hfresh)
  · exact h.tasksOnce.append (List.nodup_singleton _) (List.disjoint_singleton.mpr hnot)
  · intro k hk
    rw [List.mem_append] at hk ⊢
    exact hk.imp_left h.tasksLaunched
  · intro k
    rw [h.finished, List.mem_append, List.mem_singleton]
    unfold Gone
    by_cases hk : k = claim.claimId
    · subst hk
      refine iff_of_false (fun hf => hfresh hf.1) ?_
      rintro ⟨-, hgone | hgone⟩
      · simp at hgone
      · exact hnot (h.attached hgone)
    · rw [hmem hk]
      simp [hk]
  · simp

/-- The claim that was just finished loses its slot. -/
theorem Sound.removeSlot (h : s.Sound (some key)) (hget : s.objects.get? key = some slot)
    (hslot : slot.Sound false) : (s.removeSlot key).Sound none := by
  have hmem : ∀ {k}, k ∈ s.tasks.erase key ↔ k ≠ key ∧ k ∈ s.tasks := h.tasksOnce.mem_erase_iff
  have hleaving : ∀ {k}, k ≠ key → some key ≠ some k := fun hk he => hk (Option.some.inj he).symm
  have hsound : ∀ (idle : Bool) (waiting woken : ℕ), (idle = true ↔ s.tasks.erase key = []) →
      { s with
        tasks := s.tasks.erase key, idle := idle, waiting := waiting, woken := woken }.Sound
          none := by
    intro idle waiting woken hidle
    refine ⟨h.admitted, h.keyed, ?_, ?_, h.launched, h.launchedOnce, h.tasksOnce.erase key, ?_, ?_,
      h.finishedOnce, h.failures, hidle, fun he => nomatch he⟩
    · intro k sl hsl _
      by_cases hk : k = key
      · have hnot : k ∉ s.tasks.erase key := by
          rw [hmem]
          exact fun hin => hin.1 hk
        rw [hk, hget] at hsl
        cases hsl
        rw [decide_eq_false hnot]
        exact hslot
      · have hiff : k ∈ s.tasks.erase key ↔ k ∈ s.tasks := hmem.trans (and_iff_right hk)
        simp only [hiff]
        exact h.slots hsl (hleaving hk)
    · intro k sl hsl hk _
      obtain ⟨hne, hk⟩ := hmem.mp hk
      exact h.holds hsl hk (hleaving hne)
    · exact fun hk => h.tasksLaunched (hmem.mp hk).2
    · intro k
      rw [h.finished]
      unfold Gone
      simp only [hmem, Option.some.injEq, reduceCtorEq, or_false, not_and, eq_comm (a := key)]
      tauto
  unfold ProcessorState.removeSlot
  dsimp only
  split_ifs with hnil
  · exact hsound true 0 _ (iff_of_true rfl hnil)
  · refine hsound s.idle s.waiting s.woken (iff_of_false (fun hidle => hnil ?_) hnil)
    rw [h.idle.mp hidle]
    rfl

/-- A finish transition with effect is recorded for a claim that has a slot. -/
theorem Sound.record (h : s.Sound none) (hkey : key ∈ s.tasks) {record : FinishedClaim}
    (hrecord : record.claimId = key) :
    { s with finished := s.finished ++ [record] }.Sound (some key) := by
  have hnew : key ∉ s.finished.map (·.claimId) := by
    rw [h.finished]
    rintro ⟨-, hgone | hgone⟩
    · exact hgone hkey
    · cases hgone
  refine ⟨h.admitted, h.keyed, fun hsl _ => h.slots hsl (by simp),
    fun hsl hk _ => h.holds hsl hk (by simp), h.launched, h.launchedOnce, h.tasksOnce,
    h.tasksLaunched, ?_, ?_, h.failures, h.idle, ?_⟩
  · intro k
    rw [List.map_append, List.mem_append, h.finished, List.map_singleton, List.mem_singleton,
      hrecord]
    unfold Gone
    by_cases hk : k = key
    · rw [hk]
      exact iff_of_true (Or.inr rfl) ⟨h.tasksLaunched hkey, Or.inr rfl⟩
    · simp [hk, Ne.symm hk]
  · rw [List.map_append, List.map_singleton, hrecord]
    exact h.finishedOnce.append (List.nodup_singleton _) (List.disjoint_singleton.mpr hnew)
  · rintro k ⟨⟩
    exact hkey

/-- What `_finish_claim` does for a claim that has a slot: the claim is released, and a
successor on a published tree is launched. -/
structure Finishes (s : ProcessorState) (key : String) (s' : ProcessorState) : Prop where
  sound : s'.Sound (some key)
  record : ∃ record : FinishedClaim, s'.finished = s.finished ++ [record] ∧
    (record.published = true → ∀ next, record.next = some next → next ∈ s'.launched)
  launched : ∀ k ∈ s.launched, k ∈ s'.launched
  slots : ∀ k ∈ s.launched, s'.objects.get? k = s.objects.get? k
  tasks : ∀ k ∈ s.launched, (k ∈ s'.tasks ↔ k ∈ s.tasks)
  waits : s'.waits = s.waits ∧ s'.woken = s.woken

theorem Sound.finishClaim (h : s.Sound none) (hget : s.objects.get? key = some slot)
    (hkey : key ∈ s.tasks) {nextClaimId : String} (hunused : nextClaimId ∉ s.launched) :
    ∃ s', s.finishClaim slot nextClaimId = (.ok (), s') ∧ s.Finishes key s' := by
  obtain ⟨tree, htree, hactive⟩ := h.holds hget hkey (by simp)
  have hclaim : slot.claim.claimId = key := h.keyed hget
  have hadmitted := h.admitted tree (List.mem_of_getElem? htree)
  have hadmitted' : Admitted (fun _ _ => True)
      (tree.finishAndClaimNext slot.claim.claimId nextClaimId).2 :=
    have hfinish : (TreeOp.finishAndClaimNext slot.claim.claimId nextClaimId).ProperId := trivial
    hadmitted.apply hfinish fun _ _ => trivial
  obtain ⟨r, hr, hrtree, -⟩ := hadmitted
  have hscheduled := (TreeRun.invariant_of_reachable hr.reachable).scheduled
  rw [hrtree] at hscheduled
  obtain ⟨next, queue, hresult, hfin⟩ :=
    hscheduled.finishAndClaimNext_cases slot.claim.claimId nextClaimId
  have hid : tree.active.map (·.claim.claimId) = some slot.claim.claimId := by
    obtain ⟨a, ha, hc⟩ := Option.map_eq_some_iff.mp hactive
    rw [ha, ← hc]
    rfl
  generalize htree' : (tree.finishAndClaimNext slot.claim.claimId nextClaimId).2 = tree' at *
  have houtcome : tree.finishAndClaimNext slot.claim.claimId nextClaimId =
      (.ok ⟨next, queue⟩, tree') := Prod.ext hresult htree'
  -- no other slot holds this tree
  have hother : ∀ {k sl}, s.objects.get? k = some sl → k ∈ s.tasks → some key ≠ some k →
      sl.tree = slot.tree → tree'.active.map (·.claim) = some sl.claim := by
    intro k sl hsl hk hne hj
    obtain ⟨t, ht, hact⟩ := h.holds hsl hk (by simp)
    rw [hj, htree] at ht
    cases ht
    rw [hactive] at hact
    refine absurd ?_ hne
    rw [← hclaim, ← h.keyed hsl, Option.some.inj hact]
  have hreleased : ∀ record : FinishedClaim, record.claimId = key →
      { s with
        trees := s.trees.set slot.tree tree'
        finished := s.finished ++ [record] }.Sound (some key) :=
    fun record hrecord => (h.record hkey hrecord).setTree hadmitted' hother
  have hslot : (s.trees.set slot.tree tree')[slot.tree]? = some tree' :=
    List.getElem?_set_self (List.getElem?_eq_some_iff.mp htree).1
  unfold ProcessorState.finishClaim
  simp only [htree, houtcome, hid, if_true]
  cases hfin with
  | stale hstale => exact absurd hid hstale
  | idle =>
    refine ⟨_, rfl, hreleased _ hclaim, ⟨_, rfl, fun _ next hnext => ?_⟩, fun _ => id,
      fun _ _ => rfl, fun _ _ => Iff.rfl, ⟨rfl, rfl⟩⟩
    cases hnext
  | @next _ _ c _ tree' _ _ _ _ hcl =>
    have hc : tree'.active.map (·.claim) = some c := by rw [hcl.active]; rfl
    by_cases hpublished : slot.tree ∈ s.published
    · obtain ⟨s', hlaunch, hsound, htasks, hlaunched, hfinished, hwaits, hobjects⟩ :=
        (hreleased ⟨slot.claim.claimId, tree'.active.map (·.claim.claimId), true⟩ hclaim).launch
          hslot hc (by rw [hcl.claimId]; exact hunused) true queue
      have hne : ∀ k ∈ s.launched, k ≠ c.claimId := by
        rintro k hk rfl
        rw [hcl.claimId] at hk
        exact hunused hk
      simp only [hpublished, decide_true, if_true]
      rw [hlaunch]
      refine ⟨s', rfl, hsound, ⟨_, hfinished, fun _ next hnext => ?_⟩, fun k hk => ?_,
        fun k hk => hobjects k (hne k hk), fun k hk => ?_, hwaits⟩
      · rw [hcl.active] at hnext
        cases hnext
        rw [hlaunched]
        simp
      · rw [hlaunched]
        exact List.mem_append_left _ hk
      · rw [htasks]
        simp [hne k hk]
    · simp only [hpublished, decide_false, Bool.false_eq_true, if_false]
      refine ⟨_, rfl, hreleased _ hclaim, ⟨_, rfl, fun hp => ?_⟩, fun _ => id,
        fun _ _ => rfl, fun _ _ => Iff.rfl, ⟨rfl, rfl⟩⟩
      cases hp

theorem updateSlot_updateSlot (s : ProcessorState) (key : String) (f g : TaskSlot → TaskSlot) :
    (s.updateSlot key f).updateSlot key g = s.updateSlot key (g ∘ f) := by
  unfold updateSlot
  simp only [Dict.modify_modify]

theorem removeSlot_updateSlot (s : ProcessorState) (key : String) (f : TaskSlot → TaskSlot) :
    (s.removeSlot key).updateSlot key f = (s.updateSlot key f).removeSlot key := by
  unfold removeSlot updateSlot
  dsimp only
  split_ifs <;> rfl

/-- The task or the recovery of a claim is about to finish it. -/
def FinishDue (slot : TaskSlot) (byRecovery : Bool) : Prop :=
  if byRecovery then slot.recovery = .finishing else slot.phase = .finishing

/-- A finish that is not due does nothing; one that is due finishes a claim with a slot. -/
inductive FinishOutcome (s : ProcessorState) (key : String) (byRecovery : Bool) :
    ProcessorState → Prop
  | notDue : (∀ slot, s.objects.get? key = some slot → ¬ FinishDue slot byRecovery) →
      FinishOutcome s key byRecovery s
  | finishes {s' f slot} : s.objects.get? key = some slot → key ∈ s.tasks → s.Finishes key s' →
      slot.Keeps (f slot) → (f slot).Sound false →
      FinishOutcome s key byRecovery ((s'.updateSlot key f).removeSlot key)

theorem Sound.finish_cases (h : s.Sound none) (key : String) (byRecovery : Bool)
    {nextClaimId : String} (hunused : nextClaimId ∉ s.launched) :
    s.FinishOutcome key byRecovery (s.finish key byRecovery nextClaimId) := by
  unfold ProcessorState.finish
  cases hget : s.objects.get? key with
  | none => exact .notDue fun slot hslot => nomatch hget.symm.trans hslot
  | some slot =>
    have hslot := h.slots hget (by simp)
    have hnotDue : ¬ FinishDue slot byRecovery → s.FinishOutcome key byRecovery s := by
      intro hdue
      refine .notDue fun slot' hslot' => ?_
      rw [hget] at hslot'
      cases hslot'
      exact hdue
    have hfinish : ∀ g : TaskSlot → TaskSlot, key ∈ s.tasks →
        slot.Keeps (g { slot with transitioned := true }) →
        (g { slot with transitioned := true }).Sound false →
        s.FinishOutcome key byRecovery
          ((s.finishAndContinue key slot nextClaimId).updateSlot key g) := by
      intro g hkey hkeeps hsound
      obtain ⟨s', hs', hfinishes⟩ := h.finishClaim hget hkey hunused
      unfold ProcessorState.finishAndContinue
      rw [hs']
      dsimp only
      rw [removeSlot_updateSlot, updateSlot_updateSlot]
      exact .finishes hget hkey hfinishes hkeeps hsound
    dsimp only
    split_ifs with hby hrecovery hphase
    · -- the recovery finishes only a claim whose task is done
      have hkey : key ∈ s.tasks := of_decide_eq_true (hslot.recovering hrecovery)
      have hdone : slot.phase = .done := by
        by_contra hne
        rcases (hslot.entered hne).2.2 with hr | hr
        · rw [hr] at hrecovery
          cases hrecovery
        · rw [hr] at hrecovery
          cases hrecovery
      exact hfinish _ hkey ⟨rfl, rfl⟩ ⟨rfl, fun hne => absurd hdone hne, by simp, by simp⟩
    · exact hnotDue (by rwa [FinishDue, if_pos hby])
    · obtain ⟨hkey, -, hr⟩ := hslot.entered (by rw [hphase]; simp)
      refine hfinish _ (of_decide_eq_true hkey) ⟨rfl, rfl⟩ ⟨rfl, fun hne => absurd rfl hne, ?_,
        by simp⟩
      intro hfinishing
      rcases hr with hr | hr
      · exact nomatch hr.symm.trans hfinishing
      · exact nomatch hr.symm.trans hfinishing
    · exact hnotDue (by rwa [FinishDue, if_neg hby])

theorem Finishes.get? (hf : s.Finishes key s') (h : s.Sound none) (hkey : key ∈ s.tasks) :
    s'.objects.get? key = s.objects.get? key :=
  hf.slots key (h.tasksLaunched hkey)

/-- The state that a finish leaves. -/
theorem Sound.finished_removed (h : s.Sound none) {f : TaskSlot → TaskSlot}
    (hget : s.objects.get? key = some slot) (hkey : key ∈ s.tasks) (hf : s.Finishes key s')
    (hkeeps : slot.Keeps (f slot)) (hsound : (f slot).Sound false) :
    ((s'.updateSlot key f).removeSlot key).Sound none := by
  have hget' : s'.objects.get? key = some slot := (hf.get? h hkey).trans hget
  have hupdated : (s'.updateSlot key f).Sound (some key) := by
    refine hf.sound.updateSlot fun slot' hslot' => ⟨?_, fun hne => absurd rfl hne⟩
    rw [hget'] at hslot'
    cases hslot'
    exact hkeeps
  have hafter : (s'.updateSlot key f).objects.get? key = some (f slot) := by
    unfold ProcessorState.updateSlot
    rw [Dict.get?_modify_self, hget']
    rfl
  exact hupdated.removeSlot hafter hsound

theorem Sound.finish (h : s.Sound none) (key : String) (byRecovery : Bool) {nextClaimId : String}
    (hunused : nextClaimId ∉ s.launched) : (s.finish key byRecovery nextClaimId).Sound none := by
  have hcases := h.finish_cases key byRecovery hunused
  generalize s.finish key byRecovery nextClaimId = t at hcases
  cases hcases with
  | notDue => exact h
  | finishes hget hkey hf hkeeps hsound => exact h.finished_removed hget hkey hf hkeeps hsound

end ProcessorState

end Switchboard.Messaging
