import Switchboard.Runtime.GenerationLifecycle

/-!
# The cleanup of unused generations

A step gives no user to a retired generation unless one of its refresh tasks still
waits for its first step. So a generation whose cleanup has begun stays unused in
every run that arranges cleanups only when no such task is left.
-/

namespace Switchboard.Runtime

open ProviderRuntimeManager

/-- The generation without a user that a step gives to `_close_generation`. -/
def ProviderOp.closes (m : ProviderRuntimeManager) : ProviderOp → Option ℕ
  | release g => if g ∈ m.leases ∧ (m.generation g).any m.lastUse then some g else none
  | endRefresh t => (m.tasks[t]?).bind fun task =>
    if task.phase = .running ∧ (m.generation task.generation).any m.lastUse then
      some task.generation
    else none
  | advance commits => match m.lockSection with
    | .replaceRetrying (g :: _) => if m.activeLeases g = 0 then some g else none
    | .replacePreparing => if commits ∧ m.activeLeases m.current = 0 then some m.current else none
    | .refreshing g => if (m.generation g).any m.lastUse then some g else none
    | _ => none
  | abandon => match m.lockSection with
    | .refreshing g => if (m.generation g).any m.lastUse then some g else none
    | _ => none
  | advanceClose _ => match m.shutdown with
    | .closing (g :: _) _ => if m.activeLeases g = 0 then some g else none
    | _ => none
  | _ => none

namespace ProviderRuntimeManager

variable {m m' m'' : ProviderRuntimeManager} {g h t : ℕ} {gen : ProviderGeneration}
  {c : Option ℕ}

/-- A cleanup task of the generation exists, or its last one succeeded. -/
def Arranged (m : ProviderRuntimeManager) (g : ℕ) : Prop :=
  ∃ gen, m.generation g = some gen ∧ gen.cleanupTask ≠ none

/-- Only the generation `c` can get a cleanup task, and a retired generation gets no
user that was not pending. -/
structure Steady (c : Option ℕ) (m m' : ProviderRuntimeManager) : Prop where
  users : ∀ {g}, m.IsRetired g → ¬ m.Pending g → m'.activeLeases g ≤ m.activeLeases g
  arranged : ∀ {g}, m'.Arranged g → m.Arranged g ∨ c = some g ∧ m'.activeLeases g = 0
  pending : ∀ {g}, m'.Pending g → m.Pending g ∨ ¬ m'.IsRetired g

theorem Steady.congr (hs : m.Steady c m') (hgen : m''.generations = m'.generations)
    (htasks : m''.tasks = m'.tasks) : m.Steady c m'' := by
  have hget : ∀ g, m''.generation g = m'.generation g := by
    intro g
    unfold generation
    rw [hgen]
  have hactive : ∀ g, m''.activeLeases g = m'.activeLeases g := by
    intro g
    unfold activeLeases
    rw [hget]
  refine ⟨fun hr hp => ?_, fun {g} h => ?_, fun {g} h => ?_⟩
  · rw [hactive]
    exact hs.users hr hp
  · rw [hactive]
    refine hs.arranged ?_
    unfold Arranged at h ⊢
    rwa [hget] at h
  · unfold Pending at h
    rw [htasks] at h
    refine (hs.pending h).imp_right fun hr hr' => hr ?_
    unfold IsRetired at hr' ⊢
    rwa [hget] at hr'

theorem Steady.refl (m : ProviderRuntimeManager) : m.Steady c m :=
  ⟨fun _ _ => le_rfl, Or.inl, Or.inl⟩

theorem Steady.of_eq (hgen : m'.generations = m.generations) (htasks : m'.tasks = m.tasks) :
    m.Steady c m' :=
  (Steady.refl m).congr hgen htasks

theorem Steady.mono (hs : m.Steady none m') : m.Steady c m' :=
  ⟨hs.users, fun h => (hs.arranged h).imp_right fun h => (nomatch h.1), hs.pending⟩

/-- A change of one generation that neither arranges its cleanup nor adds a user. -/
theorem Steady.update {f : ProviderGeneration → ProviderGeneration}
    (hactive : ∀ gen, m.generation g = some gen → (f gen).activeLeases ≤ gen.activeLeases ∨
      gen.retired = false ∨ m.Pending g)
    (hf : ∀ gen, gen.cleanupTask = none → (f gen).cleanupTask = none) :
    m.Steady none (m.update g f) := by
  refine ⟨fun {h} hr hp => ?_, fun {h} harr => Or.inl ?_, Or.inl⟩
  · obtain ⟨gen, hgen, hr⟩ := hr
    unfold activeLeases
    rw [generation_update]
    split_ifs with hh
    · cases hh
      rw [hgen]
      rcases hactive gen hgen with hle | hnot | hpend
      · exact hle
      · rw [hr] at hnot
        cases hnot
      · exact absurd hpend hp
    · rfl
  · obtain ⟨new, hnew, hc⟩ := harr
    rw [generation_update] at hnew
    split_ifs at hnew with hh
    · obtain ⟨old, hold, rfl⟩ := Option.map_eq_some_iff.mp hnew
      exact ⟨old, hh ▸ hold, fun h => hc (hf old h)⟩
    · exact ⟨new, hnew, hc⟩

theorem steady_retain (hg : m.generation g = some gen) (h : gen.retired = false ∨ m.Pending g) :
    m.Steady none (m.retain g) := by
  refine Steady.update (fun gen' hgen' => Or.inr ?_) fun _ => id
  cases hg.symm.trans hgen'
  exact h

theorem steady_dropUse (m : ProviderRuntimeManager) (g : ℕ) : m.Steady none (m.dropUse g) :=
  Steady.update (fun _ _ => Or.inl (Nat.sub_le _ _)) fun _ => id

theorem arranged_closeGeneration (h : (m.closeGeneration g).Arranged t) :
    m.Arranged t ∨ t = g ∧ m.activeLeases t = 0 := by
  obtain ⟨new, hnew, hc⟩ := h
  unfold closeGeneration at hnew
  rw [generation_update] at hnew
  split_ifs at hnew with ht
  · obtain ⟨old, hold, rfl⟩ := Option.map_eq_some_iff.mp hnew
    rw [ht]
    split_ifs at hc with hneeds
    · exact Or.inr ⟨rfl, (activeLeases_of hold).trans hneeds.2.1⟩
    · exact Or.inl ⟨old, hold, hc⟩
  · exact Or.inl ⟨new, hnew, hc⟩

theorem Steady.closed (hs : m.Steady none m') (hc : m'.activeLeases g = 0 → c = some g) :
    m.Steady c (m'.closeGeneration g) := by
  refine ⟨fun hr hp => ?_, fun {h} harr => ?_, fun {h} hp => ?_⟩
  · rw [activeLeases_closeGeneration]
    exact hs.users hr hp
  · rw [activeLeases_closeGeneration]
    rcases arranged_closeGeneration harr with harr | ⟨rfl, h0⟩
    · exact (hs.arranged harr).imp_right fun h => nomatch h.1
    · exact Or.inr ⟨hc h0, h0⟩
  · refine (hs.pending hp).imp_right fun hr hr' => hr ?_
    obtain ⟨new, hnew, hret⟩ := hr'
    unfold closeGeneration at hnew
    rw [generation_update] at hnew
    split_ifs at hnew with hh
    · obtain ⟨old, hold, rfl⟩ := Option.map_eq_some_iff.mp hnew
      refine ⟨old, hh ▸ hold, ?_⟩
      split_ifs at hret <;> exact hret
    · exact ⟨new, hnew, hret⟩

theorem steady_release (m : ProviderRuntimeManager) (g : ℕ)
    (hc : (m.generation g).any m.lastUse = true → c = some g) : m.Steady c (m.release g) := by
  unfold release
  cases hgen : m.generation g with
  | none => exact .refl m
  | some gen =>
    simp only
    split_ifs with h0 hlast
    · exact .refl m
    · rw [hgen] at hc
      exact (steady_dropUse m g).closed fun _ => hc hlast
    · exact (steady_dropUse m g).mono

theorem Steady.setTask (hs : m.Steady c m') {task task' : RefreshTask}
    (ht : m.tasks[t]? = some task) (htasks : m'.tasks = m.tasks)
    (htask : task'.phase = .created → task'.cancelled = false → task' = task) :
    m.Steady c (m'.setTask t task') := by
  refine ⟨hs.users, hs.arranged, fun {g} hp => Or.inl ?_⟩
  obtain ⟨new, hnew, hg, hphase, hcancel⟩ := hp
  unfold ProviderRuntimeManager.setTask at hnew
  rw [htasks] at hnew
  rcases List.mem_or_eq_of_mem_set hnew with hold | rfl
  · exact ⟨new, hold, hg, hphase, hcancel⟩
  · have hold : new ∈ m.tasks := htask hphase hcancel ▸ List.mem_of_getElem? ht
    exact ⟨new, hold, hg, hphase, hcancel⟩

theorem steady_cancelRefresh (m : ProviderRuntimeManager) : m.Steady c m.cancelRefresh.2 := by
  unfold cancelRefresh
  split
  · exact .refl m
  · next t _ =>
    split
    · exact .of_eq rfl rfl
    · next task ht =>
      split_ifs
      · exact .of_eq rfl rfl
      · have hset : m.Steady c (m.setTask t { task with cancelled := true }) :=
          (Steady.refl m).setTask ht rfl (by simp)
        exact hset.congr rfl rfl

theorem steady_acquire (hm : m.Kept) (h : m.acquire = .ok m') : m.Steady none m' := by
  unfold ProviderRuntimeManager.acquire at h
  split_ifs at h with hclosing
  cases h
  obtain ⟨cur, hcur⟩ := hm.structured.present
  rw [not_or, Bool.not_eq_true] at hclosing
  have hopen := hm.structured.opened hclosing.1 hcur
  exact (steady_retain hcur (Or.inl hopen)).congr rfl rfl

/-- A new refresh task belongs to a generation that is not retired. -/
theorem Steady.newTask (hs : m.Steady none m') (htasks : m'.tasks = m.tasks)
    (hg : ¬ m'.IsRetired g) {task : Option ℕ} :
    m.Steady none
      { m' with refreshTask := task, tasks := m'.tasks ++ [{ generation := g }] } := by
  refine ⟨hs.users, hs.arranged, fun {h} hp => ?_⟩
  obtain ⟨new, hnew, hgen, hphase, hcancel⟩ := hp
  change new ∈ m'.tasks ++ [{ generation := g }] at hnew
  rw [htasks] at hnew
  rcases List.mem_append.mp hnew with hold | hadd
  · exact Or.inl ⟨new, hold, hgen, hphase, hcancel⟩
  · rw [List.mem_singleton.mp hadd] at hgen
    cases hgen
    exact Or.inr hg

theorem not_isRetired (hg : m.generation g = some gen) (hr : gen.retired = false) :
    ¬ m.IsRetired g := by
  rintro ⟨gen', hg', hr'⟩
  cases hg.symm.trans hg'
  rw [hr] at hr'
  cases hr'

theorem steady_startModelListRefresh (hm : m.Kept) :
    m.Steady none m.startModelListRefresh := by
  unfold startModelListRefresh
  split_ifs with hclosing
  · exact .refl m
  · exact .refl m
  · obtain ⟨cur, hcur⟩ := hm.structured.present
    rw [not_or, Bool.not_eq_true] at hclosing
    have hopen := hm.structured.opened hclosing.1 hcur
    exact (Steady.refl m).newTask rfl (not_isRetired hcur hopen)

theorem steady_beginRefresh (m : ProviderRuntimeManager) (t : ℕ) :
    m.Steady none (m.beginRefresh t) := by
  unfold beginRefresh
  cases ht : m.tasks[t]? with
  | none => exact .refl m
  | some task =>
    simp only
    split_ifs with hphase hcancel
    · exact .refl m
    · exact (Steady.refl m).setTask ht rfl (by simp)
    · rw [not_not] at hphase
      rw [Bool.not_eq_true] at hcancel
      cases hgen : m.generation task.generation with
      | none => exact .refl m
      | some gen =>
        simp only
        split_ifs
        · exact (Steady.refl m).setTask ht rfl (by simp)
        · -- the one way in which a retired generation gets a user
          have hpending : m.Pending task.generation :=
            ⟨task, List.mem_of_getElem? ht, rfl, hphase, hcancel⟩
          exact (steady_retain hgen (Or.inr hpending)).setTask ht rfl (by simp)

theorem steady_endRefresh (m : ProviderRuntimeManager) (t : ℕ) :
    m.Steady ((ProviderOp.endRefresh t).closes m) (m.endRefresh t) := by
  unfold endRefresh
  cases ht : m.tasks[t]? with
  | none => exact .refl m
  | some task =>
    simp only [ProviderOp.closes, ht, Option.bind_some]
    by_cases hphase : task.phase = .running
    · rw [if_neg (not_not.mpr hphase)]
      have hrelease := steady_release m task.generation
        (c := if task.phase = .running ∧ (m.generation task.generation).any m.lastUse = true then
          some task.generation else none) fun hlast => if_pos ⟨hphase, hlast⟩
      refine hrelease.setTask ht (release_users m task.generation).2.1 fun h => ?_
      split_ifs at h
    · rw [if_pos hphase]
      exact .refl m

theorem steady_leaveRefresh (m : ProviderRuntimeManager) (t : ℕ) :
    m.Steady none (m.leaveRefresh t) := by
  unfold leaveRefresh
  cases ht : m.tasks[t]? with
  | none => exact .refl m
  | some task =>
    simp only
    split_ifs
    · exact (Steady.refl m).setTask ht rfl (by simp)
    · exact .refl m

theorem steady_beginCleanup (m : ProviderRuntimeManager) (g : ℕ) :
    m.Steady none (m.beginCleanup g) := by
  refine Steady.update (fun gen _ => Or.inl ?_) fun gen hnone => ?_
  · split_ifs <;> exact le_rfl
  · rw [if_neg (by rw [hnone]; simp)]
    exact hnone

theorem steady_endCleanup (m : ProviderRuntimeManager) (g : ℕ) (succeeded : Bool) :
    m.Steady none (m.endCleanup g succeeded) := by
  unfold endCleanup
  cases hgen : m.generation g with
  | none => exact .refl m
  | some gen =>
    simp only
    split_ifs with hrun hok
    · exact .refl m
    · refine ⟨fun {h} _ _ => ?_, fun {h} harr => Or.inl ?_, Or.inl⟩
      · exact (activeLeases_update m g h
          (fun gen => { gen with closed := true, cleanupTask := some .finished })
            fun _ => rfl).le
      · obtain ⟨new, hnew, hc⟩ := harr
        by_cases hh : h = g
        · rw [hh]
          refine ⟨gen, hgen, ?_⟩
          rw [not_not.mp hrun]
          simp
        · exact ⟨new, ((generation_update m g h _).trans (if_neg hh)).symm.trans hnew, hc⟩
    · exact Steady.update (fun _ _ => Or.inl le_rfl) fun _ _ => rfl

theorem steady_enter (m : ProviderRuntimeManager) (call : LockedCall) :
    m.Steady none (m.enter call) := by
  unfold enter
  split_ifs
  · exact .refl m
  · cases call with
    | replace => exact (steady_cancelRefresh m).congr rfl rfl
    | refreshModelListCache => exact (steady_cancelRefresh m).congr rfl rfl
    | connectedProviderChanged => exact .of_eq rfl rfl

theorem steady_enterClose (m : ProviderRuntimeManager) : m.Steady none m.enterClose := by
  unfold enterClose
  split_ifs
  · exact .refl m
  · have h := steady_cancelRefresh (c := none) { m with closing := true }
    have hm : m.Steady none ({ m with closing := true } : ProviderRuntimeManager).cancelRefresh.2 :=
      ⟨h.users, h.arranged, h.pending⟩
    exact hm.congr rfl rfl

theorem steady_publishCandidate (hm : m.Structured) : m.Steady none m.publishCandidate := by
  refine ⟨fun _ _ => (activeLeases_publishCandidate hm _).le, fun {h} harr => Or.inl ?_,
    fun {h} hp => ?_⟩
  · obtain ⟨new, hnew, hc⟩ := harr
    rw [generation_publishCandidate] at hnew
    split_ifs at hnew with h1 h2
    · cases hnew
      exact absurd rfl hc
    · obtain ⟨old, hold, rfl⟩ := Option.map_eq_some_iff.mp hnew
      exact ⟨old, h2 ▸ hold, hc⟩
    · exact ⟨new, hnew, hc⟩
  · obtain ⟨new, hnew, rfl, hphase, hcancel⟩ := hp
    rcases List.mem_append.mp hnew with hold | hadd
    · exact Or.inl ⟨new, hold, rfl, hphase, hcancel⟩
    · have hget : m.publishCandidate.generation m.nextGenerationId = some {} := by
        rw [generation_publishCandidate, if_pos rfl]
      rw [List.mem_singleton.mp hadd]
      exact Or.inr (not_isRetired hget rfl)

theorem steady_publish (hm : m.Structured)
    (hc : m.activeLeases m.current = 0 → c = some m.current) : m.Steady c m.publish := by
  have hpub := steady_publishCandidate hm
  unfold publish
  split_ifs
  · refine Steady.congr (hpub.closed fun h0 => hc ?_) rfl rfl
    rwa [activeLeases_publishCandidate hm] at h0
  · exact hpub.mono.congr rfl rfl

theorem steady_retireCurrent (m : ProviderRuntimeManager) : m.Steady none m.retireCurrent := by
  have hret : m.Steady none (m.update m.current fun gen => { gen with retired := true }) :=
    Steady.update (fun _ _ => Or.inl le_rfl) fun _ => id
  exact hret.congr rfl rfl

theorem steady_advance (hm : m.Kept) (commits : Bool) :
    m.Steady ((ProviderOp.advance commits).closes m) (m.advance commits) := by
  have hsame : m.Steady ((ProviderOp.advance commits).closes m) m := .refl m
  unfold advance
  split
  · exact hsame
  · split_ifs <;> exact .of_eq rfl rfl
  · exact .of_eq rfl rfl
  · next g rest hs =>
    split_ifs
    · exact .of_eq rfl rfl
    · refine Steady.congr ((Steady.refl m).closed (g := g) fun h0 => ?_) rfl rfl
      simp only [ProviderOp.closes, hs]
      exact if_pos h0
  · split_ifs <;> exact .of_eq rfl rfl
  · next hs =>
    split_ifs with hcommits
    · refine steady_publish hm.structured fun h0 => ?_
      simp only [ProviderOp.closes, hs]
      exact if_pos ⟨hcommits, h0⟩
    · exact .of_eq rfl rfl
  · split_ifs <;> exact .of_eq rfl rfl
  · next task hs =>
    have hclosing : m.closing = false := hm.locked _ (by rw [hs]; rfl)
    split_ifs
    · exact .of_eq rfl rfl
    · obtain ⟨cur, hcur⟩ := hm.structured.present
      have hopen := hm.structured.opened hclosing hcur
      exact (steady_retain hcur (Or.inl hopen)).mono.congr rfl rfl
    · exact hsame
  · next g hs =>
    refine (steady_release m g fun hlast => ?_).congr rfl rfl
    simp only [ProviderOp.closes, hs]
    exact if_pos hlast
  · split_ifs <;> exact .of_eq rfl rfl
  · exact .of_eq rfl rfl
  · split_ifs
    · exact .of_eq rfl rfl
    · exact (steady_retireCurrent m).mono.congr rfl rfl
    · exact hsame

theorem steady_abandon (hm : m.Kept) :
    m.Steady (ProviderOp.abandon.closes m) m.abandon := by
  unfold abandon
  split
  · next g hs =>
    have hcloses : ProviderOp.abandon.closes m = (ProviderOp.advance true).closes m := by
      simp only [ProviderOp.closes, hs]
    rw [hcloses]
    exact steady_advance hm true
  · exact .of_eq rfl rfl

theorem steady_advanceClose (m : ProviderRuntimeManager) (unpublishedClosed : Bool) :
    m.Steady ((ProviderOp.advanceClose unpublishedClosed).closes m)
      (m.advanceClose unpublishedClosed) := by
  unfold advanceClose
  split
  · exact .refl m
  · exact .of_eq rfl rfl
  · exact .refl m
  · next g rest generations hs =>
    refine Steady.congr ((Steady.refl m).closed (g := g) fun h0 => ?_) rfl rfl
    simp only [ProviderOp.closes, hs]
    exact if_pos h0
  · split_ifs <;> exact .of_eq rfl rfl

theorem steady_seeDrained (m : ProviderRuntimeManager) (g : ℕ) :
    m.Steady none (m.seeDrained g) := by
  unfold seeDrained
  split
  · split_ifs <;> exact .of_eq rfl rfl
  · exact .refl m

end ProviderRuntimeManager

theorem ProviderOp.steady_apply {m : ProviderRuntimeManager} (hm : m.Kept) (op : ProviderOp) :
    m.Steady (op.closes m) (op.apply m) := by
  cases op with
  | acquire =>
    simp only [apply]
    split
    · next h => exact steady_acquire hm h
    · exact .refl m
  | release g =>
    simp only [apply]
    split_ifs with hg
    · refine (steady_release m g fun hlast => ?_).congr rfl rfl
      exact if_pos ⟨hg, hlast⟩
    · exact .refl m
  | startModelListRefresh => exact steady_startModelListRefresh hm
  | beginRefresh t => exact steady_beginRefresh m t
  | endRefresh t => exact steady_endRefresh m t
  | leaveRefresh t => exact steady_leaveRefresh m t
  | beginCleanup g => exact steady_beginCleanup m g
  | endCleanup g succeeded => exact steady_endCleanup m g succeeded
  | enter call => exact steady_enter m call
  | enterClose => exact steady_enterClose m
  | advance commits => exact steady_advance hm commits
  | abandon => exact steady_abandon hm
  | seeDrained g => exact steady_seeDrained m g
  | advanceClose unpublishedClosed => exact steady_advanceClose m unpublishedClosed
  | abandonClose => exact .of_eq rfl rfl

/-! ## Runs -/

/-- No cleanup is arranged while a refresh task of its generation waits to begin. -/
def FreshCleanup (r : ProviderRun) (op : ProviderOp) : Prop :=
  ∀ g, op.closes r.manager = some g → ¬ r.manager.Pending g

/-- Where a published generation is in its life. -/
inductive Phase where
  | current
  | waiting
  | closed
deriving DecidableEq, Repr

def ProviderRuntimeManager.InPhase (m : ProviderRuntimeManager) (g : ℕ) : Phase → Prop
  | .current => g = m.current ∧ ¬ m.IsRetired g
  | .waiting => g ∈ m.retired
  | .closed => ∃ gen, m.generation g = some gen ∧ gen.closed = true

namespace ProviderRun

variable {r : ProviderRun} {g : ℕ}

/-- Every published generation is in exactly one phase. -/
def Phased (r : ProviderRun) : Prop :=
  ∀ g gen, r.manager.generation g = some gen → ∃! phase, r.manager.InPhase g phase

/-- No lease, no running refresh and no call under the lock uses a generation whose
cleanup has begun. -/
def Unused (r : ProviderRun) : Prop :=
  ∀ g ∈ r.begun, g ∉ r.manager.leases ∧
    (∀ task ∈ r.manager.tasks, task.generation = g → task.phase ≠ .running) ∧
    ¬ r.manager.lockSection.On g

/-- What every run keeps, whatever its steps. -/
structure Recorded (r : ProviderRun) : Prop where
  kept : r.manager.Kept
  begun : ∀ g ∈ r.begun, r.manager.IsRetired g
  succeeded : ∀ g ∈ r.succeeded, ∃ gen, r.manager.generation g = some gen ∧ gen.closed = true
  once : r.succeeded.Nodup

theorem recorded_init : Recorded {} := by
  have hget : ∀ g, ProviderRuntimeManager.new.generation g =
      if g = 1 then some {} else none := fun g => Dict.get?_set _ _ _ _
  have hone : ∀ {g gen}, ProviderRuntimeManager.new.generation g = some gen → g = 1 ∧ gen = {} := by
    intro g gen h
    rw [hget] at h
    split_ifs at h with hg
    exact ⟨hg, (Option.some.inj h).symm⟩
  refine ⟨⟨⟨⟨{}, hget 1⟩, ?_, fun h _ => (hone h).1, ?_, ?_, ?_, ?_⟩, ?_, ?_, ?_, ?_⟩, ?_, ?_, ?_⟩
  · intro g gen h
    rw [(hone h).1]
    exact Nat.lt_succ_self 1
  · intro gen _ h
    rw [(hone h).2]
  · intro g
    refine iff_of_false List.not_mem_nil ?_
    rintro ⟨gen, h, hr, -⟩
    rw [(hone h).2] at hr
    cases hr
  · intro g gen h hc
    rw [(hone h).2] at hc
    simp at hc
  · intro g gen h _
    rw [(hone h).2]
  · intro g
    change (ProviderRuntimeManager.new.generation g).elim 0 (·.activeLeases) = 0
    rw [hget]
    split_ifs <;> rfl
  · rintro c ⟨⟩
  · rintro g ⟨⟩
  · rintro g ⟨⟩
  · rintro g ⟨⟩
  · rintro g ⟨⟩
  · exact List.nodup_nil

/-- A cleanup begins for a generation that has a cleanup task. -/
theorem begun_next (op : ProviderOp) (h : g ∈ (r.next op).begun) :
    g ∈ r.begun ∨ r.manager.Arranged g := by
  cases op with
  | beginCleanup k =>
    simp only [next] at h
    split_ifs at h with hcreated
    · rcases List.mem_append.mp h with h | h
      · exact Or.inl h
      · rw [List.mem_singleton.mp h]
        obtain ⟨gen, hgen, hc⟩ := (Option.any_eq_true _ _).mp hcreated
        refine Or.inr ⟨gen, hgen, ?_⟩
        rw [of_decide_eq_true hc]
        simp
    · exact Or.inl h
  | _ => exact Or.inl h

/-- A cleanup that succeeds belongs to a generation that is open, and closes it. -/
theorem succeeded_next (hr : r.Recorded) (op : ProviderOp) :
    (r.next op).succeeded = r.succeeded ∨ ∃ g gen gen', r.manager.generation g = some gen ∧
      gen.closed = false ∧ (r.next op).succeeded = r.succeeded ++ [g] ∧
      (op.apply r.manager).generation g = some gen' ∧ gen'.closed = true := by
  cases op with
  | endCleanup g ok =>
    cases ok with
    | false => exact Or.inl rfl
    | true =>
      by_cases hrun : (r.manager.generation g).any fun gen => gen.cleanupTask = some .running
      · obtain ⟨gen, hgen, hc⟩ := (Option.any_eq_true _ _).mp hrun
        have hc := of_decide_eq_true hc
        refine Or.inr ⟨g, gen, { gen with closed := true, cleanupTask := some .finished }, hgen,
          hr.kept.structured.busy hgen (Or.inr hc), if_pos hrun, ?_, rfl⟩
        simp only [ProviderOp.apply, ProviderRuntimeManager.endCleanup, hgen, hc]
        refine (generation_update r.manager g g _).trans ?_
        rw [if_pos rfl, hgen]
        rfl
      · exact Or.inl (if_neg hrun)
  | _ => exact Or.inl rfl

theorem Recorded.next (hr : r.Recorded) (op : ProviderOp) : (r.next op).Recorded := by
  obtain ⟨hkept, hgrow⟩ := ProviderOp.kept_apply hr.kept op
  have hold : ∀ g ∈ r.succeeded, ∃ gen, (op.apply r.manager).generation g = some gen ∧
      gen.closed = true := by
    intro g hg
    obtain ⟨gen, hgen, hc⟩ := hr.succeeded g hg
    obtain ⟨gen', hgen', -, hc'⟩ := hgrow.kept hgen
    exact ⟨gen', hgen', hc' hc⟩
  refine ⟨hkept, fun g hg => hgrow.isRetired ?_, ?_, ?_⟩
  · rcases begun_next op hg with h | ⟨gen, hgen, hc⟩
    · exact hr.begun g h
    · exact ⟨gen, hgen, hr.kept.structured.cleaning hgen (Or.inr hc)⟩
  · rcases succeeded_next hr op with heq | ⟨k, gen, gen', -, -, heq, hgen', hc'⟩
    · rw [heq]
      exact hold
    · rw [heq]
      intro g hg
      rcases List.mem_append.mp hg with hg | hg
      · exact hold g hg
      · rw [List.mem_singleton.mp hg]
        exact ⟨gen', hgen', hc'⟩
  · rcases succeeded_next hr op with heq | ⟨k, gen, -, hgen, hopen, heq, -⟩
    · rw [heq]
      exact hr.once
    · rw [heq]
      refine hr.once.append (List.nodup_singleton k) ?_
      rw [List.disjoint_singleton]
      intro hk
      obtain ⟨gen', hgen', hc'⟩ := hr.succeeded k hk
      cases hgen.symm.trans hgen'
      rw [hopen] at hc'
      cases hc'

theorem recorded_of_reachable (hr : providerSystem.Reachable r) : r.Recorded := by
  refine System.Reachable.invariant (P := Recorded) ?_ ?_ hr
  · rintro _ rfl
    exact recorded_init
  · rintro r op _ _ ih rfl
    exact ih.next op

theorem Recorded.phased (hr : r.Recorded) : r.Phased := by
  intro g gen hgen
  have hs := hr.kept.structured
  have hcurrent : r.manager.InPhase g .current ↔ gen.retired = false := by
    refine ⟨fun h => ?_, fun h => ⟨hs.current hgen h, not_isRetired hgen h⟩⟩
    rw [← Bool.not_eq_true]
    exact fun hret => h.2 ⟨gen, hgen, hret⟩
  have hwaiting : r.manager.InPhase g .waiting ↔ gen.retired = true ∧ gen.closed = false := by
    refine hs.listed.trans ?_
    simp [hgen]
  have hclosed : r.manager.InPhase g .closed ↔ gen.closed = true := by
    simp [InPhase, hgen]
  have hcleaning : gen.closed = true → gen.retired = true := fun h => hs.cleaning hgen (Or.inl h)
  cases hret : gen.retired with
  | false =>
    refine ⟨.current, hcurrent.mpr hret, ?_⟩
    rintro (_ | _ | _) h
    · rfl
    · cases hret.symm.trans (hwaiting.mp h).1
    · cases hret.symm.trans (hcleaning (hclosed.mp h))
  | true =>
    cases hopen : gen.closed with
    | false =>
      refine ⟨.waiting, hwaiting.mpr ⟨hret, hopen⟩, ?_⟩
      rintro (_ | _ | _) h
      · cases hret.symm.trans (hcurrent.mp h)
      · rfl
      · cases hopen.symm.trans (hclosed.mp h)
    | true =>
      refine ⟨.closed, hclosed.mpr hopen, ?_⟩
      rintro (_ | _ | _) h
      · cases hret.symm.trans (hcurrent.mp h)
      · cases hopen.symm.trans (hwaiting.mp h).2
      · rfl

/-- A generation whose cleanup is arranged or has begun has no user, and gets none. -/
def Settled (r : ProviderRun) : Prop :=
  ∀ g, r.manager.Arranged g ∨ g ∈ r.begun → r.manager.activeLeases g = 0 ∧ ¬ r.manager.Pending g

theorem Recorded.isRetired (hr : r.Recorded) (h : r.manager.Arranged g ∨ g ∈ r.begun) :
    r.manager.IsRetired g := by
  rcases h with ⟨gen, hgen, hc⟩ | h
  · exact ⟨gen, hgen, hr.kept.structured.cleaning hgen (Or.inr hc)⟩
  · exact hr.begun g h

theorem Settled.next (hs : r.Settled) (hr : r.Recorded) {op : ProviderOp}
    (hfresh : FreshCleanup r op) : (r.next op).Settled := by
  intro g hg
  have hsteady := ProviderOp.steady_apply hr.kept op
  have hretired : (op.apply r.manager).IsRetired g := (hr.next op).isRetired hg
  have hpending : (op.apply r.manager).Pending g → r.manager.Pending g := fun h =>
    (hsteady.pending h).resolve_right (not_not.mpr hretired)
  -- the generation was settled already, or this step closes it
  have hsplit : (r.manager.Arranged g ∨ g ∈ r.begun) ∨
      op.closes r.manager = some g ∧ (op.apply r.manager).activeLeases g = 0 := by
    rcases hg with harr | hbegun
    · exact (hsteady.arranged harr).imp_left Or.inl
    · exact Or.inl (begun_next op hbegun).symm
  rcases hsplit with hold | ⟨hcloses, h0⟩
  · obtain ⟨h0, hnot⟩ := hs g hold
    refine ⟨Nat.le_zero.mp ?_, fun h => hnot (hpending h)⟩
    rw [← h0]
    exact hsteady.users (hr.isRetired hold) hnot
  · exact ⟨h0, fun h => hfresh g hcloses (hpending h)⟩

theorem settled_of_reach (hr : providerSystem.Reach FreshCleanup r) : r.Settled := by
  refine System.Reach.invariant (P := Settled) ?_ ?_ hr
  · rintro _ rfl g (⟨gen, hgen, hc⟩ | hg)
    · have hget : ProviderRuntimeManager.new.generation g = if g = 1 then some {} else none :=
        Dict.get?_set _ _ _ _
      rw [hget] at hgen
      split_ifs at hgen
      cases hgen
      exact absurd rfl hc
    · cases hg
  · rintro r op _ hreach ih hfresh rfl
    exact ih.next (recorded_of_reachable hreach.reachable) hfresh

theorem Settled.unused (hs : r.Settled) (hr : r.Recorded) : r.Unused := by
  intro g hg
  have huses : r.manager.uses g = 0 := by
    rw [← hr.kept.counted]
    exact (hs g (Or.inr hg)).1
  unfold uses at huses
  refine ⟨fun h => ?_, fun task htask hgen hphase => ?_, fun h => ?_⟩
  · have hpos := List.count_pos_iff.mpr h
    omega
  · have hpos : 0 < r.manager.tasks.countP (runningOn g) :=
      List.countP_pos_iff.mpr ⟨task, htask, by simp [runningOn, hgen, hphase]⟩
    omega
  · cases hsection : r.manager.lockSection with
    | refreshing k =>
      rw [hsection] at h huses
      cases h
      simp at huses
    | connecting k =>
      -- under the lock of a running manager the current generation is not retired
      have hclosing := hr.kept.locked false (by rw [hsection]; rfl)
      obtain ⟨gen, hgen, hretired⟩ := hr.begun g hg
      rw [hr.kept.holds g h] at hgen
      rw [hr.kept.structured.opened hclosing hgen] at hretired
      cases hretired
    | _ =>
      rw [hsection] at h
      exact h

/-- Along every run the phases of the generations are exclusive and no cleanup succeeds
twice; a generation is not used once its cleanup has begun if all cleanups are fresh. -/
theorem generation_lifecycle (hr : providerSystem.Reachable r) :
    r.Phased ∧ r.succeeded.Nodup ∧ (providerSystem.Reach FreshCleanup r → r.Unused) := by
  have hrecorded := recorded_of_reachable hr
  exact ⟨hrecorded.phased, hrecorded.once, fun h => (settled_of_reach h).unused hrecorded⟩

/-! ## A refresh that outlives its generation -/

section Example

/-- While a replacement waits for the first refresh task, a second one is made for the
old generation; it begins after the publication and before the cleanup. -/
def lateRefresh : List ProviderOp :=
  [.startModelListRefresh, .beginRefresh 0, .enter .replace, .endRefresh 0,
    .startModelListRefresh, .advance true, .advance true, .advance true, .beginRefresh 1,
    .beginCleanup 1]

theorem refresh_during_cleanup : ¬ ∀ r, providerSystem.Reachable r → r.Unused := by
  intro h
  have hunused := h _ (.foldl (fun _ _ => rfl) lateRefresh (.start rfl))
  have hbegun : (lateRefresh.foldl next {}).begun = [1] := by decide +kernel
  have htask : (⟨1, .running, false⟩ : RefreshTask) ∈
      (lateRefresh.foldl next {}).manager.tasks := by decide +kernel
  exact (hunused 1 (by rw [hbegun]; decide)).2.1 _ htask rfl rfl

instance (m : ProviderRuntimeManager) (g : ℕ) : Decidable (m.Pending g) :=
  inferInstanceAs (Decidable (∃ task ∈ m.tasks, _))

instance (r : ProviderRun) (op : ProviderOp) : Decidable (FreshCleanup r op) :=
  decidable_of_iff ((op.closes r.manager).all fun g => ¬ r.manager.Pending g) (by
    unfold FreshCleanup
    cases op.closes r.manager <;> simp)

/-- A replacement while a lease is held; its release closes the old generation. -/
def leasedReplacement : List ProviderOp :=
  [.acquire, .enter .replace, .advance true, .advance true, .advance true, .beginRefresh 0,
    .release 1, .beginCleanup 1]

theorem generation_lifecycle_sample :
    (leasedReplacement.foldl next {}).begun = [1] ∧ (leasedReplacement.foldl next {}).Unused := by
  have hreach : providerSystem.Reach FreshCleanup (leasedReplacement.foldl next {}) := by
    have hfresh : ∀ k < 8, FreshCleanup ((leasedReplacement.take k).foldl next {})
        (leasedReplacement.getD k .acquire) := by decide +kernel
    have hinit : providerSystem.Reach FreshCleanup {} := .start rfl
    exact hinit.next (hfresh 0 (by decide)) rfl |>.next (hfresh 1 (by decide)) rfl
      |>.next (hfresh 2 (by decide)) rfl |>.next (hfresh 3 (by decide)) rfl
      |>.next (hfresh 4 (by decide)) rfl |>.next (hfresh 5 (by decide)) rfl
      |>.next (hfresh 6 (by decide)) rfl |>.next (hfresh 7 (by decide)) rfl
  exact ⟨by decide +kernel, (generation_lifecycle hreach.reachable).2.2 hreach⟩

end Example

end ProviderRun

end Switchboard.Runtime
