import Mathlib.Data.Finset.Basic
import Mathlib.Data.List.Perm.Basic
import Switchboard.Runtime.GenerationCleanup

/-!
# Candidates of a replacement

The part of `replace` and `close` about runtimes that are built but not published. A
candidate whose commit fails is cleaned up, and kept in `_unpublished` when that fails
or is cancelled; later replacements and `close` try again. `manager` is the state of the
rest, which this layer only moves on.
-/

namespace Switchboard.Runtime

/-- How a call ends: it returns, raises an `Exception`, or another exception such as a
cancellation leaves it. -/
inductive CallOutcome where
  | returned
  | failed
  | cancelled
deriving DecidableEq, Repr

/-- Where a call of `_retry_unpublished_cleanup` or `_cleanup_unpublished` is. -/
inductive CleanupLoop where
  | idle
  | next (rest : List ℕ) (allClosed : Bool)
  | cleaning (runtime : ℕ) (rest : List ℕ) (allClosed : Bool)
  /-- The cleanup of a candidate whose commit failed. -/
  | undoing (runtime : ℕ)
deriving DecidableEq, Repr

structure CandidateManager (κ : Type) where
  manager : ProviderRuntimeManager := .new
  /-- The settings of the current generation. -/
  settings : κ
  connected : Finset String := ∅
  /-- The provider scope of the model cache. -/
  available : Finset String
  /-- How many runtimes were built, and which of them a generation owns. -/
  runtimes : ℕ := 1
  published : List ℕ := [0]
  unpublished : List ℕ := []
  cleaned : List ℕ := []
  replaceLoop : CleanupLoop := .idle
  closeLoop : CleanupLoop := .idle
  /-- The current generation, the next id and the settings when the lock was last free. -/
  entered : ℕ × ℕ × κ

/-- A step of the manager, or of the cleanup of candidates. -/
inductive CandidateOp (κ : Type) where
  | manager (op : ProviderOp)
  /-- `replace` begins `_retry_unpublished_cleanup`; a set has no order. -/
  | retry (order : List ℕ)
  | beginCleanup
  | endCleanup (o : CallOutcome)
  /-- `replace` builds its candidate and commits. -/
  | prepare (settings : κ) (factory commit : CallOutcome)
  | closeRetry (order : List ℕ)
  | closeBeginCleanup
  | closeEndCleanup (o : CallOutcome)
  | closeEnd
  /-- `_synchronize_model_cache_scope` -/
  | synchronize
  /-- The connected accounts change. -/
  | connect (ids : Finset String)
  | addProvider (id : String)
  | removeProvider (id : String)

namespace CandidateManager

variable {κ : Type}

/-- `_cleanup_unpublished` puts the runtime in the set before it calls `cleanup`. -/
def beginLoop (s : CandidateManager κ) (runtime : ℕ) : CandidateManager κ :=
  { s with
    unpublished := if runtime ∈ s.unpublished then s.unpublished else s.unpublished ++ [runtime] }

/-- `runtime.cleanup()` has returned: the runtime leaves the set. -/
def discard (s : CandidateManager κ) (runtime : ℕ) : CandidateManager κ :=
  { s with
    unpublished := s.unpublished.filter fun r => r ≠ runtime
    cleaned := s.cleaned ++ [runtime] }

/-- The end of one cleanup, but for the loop itself. -/
def endLoop (s : CandidateManager κ) (runtime : ℕ) : CallOutcome → CandidateManager κ
  | .returned => s.discard runtime
  | .failed | .cancelled => s

/-- `replace` raises and gives the lock back. -/
def giveUp (s : CandidateManager κ) : CandidateManager κ :=
  { s with manager := s.manager.advance false, replaceLoop := .idle }

/-- Steps of the manager that belong to this layer are taken by its own operations. -/
def passes (s : CandidateManager κ) : ProviderOp → Bool
  | .advance _ | .abandon => s.manager.lockSection ≠ .replacePreparing
  | .advanceClose _ => match s.manager.shutdown with
    | .closing [] _ => false
    | _ => true
  | .abandonClose => s.closeLoop = .idle
  | _ => true

/-- `close` waits for nothing but the candidates. -/
def closesCandidates (s : CandidateManager κ) : Bool :=
  match s.manager.shutdown with
  | .closing [] generations => generations.all s.manager.cleaned
  | _ => false

/-- The section of `replace` from the factory to the publication. -/
def prepare (providerIds : κ → Finset String → Finset String) (s : CandidateManager κ)
    (settings : κ) : CallOutcome → CallOutcome → CandidateManager κ
  | .returned, .returned =>
    { s with
      manager := s.manager.advance true
      settings := settings
      available := providerIds settings s.connected
      runtimes := s.runtimes + 1
      published := s.published ++ [s.runtimes]
      replaceLoop := .idle }
  | .returned, .failed =>
    let s := beginLoop { s with runtimes := s.runtimes + 1 } s.runtimes
    { s with replaceLoop := .undoing (s.runtimes - 1) }
  -- `except Exception` does not see it
  | .returned, .cancelled => giveUp { s with runtimes := s.runtimes + 1 }
  | .failed, _ | .cancelled, _ => s.giveUp

def step (providerIds : κ → Finset String → Finset String) (s : CandidateManager κ) :
    CandidateOp κ → Option (CandidateManager κ)
  | .manager op =>
    if s.passes op then
      some
        { s with
          manager := op.apply s.manager
          entered := if s.manager.lockSection = .free then
              (s.manager.current, s.manager.nextGenerationId, s.settings)
            else s.entered }
    else none
  | .retry order =>
    if s.manager.lockSection = .replacePreparing ∧ s.replaceLoop = .idle ∧
        order.Perm s.unpublished then
      some { s with replaceLoop := .next order true }
    else none
  | .beginCleanup => match s.replaceLoop with
    | .next (r :: rest) allClosed =>
      some { s.beginLoop r with replaceLoop := .cleaning r rest allClosed }
    | _ => none
  | .endCleanup o => match s.replaceLoop, o with
    | .cleaning r _ _, .cancelled => some (s.endLoop r .cancelled).giveUp
    | .cleaning r rest allClosed, o =>
      some { s.endLoop r o with replaceLoop := .next rest (allClosed && o = .returned) }
    | .undoing r, o => some (s.endLoop r o).giveUp
    | _, _ => none
  | .prepare settings factory commit => match s.replaceLoop with
    | .next [] _ => some (s.prepare providerIds settings factory commit)
    | _ => none
  | .closeRetry order =>
    if s.closesCandidates ∧ s.closeLoop = .idle ∧ order.Perm s.unpublished then
      some { s with closeLoop := .next order true }
    else none
  | .closeBeginCleanup => match s.closeLoop with
    | .next (r :: rest) allClosed =>
      some { s.beginLoop r with closeLoop := .cleaning r rest allClosed }
    | _ => none
  | .closeEndCleanup o => match s.closeLoop, o with
    | .cleaning r _ _, .cancelled =>
      some { s.endLoop r .cancelled with
        manager := s.manager.abandonClose, closeLoop := .idle }
    | .cleaning r rest allClosed, o =>
      some { s.endLoop r o with closeLoop := .next rest (allClosed && o = .returned) }
    | _, _ => none
  | .closeEnd => match s.closeLoop with
    | .next [] allClosed =>
      some { s with manager := s.manager.advanceClose allClosed, closeLoop := .idle }
    | _ => none
  | .synchronize => some { s with available := providerIds s.settings s.connected }
  | .connect ids => some { s with connected := ids }
  | .addProvider id => match s.manager.lockSection with
    | .connecting _ => some { s with available := insert id s.available }
    | _ => none
  | .removeProvider id => match s.manager.lockSection with
    | .connecting _ => some { s with available := s.available.erase id }
    | _ => none

def new (providerIds : κ → Finset String → Finset String) (settings : κ)
    (connected : Finset String) : CandidateManager κ where
  settings := settings
  connected := connected
  available := providerIds settings connected
  entered := (1, 2, settings)

end CandidateManager

/-- Runs of a manager with its candidates. `providerIds` stands for
`model_cache_provider_ids_for_settings`. -/
def candidateSystem {κ : Type} (providerIds : κ → Finset String → Finset String) :
    System (CandidateManager κ) (CandidateOp κ) where
  init s := ∃ settings connected, s = .new providerIds settings connected
  step s op t := s.step providerIds op = some t

namespace ProviderRuntimeManager

variable {m m' : ProviderRuntimeManager} {g t : ℕ}

/-! ## What a step of the manager leaves alone -/

/-- The current generation, the next id and the section under the lock are the same. -/
structure SameCourse (m m' : ProviderRuntimeManager) : Prop where
  current : m'.current = m.current
  nextId : m'.nextGenerationId = m.nextGenerationId

theorem SameCourse.trans {m'' : ProviderRuntimeManager} (h : m.SameCourse m')
    (h' : m'.SameCourse m'') : m.SameCourse m'' :=
  ⟨h'.current.trans h.current, h'.nextId.trans h.nextId⟩

theorem sameCourse_release (m : ProviderRuntimeManager) (g : ℕ) :
    m.SameCourse (m.release g) ∧ (m.release g).lockSection = m.lockSection := by
  obtain ⟨-, -, hsection, -, hcurrent, hnext, -⟩ := release_users m g
  exact ⟨⟨hcurrent, hnext⟩, hsection⟩

theorem sameCourse_cancelRefresh (m : ProviderRuntimeManager) :
    m.SameCourse m.cancelRefresh.2 :=
  ⟨(kept_cancelRefresh m).2.1, (kept_cancelRefresh m).2.2.1⟩

theorem sameCourse_advance (commits : Bool)
    (h : commits = true → m.lockSection ≠ .replacePreparing) :
    m.SameCourse (m.advance commits) := by
  unfold advance
  split
  case h_6 hs =>
    split_ifs with hc
    · exact absurd hs (h hc)
    · exact ⟨rfl, rfl⟩
  case h_9 g hs => exact ⟨(sameCourse_release m g).1.current, (sameCourse_release m g).1.nextId⟩
  case h_12 =>
    split_ifs <;> exact ⟨rfl, rfl⟩
  all_goals first | exact ⟨rfl, rfl⟩ | (split_ifs <;> exact ⟨rfl, rfl⟩)

end ProviderRuntimeManager

open ProviderRuntimeManager

/-- No step of the manager but a publication changes the current generation. -/
theorem ProviderOp.sameCourse_apply {m : ProviderRuntimeManager} (op : ProviderOp)
    (h : op = .advance true → m.lockSection ≠ .replacePreparing) :
    m.SameCourse (op.apply m) := by
  cases op with
  | acquire =>
    simp only [apply, ProviderRuntimeManager.acquire]
    split_ifs <;> exact ⟨rfl, rfl⟩
  | release g =>
    simp only [apply]
    split_ifs
    · exact ⟨(sameCourse_release m g).1.current, (sameCourse_release m g).1.nextId⟩
    · exact ⟨rfl, rfl⟩
  | startModelListRefresh =>
    simp only [apply, ProviderRuntimeManager.startModelListRefresh]
    split_ifs <;> exact ⟨rfl, rfl⟩
  | beginRefresh t =>
    simp only [apply, ProviderRuntimeManager.beginRefresh]
    repeat' split
    all_goals exact ⟨rfl, rfl⟩
  | endRefresh t =>
    simp only [apply, ProviderRuntimeManager.endRefresh]
    split
    · exact ⟨rfl, rfl⟩
    · next task ht =>
      have hrelease := (sameCourse_release m task.generation).1
      split_ifs <;> first | exact ⟨rfl, rfl⟩ | exact ⟨hrelease.current, hrelease.nextId⟩
  | leaveRefresh t =>
    simp only [apply, ProviderRuntimeManager.leaveRefresh]
    repeat' split
    all_goals exact ⟨rfl, rfl⟩
  | beginCleanup g => exact ⟨rfl, rfl⟩
  | endCleanup g succeeded =>
    simp only [apply, ProviderRuntimeManager.endCleanup]
    repeat' split
    all_goals exact ⟨rfl, rfl⟩
  | enter call =>
    simp only [apply, ProviderRuntimeManager.enter]
    split_ifs
    · exact ⟨rfl, rfl⟩
    · cases call with
      | connectedProviderChanged => exact ⟨rfl, rfl⟩
      | _ => exact ⟨(sameCourse_cancelRefresh m).current, (sameCourse_cancelRefresh m).nextId⟩
  | enterClose =>
    simp only [apply, ProviderRuntimeManager.enterClose]
    split_ifs
    · exact ⟨rfl, rfl⟩
    · exact ⟨(sameCourse_cancelRefresh _).current, (sameCourse_cancelRefresh _).nextId⟩
  | advance commits =>
    refine sameCourse_advance commits fun hc => h ?_
    rw [hc]
  | abandon =>
    simp only [apply, ProviderRuntimeManager.abandon]
    split
    · next g hs => exact sameCourse_advance true (by simp [hs])
    · exact ⟨rfl, rfl⟩
  | seeDrained g =>
    simp only [apply, ProviderRuntimeManager.seeDrained]
    repeat' split
    all_goals exact ⟨rfl, rfl⟩
  | advanceClose unpublishedClosed =>
    simp only [apply, ProviderRuntimeManager.advanceClose]
    repeat' split
    all_goals exact ⟨rfl, rfl⟩
  | abandonClose => exact ⟨rfl, rfl⟩

/-- While a call holds the lock, only its own steps move it on. -/
theorem ProviderOp.lockSection_apply {m : ProviderRuntimeManager} (op : ProviderOp)
    (hheld : m.lockSection ≠ .free) (ha : ∀ c, op ≠ .advance c) (hb : op ≠ .abandon) :
    (op.apply m).lockSection = m.lockSection := by
  cases op with
  | advance commits => exact absurd rfl (ha commits)
  | abandon => exact absurd rfl hb
  | acquire =>
    simp only [apply, ProviderRuntimeManager.acquire]
    split_ifs <;> rfl
  | release g =>
    simp only [apply]
    split_ifs
    · exact (sameCourse_release m g).2
    · rfl
  | startModelListRefresh =>
    simp only [apply, ProviderRuntimeManager.startModelListRefresh]
    split_ifs <;> rfl
  | endRefresh t =>
    simp only [apply, ProviderRuntimeManager.endRefresh]
    split
    · rfl
    · next task ht =>
      have hrelease := (sameCourse_release m task.generation).2
      split_ifs <;> first | rfl | exact hrelease
  | enter call =>
    simp only [apply, ProviderRuntimeManager.enter]
    rw [if_pos (.inl hheld)]
  | enterClose =>
    simp only [apply, ProviderRuntimeManager.enterClose]
    rw [if_pos (.inl hheld)]
  | beginCleanup g | abandonClose => rfl
  | beginRefresh t | leaveRefresh t | endCleanup g succeeded | seeDrained g
  | advanceClose unpublishedClosed =>
    simp only [apply, ProviderRuntimeManager.beginRefresh, ProviderRuntimeManager.leaveRefresh,
      ProviderRuntimeManager.endCleanup, ProviderRuntimeManager.seeDrained,
      ProviderRuntimeManager.advanceClose]
    repeat' split
    all_goals rfl

/-! ## Leases -/

namespace ProviderRuntimeManager

variable {m m' : ProviderRuntimeManager} {g : ℕ}

/-- A generation that is closed has the cleanup task that closed it. -/
def Cleaned (m : ProviderRuntimeManager) : Prop :=
  ∀ g gen, m.generation g = some gen → gen.closed = true → gen.cleanupTask ≠ none

/-- A lease retains a generation for which no cleanup was begun. -/
def LeasesValid (m : ProviderRuntimeManager) : Prop :=
  ∀ g ∈ m.leases, ∃ gen, m.generation g = some gen ∧ gen.closed = false ∧ gen.cleanupTask = none

theorem Cleaned.congr (hm : m.Cleaned) (h : m'.generations = m.generations) : m'.Cleaned := by
  intro g gen hg
  have hsame : m'.generation g = m.generation g := by rw [generation, generation, h]
  exact hm g gen (hsame ▸ hg)

theorem Cleaned.update (hm : m.Cleaned) {f : ProviderGeneration → ProviderGeneration}
    (hf : ∀ gen, m.generation g = some gen → (gen.closed = true → gen.cleanupTask ≠ none) →
      (f gen).closed = true → (f gen).cleanupTask ≠ none) : (m.update g f).Cleaned := by
  intro h gen hh hclosed
  rw [generation_update] at hh
  split_ifs at hh with hg
  · obtain ⟨old, hold, rfl⟩ := Option.map_eq_some_iff.mp hh
    exact hf old hold (hm g old hold) hclosed
  · exact hm h gen hh hclosed

theorem Cleaned.retain (hm : m.Cleaned) : (m.retain g).Cleaned := hm.update fun _ _ h => h

theorem Cleaned.closeGeneration (hm : m.Cleaned) : (m.closeGeneration g).Cleaned := by
  refine hm.update fun gen _ h => ?_
  split_ifs
  · simp
  · exact h

theorem Cleaned.release (hm : m.Cleaned) : (m.release g).Cleaned := by
  have hdrop : (m.dropUse g).Cleaned := hm.update fun _ _ h => h
  unfold ProviderRuntimeManager.release
  split
  · exact hm
  · split_ifs
    · exact hm
    · exact hdrop.closeGeneration
    · exact hdrop

theorem Cleaned.retireCurrent (hm : m.Cleaned) : m.retireCurrent.Cleaned := by
  have hretired : (m.update m.current fun gen => { gen with retired := true }).Cleaned :=
    hm.update fun _ _ h => h
  exact hretired.congr rfl

theorem Cleaned.publishCandidate (hm : m.Cleaned) : m.publishCandidate.Cleaned := by
  intro h gen hh hclosed
  have hget : m.publishCandidate.generation h =
      if h = m.nextGenerationId then some {} else m.retireCurrent.generation h :=
    Dict.get?_set _ _ _ _
  rw [hget] at hh
  split_ifs at hh
  · cases hh
    cases hclosed
  · exact hm.retireCurrent h gen hh hclosed

theorem Cleaned.advance (hm : m.Cleaned) (commits : Bool) : (m.advance commits).Cleaned := by
  unfold ProviderRuntimeManager.advance
  split
  case h_4 g rest hs =>
    split_ifs
    · exact hm.congr rfl
    · exact (hm.closeGeneration (g := g)).congr rfl
  case h_6 hs =>
    split_ifs
    · unfold publish
      split_ifs
      · exact (hm.publishCandidate.closeGeneration (g := m.current)).congr rfl
      · exact hm.publishCandidate.congr rfl
    · exact hm.congr rfl
  case h_8 task hs =>
    split_ifs
    · exact hm.congr rfl
    · exact (hm.retain (g := m.current)).congr rfl
    · exact hm
  case h_9 g hs => exact (hm.release (g := g)).congr rfl
  case h_12 task hs =>
    split_ifs
    · exact hm.congr rfl
    · exact hm.retireCurrent.congr rfl
    · exact hm
  all_goals first | exact hm | (split_ifs <;> exact hm)

end ProviderRuntimeManager

theorem ProviderOp.cleaned_apply {m : ProviderRuntimeManager} (hm : m.Cleaned)
    (hs : m.Structured) (op : ProviderOp) : (op.apply m).Cleaned := by
  cases op with
  | acquire =>
    simp only [apply, ProviderRuntimeManager.acquire]
    split_ifs
    · exact hm
    · exact (hm.retain (g := m.current)).congr rfl
  | release g =>
    simp only [apply]
    split_ifs
    · exact (hm.release (g := g)).congr rfl
    · exact hm
  | startModelListRefresh =>
    simp only [apply, ProviderRuntimeManager.startModelListRefresh]
    split_ifs <;> exact hm
  | beginRefresh t =>
    simp only [apply, ProviderRuntimeManager.beginRefresh]
    split
    · exact hm
    · next task ht =>
      split_ifs
      · exact hm
      · exact hm.congr rfl
      · split
        · exact hm
        · split_ifs
          · exact hm.congr rfl
          · exact (hm.retain (g := task.generation)).congr rfl
  | endRefresh t =>
    simp only [apply, ProviderRuntimeManager.endRefresh]
    split
    · exact hm
    · next task ht =>
      have hrelease := hm.release (g := task.generation)
      split_ifs <;> first | exact hm | exact hrelease.congr rfl
  | leaveRefresh t =>
    simp only [apply, ProviderRuntimeManager.leaveRefresh]
    repeat' split
    all_goals exact hm
  | beginCleanup g =>
    refine hm.update fun gen _ h => ?_
    split_ifs
    · simp
    · exact h
  | endCleanup g succeeded =>
    simp only [apply, ProviderRuntimeManager.endCleanup]
    split
    · exact hm
    · next gen hg =>
      split_ifs with hrunning
      · exact hm
      · have hclosed : (m.update g fun gen =>
            { gen with closed := true, cleanupTask := some .finished }).Cleaned :=
          hm.update fun _ _ _ => by simp
        exact hclosed.congr rfl
      · refine hm.update fun old hold _ hclosed => ?_
        obtain rfl := Option.some.inj (hg.symm.trans hold)
        have hbusy := hs.busy hg (.inr (not_not.mp hrunning))
        exact absurd hclosed (by simp [hbusy])
  | enter call =>
    simp only [apply, ProviderRuntimeManager.enter]
    split_ifs
    · exact hm
    · cases call with
      | connectedProviderChanged => exact hm.congr rfl
      | _ => exact hm.congr (kept_cancelRefresh m).1
  | enterClose =>
    simp only [apply, ProviderRuntimeManager.enterClose]
    split_ifs
    · exact hm
    · exact hm.congr (kept_cancelRefresh _).1
  | advance commits => exact hm.advance commits
  | abandon =>
    simp only [apply, ProviderRuntimeManager.abandon]
    split
    · exact hm.advance true
    · exact hm.congr rfl
  | seeDrained g =>
    simp only [apply, ProviderRuntimeManager.seeDrained]
    repeat' split
    all_goals exact hm
  | advanceClose unpublishedClosed =>
    simp only [apply, ProviderRuntimeManager.advanceClose]
    split
    case h_4 g rest generations hs => exact (hm.closeGeneration (g := g)).congr rfl
    all_goals first | exact hm | (split_ifs <;> exact hm)
  | abandonClose => exact hm.congr rfl

namespace ProviderRuntimeManager

theorem cancelRefresh_leases (m : ProviderRuntimeManager) :
    m.cancelRefresh.2.leases = m.leases := by
  unfold cancelRefresh
  split
  · rfl
  · split
    · rfl
    · split_ifs <;> rfl

theorem advance_leases (m : ProviderRuntimeManager) (commits : Bool) :
    (m.advance commits).leases = m.leases := by
  unfold advance
  split
  case h_6 =>
    unfold publish
    split_ifs <;> rfl
  case h_9 g hs => exact (release_users m g).1
  all_goals first | rfl | (split_ifs <;> rfl)

end ProviderRuntimeManager

/-- Only `acquire` makes a lease, and only `release` ends one. -/
theorem ProviderOp.leases_apply {m : ProviderRuntimeManager} (op : ProviderOp)
    (ha : op ≠ .acquire) (hr : ∀ g, op ≠ .release g) : (op.apply m).leases = m.leases := by
  cases op with
  | acquire => exact absurd rfl ha
  | release g => exact absurd rfl (hr g)
  | startModelListRefresh =>
    simp only [apply, ProviderRuntimeManager.startModelListRefresh]
    split_ifs <;> rfl
  | endRefresh t =>
    simp only [apply, ProviderRuntimeManager.endRefresh]
    split
    · rfl
    · next task ht =>
      have hrelease := (release_users m task.generation).1
      split_ifs <;> first | rfl | exact hrelease
  | beginCleanup g | abandonClose => rfl
  | beginRefresh t | leaveRefresh t | endCleanup g succeeded | seeDrained g
  | advanceClose unpublishedClosed =>
    simp only [apply, ProviderRuntimeManager.beginRefresh, ProviderRuntimeManager.leaveRefresh,
      ProviderRuntimeManager.endCleanup, ProviderRuntimeManager.seeDrained,
      ProviderRuntimeManager.advanceClose]
    repeat' split
    all_goals rfl
  | enter call =>
    simp only [apply, ProviderRuntimeManager.enter]
    split_ifs
    · rfl
    · cases call with
      | connectedProviderChanged => rfl
      | _ => exact cancelRefresh_leases m
  | enterClose =>
    simp only [apply, ProviderRuntimeManager.enterClose]
    split_ifs
    · rfl
    · exact cancelRefresh_leases _
  | advance commits => exact advance_leases m commits
  | abandon =>
    simp only [apply, ProviderRuntimeManager.abandon]
    split
    · exact advance_leases m true
    · rfl

/-- The step lemma for leases. -/
theorem ProviderOp.valid_apply {m : ProviderRuntimeManager} (hm : m.Kept) (hc : m.Cleaned)
    (hv : m.LeasesValid) (op : ProviderOp) : (op.apply m).LeasesValid := by
  obtain ⟨hkept, hgrows⟩ := op.kept_apply hm
  have hcleaned := op.cleaned_apply hc hm.structured
  -- a lease that was there before keeps its generation
  have hold : ∀ g ∈ (op.apply m).leases, g ∈ m.leases → ∃ gen, (op.apply m).generation g =
      some gen ∧ gen.closed = false ∧ gen.cleanupTask = none := by
    intro g hg hbefore
    obtain ⟨gen, hgen, -, htask⟩ := hv g hbefore
    obtain ⟨gen', hgen', -⟩ := hgrows.kept hgen
    have htask' : gen'.cleanupTask = none := by
      by_contra hne
      have hused : (op.apply m).activeLeases g ≠ 0 := by
        rw [hkept.counted, uses]
        have hpos := List.count_pos_iff.mpr hg
        omega
      rcases (op.steady_apply hm).arranged ⟨gen', hgen', hne⟩ with ⟨gen₀, hgen₀, hne₀⟩ | ⟨-, hzero⟩
      · obtain rfl := Option.some.inj (hgen.symm.trans hgen₀)
        exact hne₀ htask
      · exact hused hzero
    refine ⟨gen', hgen', ?_, htask'⟩
    by_contra hclosed
    exact hcleaned g gen' hgen' (Bool.eq_true_of_not_eq_false hclosed) htask'
  intro g hg
  by_cases hacquire : op = .acquire
  · subst hacquire
    simp only [apply, ProviderRuntimeManager.acquire] at hg hold ⊢
    split_ifs at hg hold ⊢ with hclosing
    · exact hold g hg hg
    · rcases List.mem_cons.mp hg with rfl | hbefore
      · obtain ⟨gen, hgen⟩ := hm.structured.present
        have hopen := hm.structured.opened (by simpa using (not_or.mp hclosing).1) hgen
        have hidle : ¬ (gen.closed = true ∨ gen.cleanupTask ≠ none) := fun h => by
          rw [hm.structured.cleaning hgen h] at hopen
          cases hopen
        refine ⟨{ gen with activeLeases := gen.activeLeases + 1, drained := false }, ?_, ?_, ?_⟩
        · show (m.retain m.current).generation m.current = _
          simp [retain, hgen]
        · simpa using (not_or.mp hidle).1
        · simpa using (not_or.mp hidle).2
      · exact hold g hg hbefore
  · by_cases hrelease : ∃ g, op = .release g
    · obtain ⟨h, rfl⟩ := hrelease
      refine hold g hg ?_
      simp only [apply] at hg
      split_ifs at hg
      · exact List.mem_of_mem_erase hg
      · exact hg
    · refine hold g hg ?_
      rwa [op.leases_apply hacquire (by simpa using hrelease)] at hg

/-! ## Who owns a runtime -/

/-- `replace` has the lock and has not published its candidate. -/
def LockSection.replacing : LockSection → Bool
  | .replaceCancelling _ | .replaceRetrying _ | .replaceAwaiting .. | .replacePreparing => true
  | _ => false

def CleanupLoop.runtimes : CleanupLoop → List ℕ
  | .idle => []
  | .next rest _ => rest
  | .cleaning r rest _ => r :: rest
  | .undoing r => [r]

namespace CandidateOp

variable {κ : Type}

/-- The candidate is published. -/
def publishes : CandidateOp κ → Bool
  | .prepare _ .returned .returned => true
  | _ => false

/-- The commit is left by an exception that is no `Exception`. -/
def drops : CandidateOp κ → Bool
  | .prepare _ .returned .cancelled => true
  | _ => false

end CandidateOp

theorem ProviderOp.replacing_apply {m : ProviderRuntimeManager} (op : ProviderOp)
    (hheld : m.lockSection ≠ .free) (hr : (op.apply m).lockSection.replacing = true) :
    m.lockSection.replacing = true := by
  by_cases ha : ∃ c, op = .advance c
  · obtain ⟨c, rfl⟩ := ha
    simp only [apply, ProviderRuntimeManager.advance] at hr
    split at hr
    case h_1 hs => exact absurd hs hheld
    case h_7 g hs =>
      split_ifs at hr
      · cases hr
      · exact hr
    case h_8 task hs =>
      split_ifs at hr
      · cases hr
      · cases hr
      · exact hr
    case h_9 g hs =>
      dsimp only at hr
      split_ifs at hr <;> cases hr
    case h_10 g hs =>
      split_ifs at hr
      · cases hr
      · exact hr
    case h_11 => cases hr
    case h_12 task hs =>
      split_ifs at hr <;> first | cases hr | exact hr
    all_goals
      next hs =>
      rw [hs]
      rfl
  · by_cases hb : op = .abandon
    · subst hb
      simp only [apply, ProviderRuntimeManager.abandon] at hr
      split at hr
      · next g hs =>
        simp only [ProviderRuntimeManager.advance, hs] at hr
        split_ifs at hr <;> cases hr
      · cases hr
    · rwa [op.lockSection_apply hheld (by simpa using ha) hb] at hr

namespace CandidateManager

variable {κ : Type} {providerIds : κ → Finset String → Finset String}
  {s t : CandidateManager κ} {op : CandidateOp κ} {r : ℕ}

/-- The runtime is published, cleaned up, or kept for a later cleanup. -/
def Tracked (s : CandidateManager κ) (r : ℕ) : Prop :=
  r ∈ s.published ∨ r ∈ s.cleaned ∨ r ∈ s.unpublished

/-- No runtime was dropped. -/
def Accounted (s : CandidateManager κ) : Prop := ∀ r < s.runtimes, s.Tracked r

/-- What every run keeps. -/
structure Owned (s : CandidateManager κ) : Prop where
  kept : s.manager.Kept
  cleaned : s.manager.Cleaned
  leases : s.manager.LeasesValid
  held : s.replaceLoop ≠ .idle → s.manager.lockSection = .replacePreparing
  entered : s.manager.lockSection.replacing = true →
    s.entered = (s.manager.current, s.manager.nextGenerationId, s.settings)
  fresh : ∀ r, s.Tracked r → r < s.runtimes
  loops : ∀ r ∈ s.replaceLoop.runtimes ++ s.closeLoop.runtimes, s.Tracked r

/-- A step that builds no runtime keeps track of the same ones. -/
structure SameRuntimes (s t : CandidateManager κ) : Prop where
  runtimes : t.runtimes = s.runtimes
  tracked : ∀ r, t.Tracked r ↔ s.Tracked r

theorem SameRuntimes.trans {u : CandidateManager κ} (h : SameRuntimes s t)
    (h' : SameRuntimes t u) : SameRuntimes s u :=
  ⟨h'.runtimes.trans h.runtimes, fun r => (h'.tracked r).trans (h.tracked r)⟩

theorem sameRuntimes_of_eq (hr : t.runtimes = s.runtimes) (hp : t.published = s.published)
    (hu : t.unpublished = s.unpublished) (hc : t.cleaned = s.cleaned) : SameRuntimes s t :=
  ⟨hr, fun r => by rw [Tracked, Tracked, hp, hu, hc]⟩

theorem tracked_beginLoop (h : s.Tracked r) : SameRuntimes s (s.beginLoop r) := by
  refine ⟨rfl, fun q => ?_⟩
  simp only [Tracked, beginLoop]
  split_ifs with hr
  · rfl
  · constructor
    · rintro (hq | hq | hq)
      · exact .inl hq
      · exact .inr (.inl hq)
      · rcases List.mem_append.mp hq with hq | hq
        · exact .inr (.inr hq)
        · obtain rfl := List.mem_singleton.mp hq
          exact h
    · rintro (hq | hq | hq)
      · exact .inl hq
      · exact .inr (.inl hq)
      · exact .inr (.inr (List.mem_append_left _ hq))

theorem tracked_endLoop (h : s.Tracked r) (o : CallOutcome) : SameRuntimes s (s.endLoop r o) := by
  cases o with
  | returned =>
    refine ⟨rfl, fun q => ?_⟩
    simp only [Tracked, endLoop, discard, List.mem_append, List.mem_filter, List.mem_singleton,
      decide_eq_true_eq]
    by_cases hq : q = r
    · subst hq
      exact iff_of_true (.inr (.inl (.inr rfl))) h
    · simp [hq]
  | failed | cancelled => exact sameRuntimes_of_eq rfl rfl rfl rfl

theorem endLoop_manager (o : CallOutcome) : (s.endLoop r o).manager = s.manager := by
  cases o <;> rfl

/-- A step moves the manager on by one of its own steps. -/
theorem step_manager (h : s.step providerIds op = some t) :
    t.manager = s.manager ∨ ∃ o : ProviderOp, t.manager = o.apply s.manager := by
  cases op with
  | manager o =>
    simp only [step] at h
    split at h
    · cases h
      exact .inr ⟨o, rfl⟩
    · cases h
  | prepare settings factory commit =>
    simp only [step] at h
    split at h
    · cases h
      unfold prepare
      split
      · exact .inr ⟨.advance true, rfl⟩
      · exact .inl rfl
      · exact .inr ⟨.advance false, rfl⟩
      · exact .inr ⟨.advance false, rfl⟩
      · exact .inr ⟨.advance false, rfl⟩
    · cases h
  | endCleanup o =>
    simp only [step] at h
    split at h
    · cases h
      exact .inr ⟨.advance false, rfl⟩
    · cases h
      exact .inl (endLoop_manager _)
    · cases h
      exact .inr ⟨.advance false, congrArg (·.advance false) (endLoop_manager _)⟩
    · cases h
  | closeEndCleanup o =>
    simp only [step] at h
    split at h
    · cases h
      exact .inr ⟨.abandonClose, rfl⟩
    · cases h
      exact .inl (endLoop_manager _)
    · cases h
  | closeEnd =>
    simp only [step] at h
    split at h
    · next allClosed _ =>
      cases h
      exact .inr ⟨.advanceClose allClosed, rfl⟩
    · cases h
  | retry order | closeRetry order =>
    simp only [step] at h
    split_ifs at h
    cases h
    exact .inl rfl
  | beginCleanup | closeBeginCleanup | addProvider id | removeProvider id =>
    simp only [step] at h
    split at h
    · cases h
      exact .inl rfl
    · cases h
  | synchronize | connect ids =>
    cases h
    exact .inl rfl

theorem sameRuntimes_giveUp : SameRuntimes s s.giveUp := sameRuntimes_of_eq rfl rfl rfl rfl

/-- A new runtime is tracked unless the step drops it. -/
structure BuildsOne (op : CandidateOp κ) (s t : CandidateManager κ) : Prop where
  runtimes : t.runtimes = s.runtimes + 1
  tracked : ∀ r, t.Tracked r ↔ s.Tracked r ∨ r = s.runtimes ∧ op.drops = false

theorem prepare_runtimes (settings : κ) (factory commit : CallOutcome) :
    SameRuntimes s (s.prepare providerIds settings factory commit) ∧
        (CandidateOp.prepare settings factory commit).drops = false ∨
      BuildsOne (.prepare settings factory commit) s
        (s.prepare providerIds settings factory commit) := by
  unfold prepare
  split
  · refine .inr ⟨rfl, fun r => ?_⟩
    simp only [Tracked, List.mem_append, List.mem_singleton, CandidateOp.drops]
    tauto
  · refine .inr ⟨rfl, fun r => ?_⟩
    simp only [Tracked, beginLoop, CandidateOp.drops, and_true]
    split_ifs with hr
    · constructor
      · exact .inl
      · rintro (h | rfl)
        · exact h
        · exact .inr (.inr hr)
    · simp only [List.mem_append, List.mem_singleton]
      tauto
  · refine .inr ⟨rfl, fun r => ?_⟩
    simp [CandidateOp.drops, Tracked, giveUp]
  · exact .inl ⟨sameRuntimes_giveUp, rfl⟩
  · exact .inl ⟨sameRuntimes_giveUp, rfl⟩

theorem Owned.step_runtimes (hs : s.Owned) (h : s.step providerIds op = some t) :
    SameRuntimes s t ∧ op.drops = false ∨ BuildsOne op s t := by
  cases op with
  | prepare settings factory commit =>
    simp only [step] at h
    split at h
    · cases h
      exact prepare_runtimes settings factory commit
    · cases h
  | manager o =>
    simp only [step] at h
    split at h
    · cases h
      exact .inl ⟨sameRuntimes_of_eq rfl rfl rfl rfl, rfl⟩
    · cases h
  | beginCleanup =>
    simp only [step] at h
    split at h
    · next r rest allClosed hloop =>
      cases h
      have hr : s.Tracked r := hs.loops r (by simp [hloop, CleanupLoop.runtimes])
      exact .inl ⟨(tracked_beginLoop hr).trans (sameRuntimes_of_eq rfl rfl rfl rfl), rfl⟩
    · cases h
  | closeBeginCleanup =>
    simp only [step] at h
    split at h
    · next r rest allClosed hloop =>
      cases h
      have hr : s.Tracked r := hs.loops r (by simp [hloop, CleanupLoop.runtimes])
      exact .inl ⟨(tracked_beginLoop hr).trans (sameRuntimes_of_eq rfl rfl rfl rfl), rfl⟩
    · cases h
  | endCleanup o =>
    simp only [step] at h
    split at h
    case h_1 r rest allClosed hloop =>
      cases h
      exact .inl ⟨sameRuntimes_giveUp, rfl⟩
    case h_2 r rest allClosed hloop hne =>
      cases h
      have hr : s.Tracked r := hs.loops r (by simp [hloop, CleanupLoop.runtimes])
      exact .inl ⟨(tracked_endLoop hr _).trans (sameRuntimes_of_eq rfl rfl rfl rfl), rfl⟩
    case h_3 r hloop =>
      cases h
      have hr : s.Tracked r := hs.loops r (by simp [hloop, CleanupLoop.runtimes])
      exact .inl ⟨(tracked_endLoop hr _).trans sameRuntimes_giveUp, rfl⟩
    case h_4 => cases h
  | closeEndCleanup o =>
    simp only [step] at h
    split at h
    case h_1 r rest allClosed hloop =>
      cases h
      exact .inl ⟨sameRuntimes_of_eq rfl rfl rfl rfl, rfl⟩
    case h_2 r rest allClosed hloop hne =>
      cases h
      have hr : s.Tracked r := hs.loops r (by simp [hloop, CleanupLoop.runtimes])
      exact .inl ⟨(tracked_endLoop hr _).trans (sameRuntimes_of_eq rfl rfl rfl rfl), rfl⟩
    case h_3 => cases h
  | retry order | closeRetry order =>
    simp only [step] at h
    split_ifs at h
    cases h
    exact .inl ⟨sameRuntimes_of_eq rfl rfl rfl rfl, rfl⟩
  | closeEnd | addProvider id | removeProvider id =>
    simp only [step] at h
    split at h
    · cases h
      exact .inl ⟨sameRuntimes_of_eq rfl rfl rfl rfl, rfl⟩
    · cases h
  | synchronize | connect ids =>
    cases h
    exact .inl ⟨sameRuntimes_of_eq rfl rfl rfl rfl, rfl⟩

/-- Every runtime that was tracked is tracked after a step. -/
theorem Owned.tracked_step (hs : s.Owned) (h : s.step providerIds op = some t)
    (hr : s.Tracked r) : t.Tracked r := by
  rcases hs.step_runtimes h with ⟨hsame, -⟩ | hbuilt
  · exact (hsame.tracked r).mpr hr
  · exact (hbuilt.tracked r).mpr (.inl hr)

theorem endLoop_closeLoop (o : CallOutcome) : (s.endLoop r o).closeLoop = s.closeLoop := by
  cases o <;> rfl

theorem endLoop_replaceLoop (o : CallOutcome) : (s.endLoop r o).replaceLoop = s.replaceLoop := by
  cases o <;> rfl

/-- What `replace` has to clean up was in its loop or in the set, or is its candidate. -/
theorem replaceLoop_step (h : s.step providerIds op = some t)
    (hr : r ∈ t.replaceLoop.runtimes) :
    r ∈ s.replaceLoop.runtimes ∨ r ∈ s.unpublished ∨ t.Tracked r := by
  cases op with
  | retry order =>
    simp only [step] at h
    split_ifs at h with hguard
    cases h
    exact .inr (.inl (hguard.2.2.mem_iff.mp hr))
  | beginCleanup =>
    simp only [step] at h
    split at h
    · next q rest allClosed hloop =>
      cases h
      rw [hloop]
      exact .inl hr
    · cases h
  | endCleanup o =>
    simp only [step] at h
    split at h
    case h_2 q rest allClosed hloop hne =>
      cases h
      rw [hloop]
      exact .inl (List.mem_cons_of_mem _ hr)
    case h_4 => cases h
    all_goals
      cases h
      cases hr
  | prepare settings factory commit =>
    simp only [step] at h
    split at h
    · cases h
      unfold prepare at hr ⊢
      split at hr
      case h_2 =>
        obtain rfl := List.mem_singleton.mp hr
        refine .inr (.inr (.inr (.inr ?_)))
        simp only [beginLoop, Nat.add_sub_cancel]
        split_ifs with hmem
        · exact hmem
        · exact List.mem_append_right _ (List.mem_singleton_self _)
      all_goals cases hr
    · cases h
  | manager o | closeBeginCleanup | closeEnd | addProvider id | removeProvider id =>
    simp only [step] at h
    split at h
    · cases h
      exact .inl hr
    · cases h
  | closeEndCleanup o =>
    simp only [step] at h
    split at h
    · cases h
      exact .inl hr
    · cases h
      exact .inl ((endLoop_replaceLoop (s := s) _) ▸ hr)
    · cases h
  | closeRetry order =>
    simp only [step] at h
    split_ifs at h
    cases h
    exact .inl hr
  | synchronize | connect ids =>
    cases h
    exact .inl hr

/-- What `close` has to clean up was in its loop or in the set. -/
theorem closeLoop_step (h : s.step providerIds op = some t) (hr : r ∈ t.closeLoop.runtimes) :
    r ∈ s.closeLoop.runtimes ∨ r ∈ s.unpublished := by
  cases op with
  | closeRetry order =>
    simp only [step] at h
    split_ifs at h with hguard
    cases h
    exact .inr (hguard.2.2.mem_iff.mp hr)
  | closeBeginCleanup =>
    simp only [step] at h
    split at h
    · next q rest allClosed hloop =>
      cases h
      rw [hloop]
      exact .inl hr
    · cases h
  | closeEndCleanup o =>
    simp only [step] at h
    split at h
    · cases h
      cases hr
    · next q rest allClosed hloop hne =>
      cases h
      rw [hloop]
      exact .inl (List.mem_cons_of_mem _ hr)
    · cases h
  | closeEnd =>
    simp only [step] at h
    split at h
    · cases h
      cases hr
    · cases h
  | prepare settings factory commit =>
    simp only [step] at h
    split at h
    · cases h
      unfold prepare at hr
      split at hr <;> exact .inl hr
    · cases h
  | endCleanup o =>
    simp only [step] at h
    split at h
    · cases h
      exact .inl hr
    · cases h
      exact .inl ((endLoop_closeLoop (s := s) _) ▸ hr)
    · cases h
      exact .inl ((endLoop_closeLoop (s := s) _) ▸ hr)
    · cases h
  | manager o | beginCleanup | addProvider id | removeProvider id =>
    simp only [step] at h
    split at h
    · cases h
      exact .inl hr
    · cases h
  | retry order =>
    simp only [step] at h
    split_ifs at h
    cases h
    exact .inl hr
  | synchronize | connect ids =>
    cases h
    exact .inl hr

theorem Owned.loops_step (hs : s.Owned) (h : s.step providerIds op = some t) :
    ∀ r ∈ t.replaceLoop.runtimes ++ t.closeLoop.runtimes, t.Tracked r := by
  intro r hr
  rcases List.mem_append.mp hr with hr | hr
  · rcases replaceLoop_step h hr with hr | hr | hr
    · exact hs.tracked_step h (hs.loops r (List.mem_append_left _ hr))
    · exact hs.tracked_step h (.inr (.inr hr))
    · exact hr
  · rcases closeLoop_step h hr with hr | hr
    · exact hs.tracked_step h (hs.loops r (List.mem_append_right _ hr))
    · exact hs.tracked_step h (.inr (.inr hr))

/-! ## The section of a replacement -/

/-- A step of the manager that passes leaves the section of a replacement alone. -/
theorem passes_held {o : ProviderOp} (ho : s.passes o = true)
    (hs : s.manager.lockSection = .replacePreparing) :
    (o.apply s.manager).lockSection = .replacePreparing := by
  rw [o.lockSection_apply (by simp [hs]) ?_ ?_, hs]
  · rintro c rfl
    simp [passes, hs] at ho
  · rintro rfl
    simp [passes, hs] at ho

theorem Owned.held_step (hs : s.Owned) (h : s.step providerIds op = some t)
    (hloop : t.replaceLoop ≠ .idle) : t.manager.lockSection = .replacePreparing := by
  cases op with
  | manager o =>
    simp only [step] at h
    split at h
    · next ho =>
      cases h
      exact passes_held ho (hs.held hloop)
    · cases h
  | retry order =>
    simp only [step] at h
    split_ifs at h with hguard
    cases h
    exact hguard.1
  | beginCleanup =>
    simp only [step] at h
    split at h
    · next hnext =>
      cases h
      exact hs.held (by simp [hnext])
    · cases h
  | endCleanup o =>
    simp only [step] at h
    split at h
    case h_2 hcleaning hne =>
      cases h
      rw [← hs.held (by simp [hcleaning])]
      exact congrArg (·.lockSection) (endLoop_manager _)
    case h_4 => cases h
    all_goals
      cases h
      exact absurd rfl hloop
  | prepare settings factory commit =>
    simp only [step] at h
    split at h
    · next hnext =>
      cases h
      unfold prepare at hloop ⊢
      split at hloop
      case h_2 => exact hs.held (by simp [hnext])
      all_goals exact absurd rfl hloop
    · cases h
  | closeEndCleanup o =>
    simp only [step] at h
    split at h
    · cases h
      exact hs.held hloop
    · cases h
      rw [← hs.held (by simpa [endLoop_replaceLoop] using hloop)]
      exact congrArg (·.lockSection) (endLoop_manager _)
    · cases h
  | closeEnd =>
    simp only [step] at h
    split at h
    · next allClosed hnext =>
      cases h
      have hheld := hs.held hloop
      rw [← hheld]
      exact (ProviderOp.advanceClose allClosed).lockSection_apply (by simp [hheld]) (by simp)
        (by simp)
    · cases h
  | closeRetry order =>
    simp only [step] at h
    split_ifs at h
    cases h
    exact hs.held hloop
  | closeBeginCleanup | addProvider id | removeProvider id =>
    simp only [step] at h
    split at h
    · cases h
      exact hs.held hloop
    · cases h
  | synchronize | connect ids =>
    cases h
    exact hs.held hloop

theorem giveUp_free (hs : s.manager.lockSection = .replacePreparing) :
    s.giveUp.manager = { s.manager with lockSection := .free } := by
  simp [giveUp, ProviderRuntimeManager.advance, hs]

/-- The end of a cleanup changes the two lists alone. -/
theorem endLoop_eq (s : CandidateManager κ) (r : ℕ) (o : CallOutcome) :
    ∃ unpublished cleaned,
      s.endLoop r o = { s with unpublished := unpublished, cleaned := cleaned } := by
  cases o with
  | returned => exact ⟨_, _, rfl⟩
  | failed | cancelled => exact ⟨s.unpublished, s.cleaned, rfl⟩

theorem publish_notReplacing (m : ProviderRuntimeManager) :
    m.publish.lockSection.replacing = false := by
  unfold ProviderRuntimeManager.publish
  split_ifs <;> rfl

theorem advanceClose_lockSection (m : ProviderRuntimeManager) (b : Bool) :
    (m.advanceClose b).lockSection = m.lockSection := by
  unfold ProviderRuntimeManager.advanceClose
  repeat' split
  all_goals rfl

/-- A replacement holds what it met when it took the lock. -/
theorem Owned.entered_step (hs : s.Owned) (h : s.step providerIds op = some t)
    (hr : t.manager.lockSection.replacing = true) :
    t.entered = (t.manager.current, t.manager.nextGenerationId, t.settings) := by
  cases op with
  | manager o =>
    simp only [step] at h
    split at h
    · next ho =>
      cases h
      have hcourse : s.manager.SameCourse (o.apply s.manager) := by
        refine o.sameCourse_apply ?_
        rintro rfl
        simpa [passes] using ho
      rw [hcourse.current, hcourse.nextId]
      split_ifs with hfree
      · rfl
      · exact hs.entered (o.replacing_apply hfree hr)
    · cases h
  | prepare settings factory commit =>
    simp only [step] at h
    split at h
    · next hnext =>
      cases h
      have hheld := hs.held (by simp [hnext])
      unfold prepare at hr ⊢
      split at hr
      case h_1 =>
        simp [ProviderRuntimeManager.advance, hheld, publish_notReplacing] at hr
      case h_2 => exact hs.entered hr
      case h_3 =>
        rw [giveUp_free (by exact hheld)] at hr
        cases hr
      all_goals
        rw [giveUp_free hheld] at hr
        cases hr
    · cases h
  | endCleanup o =>
    simp only [step] at h
    split at h
    case h_1 hcleaning =>
      cases h
      rw [giveUp_free (by exact hs.held (by simp [hcleaning]))] at hr
      cases hr
    case h_2 o _ _ r rest allClosed hcleaning hne =>
      cases h
      obtain ⟨unpublished, cleaned, hend⟩ := endLoop_eq s r o
      rw [hend] at hr ⊢
      exact hs.entered hr
    case h_3 o _ _ r hundoing =>
      cases h
      obtain ⟨unpublished, cleaned, hend⟩ := endLoop_eq s r o
      rw [hend, giveUp_free (by exact hs.held (by simp [hundoing]))] at hr
      cases hr
    case h_4 => cases h
  | closeEndCleanup o =>
    simp only [step] at h
    split at h
    · cases h
      exact hs.entered hr
    · next o _ _ r rest allClosed hcleaning hne =>
      cases h
      obtain ⟨unpublished, cleaned, hend⟩ := endLoop_eq s r o
      rw [hend] at hr ⊢
      exact hs.entered hr
    · cases h
  | closeEnd =>
    simp only [step] at h
    split at h
    · next allClosed hnext =>
      cases h
      have hcourse := (ProviderOp.advanceClose allClosed).sameCourse_apply (m := s.manager)
        (by simp)
      have hsection : s.manager.lockSection.replacing = true := by
        rwa [← advanceClose_lockSection s.manager allClosed]
      rw [hs.entered hsection]
      exact (congrArg₂ (fun c n => (c, n, s.settings)) hcourse.current hcourse.nextId).symm
    · cases h
  | retry order | closeRetry order =>
    simp only [step] at h
    split_ifs at h
    cases h
    exact hs.entered hr
  | beginCleanup | closeBeginCleanup | addProvider id | removeProvider id =>
    simp only [step] at h
    split at h
    · cases h
      exact hs.entered hr
    · cases h
  | synchronize | connect ids =>
    cases h
    exact hs.entered hr

theorem owned_new (settings : κ) (connected : Finset String) :
    (new providerIds settings connected).Owned where
  kept := ProviderRun.recorded_init.kept
  cleaned := by
    intro g gen hg hclosed
    have hget : ProviderRuntimeManager.new.generation g = if g = 1 then some {} else none :=
      Dict.get?_set _ _ _ _
    have hgen : (if g = 1 then some {} else none) = some gen := hget.symm.trans hg
    split_ifs at hgen
    cases hgen
    cases hclosed
  leases := by
    intro g hg
    cases hg
  held h := absurd rfl h
  entered h := by cases h
  fresh := by
    intro r hr
    simpa [Tracked, new] using hr
  loops := by
    intro r hr
    cases hr

/-- The step lemma. -/
theorem Owned.step (hs : s.Owned) (h : s.step providerIds op = some t) : t.Owned where
  kept := by
    rcases step_manager h with hm | ⟨o, hm⟩
    · rw [hm]
      exact hs.kept
    · rw [hm]
      exact (o.kept_apply hs.kept).1
  cleaned := by
    rcases step_manager h with hm | ⟨o, hm⟩
    · rw [hm]
      exact hs.cleaned
    · rw [hm]
      exact o.cleaned_apply hs.cleaned hs.kept.structured
  leases := by
    rcases step_manager h with hm | ⟨o, hm⟩
    · rw [hm]
      exact hs.leases
    · rw [hm]
      exact o.valid_apply hs.kept hs.cleaned hs.leases
  held := hs.held_step h
  entered := hs.entered_step h
  fresh := by
    intro r hr
    rcases hs.step_runtimes h with ⟨hsame, -⟩ | hbuilt
    · rw [hsame.runtimes]
      exact hs.fresh r ((hsame.tracked r).mp hr)
    · rw [hbuilt.runtimes]
      rcases (hbuilt.tracked r).mp hr with hr | ⟨rfl, -⟩
      · exact (hs.fresh r hr).trans (Nat.lt_succ_self _)
      · exact Nat.lt_succ_self _
  loops := hs.loops_step h

theorem owned_of_reachable (h : (candidateSystem providerIds).Reachable s) : s.Owned :=
  h.invariant
    (fun _ ⟨settings, connected, hs⟩ => hs ▸ owned_new settings connected)
    (fun _ _ _ _ ho hstep => ho.step hstep)

/-- A step drops a runtime exactly if it builds one that nothing then owns. -/
theorem Owned.accounted_step (hs : s.Owned) (h : s.step providerIds op = some t) :
    t.Accounted ↔ s.Accounted ∧ op.drops = false := by
  rcases hs.step_runtimes h with ⟨hsame, hdrops⟩ | hbuilt
  · simp only [Accounted, hsame.runtimes, hsame.tracked, hdrops, and_true]
  · simp only [Accounted, hbuilt.runtimes, hbuilt.tracked]
    constructor
    · intro ht
      have hnew : op.drops = false := by
        rcases ht s.runtimes (Nat.lt_succ_self _) with hr | ⟨-, hdrops⟩
        · exact absurd (hs.fresh _ hr) (lt_irrefl _)
        · exact hdrops
      refine ⟨fun r hr => ?_, hnew⟩
      rcases ht r (hr.trans (Nat.lt_succ_self _)) with hr' | ⟨rfl, -⟩
      · exact hr'
      · exact absurd hr (lt_irrefl _)
    · rintro ⟨ht, hdrops⟩ r hr
      rcases Nat.lt_succ_iff_lt_or_eq.mp hr with hr | rfl
      · exact .inl (ht r hr)
      · exact .inr ⟨rfl, hdrops⟩

/-- The run lemma: a run accounts for its runtimes exactly if no step of it drops one. -/
theorem accounted_run {ls : List (CandidateOp κ)}
    (hs : (candidateSystem providerIds).Reachable s)
    (h : (candidateSystem providerIds).Run s ls t) :
    t.Accounted ↔ s.Accounted ∧ ∀ op ∈ ls, op.drops = false := by
  induction h with
  | nil => simp
  | cons hstep _ ih =>
    have hone := (owned_of_reachable hs).accounted_step hstep
    rw [ih (hs.next hstep), hone, List.forall_mem_cons, and_assoc]

/-- The steps that `replace` itself takes until its candidate is published. -/
def ofReplace (s : CandidateManager κ) : CandidateOp κ → Bool
  | .manager (.advance _) | .manager .abandon => s.manager.lockSection.replacing
  | .retry _ | .beginCleanup | .endCleanup _ => true
  | op@(.prepare ..) => !op.publishes
  | _ => false

/-- What a step of a replacement that does not publish leaves alone. -/
structure Untouched (s t : CandidateManager κ) : Prop where
  current : t.manager.current = s.manager.current
  nextId : t.manager.nextGenerationId = s.manager.nextGenerationId
  settings : t.settings = s.settings
  available : t.available = s.available
  leases : t.manager.leases = s.manager.leases

theorem Owned.untouched_step (hs : s.Owned) (h : s.step providerIds op = some t)
    (hop : s.ofReplace op = true) : s.Untouched t := by
  have hgiveUp : ∀ u : CandidateManager κ, u.manager.lockSection = .replacePreparing →
      u.Untouched u.giveUp := by
    intro u hu
    have hfree := giveUp_free hu
    exact ⟨by rw [hfree], by rw [hfree], rfl, rfl, by rw [hfree]⟩
  cases op with
  | manager o =>
    simp only [CandidateManager.step] at h
    split at h
    · next ho =>
      cases h
      have hcourse : s.manager.SameCourse (o.apply s.manager) := by
        refine o.sameCourse_apply ?_
        rintro rfl
        simpa [passes] using ho
      have hleases : (o.apply s.manager).leases = s.manager.leases := by
        refine o.leases_apply ?_ ?_
        · rintro rfl
          cases hop
        · rintro g rfl
          cases hop
      exact ⟨hcourse.current, hcourse.nextId, rfl, rfl, hleases⟩
    · cases h
  | prepare settings factory commit =>
    simp only [CandidateManager.step] at h
    split at h
    · next hnext =>
      cases h
      have hheld := hs.held (by simp [hnext])
      unfold prepare
      split
      · cases hop
      · exact ⟨rfl, rfl, rfl, rfl, rfl⟩
      · have hgone := hgiveUp { s with runtimes := s.runtimes + 1 } hheld
        exact ⟨hgone.current, hgone.nextId, rfl, rfl, hgone.leases⟩
      · exact hgiveUp s hheld
      · exact hgiveUp s hheld
    · cases h
  | endCleanup o =>
    simp only [CandidateManager.step] at h
    split at h
    case h_1 hcleaning =>
      cases h
      exact hgiveUp s (hs.held (by simp [hcleaning]))
    case h_2 o _ _ r rest allClosed hcleaning hne =>
      cases h
      obtain ⟨unpublished, cleaned, hend⟩ := endLoop_eq s r o
      rw [hend]
      exact ⟨rfl, rfl, rfl, rfl, rfl⟩
    case h_3 o _ _ r hundoing =>
      cases h
      have hheld := hs.held (by simp [hundoing])
      obtain ⟨unpublished, cleaned, hend⟩ := endLoop_eq s r o
      rw [hend]
      have hgone := hgiveUp { s with unpublished := unpublished, cleaned := cleaned } hheld
      exact ⟨hgone.current, hgone.nextId, rfl, rfl, hgone.leases⟩
    case h_4 => cases h
  | retry order =>
    simp only [CandidateManager.step] at h
    split_ifs at h
    cases h
    exact ⟨rfl, rfl, rfl, rfl, rfl⟩
  | beginCleanup =>
    simp only [CandidateManager.step] at h
    split at h
    · cases h
      exact ⟨rfl, rfl, rfl, rfl, rfl⟩
    · cases h
  | closeRetry _ | closeBeginCleanup | closeEndCleanup _ | closeEnd | synchronize | connect _
  | addProvider _ | removeProvider _ => cases hop

/-- A run keeps or cleans up every runtime it builds exactly if no commit is left by an
exception that is no `Exception`. Whatever fails, the current generation, the next id and the
settings are what `replace` met, and its own steps leave the catalog scope and the leases
alone. -/
theorem replace_atomic {ls : List (CandidateOp κ)}
    (hs : (candidateSystem providerIds).init s)
    (h : (candidateSystem providerIds).Run s ls t) :
    (t.Accounted ↔ ∀ op ∈ ls, op.drops = false) ∧ t.manager.LeasesValid ∧
      (t.manager.lockSection.replacing = true →
        t.entered = (t.manager.current, t.manager.nextGenerationId, t.settings)) ∧
      ∀ op u, t.step providerIds op = some u → t.ofReplace op = true → t.Untouched u := by
  have hreach : (candidateSystem providerIds).Reachable s := .start hs
  have howned : t.Owned := owned_of_reachable (h.reachable hreach)
  have hstart : s.Accounted := by
    obtain ⟨settings, connected, rfl⟩ := hs
    intro r hr
    simpa [Tracked, new] using hr
  refine ⟨?_, howned.leases, howned.entered, fun op u hstep hop => howned.untouched_step hstep hop⟩
  rw [accounted_run hreach h, and_iff_right hstart]

section Example

/-- Settings are the providers they configure. -/
abbrev unionIds (settings connected : Finset String) : Finset String := settings ∪ connected

/-- `replace` comes to its candidate when nothing is to be cleaned up. -/
def enterReplace (unpublished : List ℕ) : List (CandidateOp (Finset String)) :=
  [.manager (.enter .replace), .manager (.advance true), .manager (.advance true),
    .retry unpublished]

/-- A commit fails and the cleanup of its candidate is cancelled; the next replacement
cleans the candidate up. -/
def retriedCandidate : List (CandidateOp (Finset String)) :=
  enterReplace [] ++ [.prepare {"zai"} .returned .failed, .endCleanup .cancelled] ++
    enterReplace [1] ++ [.beginCleanup, .endCleanup .returned,
      .prepare {"kimi"} .returned .returned]

theorem replace_atomic_sample : ∃ t : CandidateManager (Finset String),
    t.published = [0, 2] ∧ t.cleaned = [1] ∧ t.manager.current = 2 ∧ t.available = {"kimi"} ∧
      t.Accounted := by
  have hfinal : (System.replay (step unionIds) (new unionIds ∅ ∅) retriedCandidate).any
      (fun t => t.published = [0, 2] ∧ t.cleaned = [1] ∧ t.manager.current = 2 ∧
        t.available = {"kimi"}) = true := by decide +kernel
  obtain ⟨t, ht, hshape⟩ := (Option.any_eq_true _ _).mp hfinal
  obtain ⟨hpublished, hcleaned, hcurrent, havailable⟩ := of_decide_eq_true hshape
  have hrun : (candidateSystem unionIds).Run (new unionIds ∅ ∅) (retriedCandidate.map id) t :=
    System.Run.replay (fun _ _ _ h => h) retriedCandidate ht
  have hdrops : ∀ op ∈ retriedCandidate.map id, op.drops = false := by decide +kernel
  exact ⟨t, hpublished, hcleaned, hcurrent, havailable,
    (replace_atomic ⟨∅, ∅, rfl⟩ hrun).1.mpr hdrops⟩

/-- A commit that is cancelled leaves a candidate that nothing owns. -/
theorem cancelled_commit_drops : ¬ ∀ t : CandidateManager (Finset String),
    (candidateSystem unionIds).Reachable t → t.Accounted := by
  intro h
  have hfinal : (System.replay (step unionIds) (new unionIds ∅ ∅)
      (enterReplace [] ++ [.prepare {"zai"} .returned .cancelled])).any
      (fun t => t.runtimes = 2 ∧ t.published = [0] ∧ t.cleaned = [] ∧ t.unpublished = []) =
        true := by decide +kernel
  obtain ⟨t, ht, hshape⟩ := (Option.any_eq_true _ _).mp hfinal
  obtain ⟨hbuilt, hpublished, hcleaned, hkept⟩ := of_decide_eq_true hshape
  have hreach : (candidateSystem unionIds).Reachable t :=
    System.Reachable.replay (fun _ a _ h => ⟨a, h⟩) (.start ⟨∅, ∅, rfl⟩) ht
  have hlost := h t hreach 1 (by omega)
  simp [Tracked, hpublished, hcleaned, hkept] at hlost

end Example

end CandidateManager

end Switchboard.Runtime
