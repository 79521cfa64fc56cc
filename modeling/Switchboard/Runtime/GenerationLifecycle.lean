import Switchboard.Runtime.ProviderManager

/-!
# The life of a provider generation

Every generation is current, retired and waiting, or closed, and a cleanup succeeds
at most once, along all runs. No generation is used once its cleanup has begun as
long as no refresh task of it waits for its first step when the cleanup is arranged.
-/

namespace Switchboard.Runtime

/-- What `_closing` is while the section lasts. -/
def LockSection.during : LockSection → Option Bool
  | .free => none
  | .shutdownCancelling _ => some true
  | _ => some false

/-- The call that holds the lock uses the generation. -/
def LockSection.On (g : ℕ) : LockSection → Prop
  | .refreshing h | .connecting h => h = g
  | _ => False

/-- The generations that the holder of the lock is still going to close. -/
def LockSection.targets : LockSection → List ℕ
  | .replaceRetrying rest | .replaceAwaiting _ rest => rest
  | _ => []

def Shutdown.targets : Shutdown → List ℕ
  | .idle => []
  | .draining _ generations => generations
  | .closing rest generations => rest ++ generations

namespace ProviderRuntimeManager

variable {m m' : ProviderRuntimeManager} {g h t : ℕ} {gen : ProviderGeneration}

@[simp] theorem generation_update (m : ProviderRuntimeManager) (g h : ℕ)
    (f : ProviderGeneration → ProviderGeneration) :
    (m.update g f).generation h = if h = g then (m.generation g).map f else m.generation h :=
  Dict.get?_modify _ _ _ _

/-! ## Uses -/

/-- The counter of a generation; an absent one has no user. -/
def activeLeases (m : ProviderRuntimeManager) (g : ℕ) : ℕ :=
  (m.generation g).elim 0 (·.activeLeases)

def runningOn (g : ℕ) (task : RefreshTask) : Bool := task.generation = g && task.phase = .running

/-- The leases of a generation, the background refreshes that run on it, and the
refresh that runs under the lock. -/
def uses (m : ProviderRuntimeManager) (g : ℕ) : ℕ :=
  m.leases.count g + m.tasks.countP (runningOn g) + if m.lockSection = .refreshing g then 1 else 0

/-- A refresh task of the generation that is going to begin. -/
def Pending (m : ProviderRuntimeManager) (g : ℕ) : Prop :=
  ∃ task ∈ m.tasks, task.generation = g ∧ task.phase = .created ∧ task.cancelled = false

theorem activeLeases_of (h : m.generation g = some gen) : m.activeLeases g = gen.activeLeases := by
  unfold activeLeases
  rw [h]
  rfl

theorem activeLeases_update (m : ProviderRuntimeManager) (g h : ℕ)
    (f : ProviderGeneration → ProviderGeneration)
    (hf : ∀ gen, (f gen).activeLeases = gen.activeLeases) :
    (m.update g f).activeLeases h = m.activeLeases h := by
  unfold activeLeases
  rw [generation_update]
  split_ifs with hh
  · rw [hh]
    cases m.generation g with
    | none => rfl
    | some gen => exact hf gen
  · rfl

theorem activeLeases_retain (hg : m.generation g = some gen) (h : ℕ) :
    (m.retain g).activeLeases h = m.activeLeases h + if h = g then 1 else 0 := by
  unfold activeLeases retain
  rw [generation_update]
  split_ifs with hh
  · rw [hh, hg]
    rfl
  · rfl

theorem activeLeases_closeGeneration (m : ProviderRuntimeManager) (g h : ℕ) :
    (m.closeGeneration g).activeLeases h = m.activeLeases h := by
  refine activeLeases_update m g h _ fun gen => ?_
  split_ifs <;> rfl

theorem activeLeases_dropUse (m : ProviderRuntimeManager) (g h : ℕ) :
    (m.dropUse g).activeLeases h = m.activeLeases h - if h = g then 1 else 0 := by
  unfold activeLeases dropUse
  rw [generation_update]
  split_ifs with hh
  · rw [hh]
    cases m.generation g <;> rfl
  · rfl

/-- A release does nothing, or counts one user less and may arrange the cleanup of a
retired generation. -/
theorem release_cases (m : ProviderRuntimeManager) (g : ℕ) :
    m.release g = m ∧ m.activeLeases g = 0 ∨ m.release g = m.dropUse g ∨
      (∃ gen, m.generation g = some gen ∧ gen.retired = true) ∧
        m.release g = (m.dropUse g).closeGeneration g := by
  unfold release activeLeases
  cases hg : m.generation g with
  | none => exact Or.inl ⟨rfl, rfl⟩
  | some gen =>
    simp only
    split_ifs with h0 hlast
    · exact Or.inl ⟨rfl, h0⟩
    · refine Or.inr (Or.inr ⟨⟨gen, rfl, ?_⟩, rfl⟩)
      unfold lastUse at hlast
      simp only [Bool.and_eq_true] at hlast
      exact hlast.1.2
    · exact Or.inr (Or.inl rfl)

theorem activeLeases_release (m : ProviderRuntimeManager) (g h : ℕ) :
    (m.release g).activeLeases h = m.activeLeases h - if h = g then 1 else 0 := by
  rcases release_cases m g with ⟨heq, h0⟩ | heq | ⟨-, heq⟩
  · rw [heq]
    split_ifs with hh
    · rw [hh, h0]
    · rfl
  · rw [heq, activeLeases_dropUse]
  · rw [heq, activeLeases_closeGeneration, activeLeases_dropUse]

/-! ## The states of the generations -/

/-- Generations stay, and what is retired or closed remains so. -/
structure Grows (m m' : ProviderRuntimeManager) : Prop where
  kept : ∀ {g gen}, m.generation g = some gen → ∃ gen', m'.generation g = some gen' ∧
    (gen.retired = true → gen'.retired = true) ∧ (gen.closed = true → gen'.closed = true)

theorem Grows.of_eq (h : m'.generations = m.generations) : m.Grows m' := by
  refine ⟨fun {g gen} hg => ⟨gen, ?_, id, id⟩⟩
  unfold generation at hg ⊢
  rw [h]
  exact hg

theorem Grows.trans {m'' : ProviderRuntimeManager} (h1 : m.Grows m') (h2 : m'.Grows m'') :
    m.Grows m'' := by
  refine ⟨fun hg => ?_⟩
  obtain ⟨gen', hg', hr, hc⟩ := h1.kept hg
  obtain ⟨gen'', hg'', hr', hc'⟩ := h2.kept hg'
  exact ⟨gen'', hg'', hr' ∘ hr, hc' ∘ hc⟩

theorem grows_update {f : ProviderGeneration → ProviderGeneration}
    (hr : ∀ gen, gen.retired = true → (f gen).retired = true)
    (hc : ∀ gen, gen.closed = true → (f gen).closed = true) : m.Grows (m.update g f) := by
  refine ⟨fun {h gen} hg => ?_⟩
  rw [generation_update]
  split_ifs with hh
  · rw [← hh, hg]
    exact ⟨f gen, rfl, hr gen, hc gen⟩
  · exact ⟨gen, hg, id, id⟩

/-- What holds of the generations of a manager, whoever uses them. -/
structure Structured (m : ProviderRuntimeManager) : Prop where
  present : ∃ gen, m.generation m.current = some gen
  bound : ∀ {g gen}, m.generation g = some gen → g < m.nextGenerationId
  current : ∀ {g gen}, m.generation g = some gen → gen.retired = false → g = m.current
  opened : ∀ {gen}, m.closing = false → m.generation m.current = some gen → gen.retired = false
  listed : ∀ {g}, g ∈ m.retired ↔
    ∃ gen, m.generation g = some gen ∧ gen.retired = true ∧ gen.closed = false
  cleaning : ∀ {g gen}, m.generation g = some gen → gen.closed = true ∨ gen.cleanupTask ≠ none →
    gen.retired = true
  busy : ∀ {g gen}, m.generation g = some gen →
    gen.cleanupTask = some .created ∨ gen.cleanupTask = some .running → gen.closed = false

theorem Structured.congr (hm : m.Structured) (hgen : m'.generations = m.generations)
    (hcurrent : m'.current = m.current) (hnext : m'.nextGenerationId = m.nextGenerationId)
    (hretired : m'.retired = m.retired) (hclosing : m.closing = true → m'.closing = true) :
    m'.Structured := by
  have hget : ∀ g, m'.generation g = m.generation g := by
    intro g
    unfold generation
    rw [hgen]
  refine ⟨?_, ?_, ?_, ?_, ?_, ?_, ?_⟩
  · rw [hget, hcurrent]
    exact hm.present
  · intro g gen hg
    rw [hnext]
    exact hm.bound (hget g ▸ hg)
  · intro g gen hg hr
    rw [hcurrent]
    exact hm.current (hget g ▸ hg) hr
  · intro gen hc hg
    rw [hget, hcurrent] at hg
    refine hm.opened ?_ hg
    rw [← Bool.not_eq_true] at hc ⊢
    exact fun h => hc (hclosing h)
  · intro g
    rw [hretired, hget]
    exact hm.listed
  · exact fun {g _} hg => hm.cleaning (hget g ▸ hg)
  · exact fun {g _} hg => hm.busy (hget g ▸ hg)

/-- A change that leaves `retired` and `closed` alone and arranges cleanups of retired
generations only. -/
theorem Structured.update (hm : m.Structured) {f : ProviderGeneration → ProviderGeneration}
    (hf : ∀ gen, m.generation g = some gen → (f gen).retired = gen.retired ∧
      (f gen).closed = gen.closed ∧
      ((f gen).cleanupTask ≠ none → gen.cleanupTask ≠ none ∨ gen.retired = true) ∧
      ((f gen).cleanupTask = some .created ∨ (f gen).cleanupTask = some .running →
        gen.closed = false)) : (m.update g f).Structured := by
  have hback : ∀ {h new}, (m.update g f).generation h = some new → ∃ old,
      m.generation h = some old ∧ new.retired = old.retired ∧ new.closed = old.closed ∧
      (new.cleanupTask ≠ none → old.cleanupTask ≠ none ∨ old.retired = true) ∧
      (new.cleanupTask = some .created ∨ new.cleanupTask = some .running →
        old.closed = false) := by
    intro h new hnew
    rw [generation_update] at hnew
    split_ifs at hnew with hh
    · obtain ⟨old, hold, rfl⟩ := Option.map_eq_some_iff.mp hnew
      exact ⟨old, hh ▸ hold, hf old hold⟩
    · exact ⟨new, hnew, rfl, rfl, Or.inl, hm.busy hnew⟩
  have hforth : ∀ {h old}, m.generation h = some old → ∃ new,
      (m.update g f).generation h = some new ∧ new.retired = old.retired ∧
        new.closed = old.closed := by
    intro h old hold
    rw [generation_update]
    split_ifs with hh
    · rw [hh] at hold
      exact ⟨f old, by rw [hold]; rfl, (hf old hold).1, (hf old hold).2.1⟩
    · exact ⟨old, hold, rfl, rfl⟩
  refine ⟨?_, ?_, ?_, ?_, ?_, ?_, ?_⟩
  · obtain ⟨gen, hg⟩ := hm.present
    obtain ⟨new, hnew, -⟩ := hforth hg
    exact ⟨new, hnew⟩
  · intro h new hnew
    obtain ⟨old, hold, -⟩ := hback hnew
    exact hm.bound hold
  · intro h new hnew hr
    obtain ⟨old, hold, hret, -⟩ := hback hnew
    exact hm.current hold (hret ▸ hr)
  · intro new hc hnew
    obtain ⟨old, hold, hret, -⟩ := hback hnew
    rw [hret]
    exact hm.opened hc hold
  · intro h
    refine hm.listed.trans ?_
    constructor
    · rintro ⟨old, hold, hr, hc⟩
      obtain ⟨new, hnew, hr', hc'⟩ := hforth hold
      exact ⟨new, hnew, hr'.trans hr, hc'.trans hc⟩
    · rintro ⟨new, hnew, hr, hc⟩
      obtain ⟨old, hold, hr', hc', -⟩ := hback hnew
      exact ⟨old, hold, hr' ▸ hr, hc' ▸ hc⟩
  · intro h new hnew hcl
    obtain ⟨old, hold, hr, hc, hclean, -⟩ := hback hnew
    rw [hr]
    rcases hcl with hcl | hcl
    · exact hm.cleaning hold (Or.inl (hc ▸ hcl))
    · rcases hclean hcl with h' | h'
      · exact hm.cleaning hold (Or.inr h')
      · exact h'
  · intro h new hnew hbusy
    obtain ⟨old, hold, -, hc, -, hb⟩ := hback hnew
    rw [hc]
    exact hb hbusy

theorem Structured.retain (hm : m.Structured) (g : ℕ) : (m.retain g).Structured :=
  hm.update fun _ hg => ⟨rfl, rfl, Or.inl, fun h => hm.busy hg h⟩

theorem Structured.dropUse (hm : m.Structured) (g : ℕ) : (m.dropUse g).Structured :=
  hm.update fun _ hg => ⟨rfl, rfl, Or.inl, fun h => hm.busy hg h⟩

def IsRetired (m : ProviderRuntimeManager) (g : ℕ) : Prop :=
  ∃ gen, m.generation g = some gen ∧ gen.retired = true

theorem Grows.isRetired (hgrow : m.Grows m') (h : m.IsRetired g) : m'.IsRetired g := by
  obtain ⟨gen, hg, hr⟩ := h
  obtain ⟨gen', hg', hr', -⟩ := hgrow.kept hg
  exact ⟨gen', hg', hr' hr⟩

theorem Structured.closeGeneration (hm : m.Structured) (hg : m.IsRetired g) :
    (m.closeGeneration g).Structured := by
  refine hm.update fun gen hgen => ?_
  obtain ⟨gen', hgen', hr⟩ := hg
  cases hgen.symm.trans hgen'
  split_ifs with hneeds
  · exact ⟨rfl, rfl, fun _ => Or.inr hr, fun _ => hneeds.1⟩
  · exact ⟨rfl, rfl, Or.inl, fun h => hm.busy hgen h⟩

theorem grows_retain (m : ProviderRuntimeManager) (g : ℕ) : m.Grows (m.retain g) :=
  grows_update (fun _ => id) fun _ => id

theorem grows_dropUse (m : ProviderRuntimeManager) (g : ℕ) : m.Grows (m.dropUse g) :=
  grows_update (fun _ => id) fun _ => id

theorem grows_closeGeneration (m : ProviderRuntimeManager) (g : ℕ) :
    m.Grows (m.closeGeneration g) := by
  refine grows_update (fun gen hr => ?_) fun gen hc => ?_
  · split_ifs <;> exact hr
  · split_ifs <;> exact hc

theorem grows_release (m : ProviderRuntimeManager) (g : ℕ) : m.Grows (m.release g) := by
  rcases release_cases m g with ⟨heq, -⟩ | heq | ⟨-, heq⟩
  · rw [heq]
    exact .of_eq rfl
  · rw [heq]
    exact grows_dropUse m g
  · rw [heq]
    exact (grows_dropUse m g).trans (grows_closeGeneration _ g)

theorem Structured.release (hm : m.Structured) (g : ℕ) : (m.release g).Structured := by
  rcases release_cases m g with ⟨heq, -⟩ | heq | ⟨hr, heq⟩
  · rw [heq]
    exact hm
  · rw [heq]
    exact hm.dropUse g
  · rw [heq]
    exact (hm.dropUse g).closeGeneration ((grows_dropUse m g).isRetired hr)

theorem Structured.beginCleanup (hm : m.Structured) (g : ℕ) : (m.beginCleanup g).Structured := by
  refine hm.update fun gen hgen => ?_
  split_ifs with hcreated
  · refine ⟨rfl, rfl, fun _ => Or.inl ?_, fun _ => hm.busy hgen (Or.inl hcreated)⟩
    rw [hcreated]
    simp
  · exact ⟨rfl, rfl, Or.inl, fun h => hm.busy hgen h⟩

theorem grows_beginCleanup (m : ProviderRuntimeManager) (g : ℕ) : m.Grows (m.beginCleanup g) := by
  refine grows_update (fun gen hr => ?_) fun gen hc => ?_
  · split_ifs <;> exact hr
  · split_ifs <;> exact hc

theorem Structured.endCleanup (hm : m.Structured) (g : ℕ) (succeeded : Bool) :
    (m.endCleanup g succeeded).Structured := by
  unfold ProviderRuntimeManager.endCleanup
  cases hgen : m.generation g with
  | none => exact hm
  | some gen =>
    simp only
    split_ifs with hrun hok
    · exact hm
    · -- the generation is closed and leaves the retired ones
      have hget : ∀ h, ({ m.update g fun gen => { gen with
          closed := true, cleanupTask := some .finished } with
          retired := m.retired.filter fun h => h ≠ g } : ProviderRuntimeManager).generation h =
            if h = g then some { gen with closed := true, cleanupTask := some .finished }
            else m.generation h := by
        intro h
        refine (generation_update m g h _).trans ?_
        rw [hgen]
        rfl
      have hret : gen.retired = true := by
        refine hm.cleaning hgen (Or.inr ?_)
        rw [not_not.mp hrun]
        simp
      refine ⟨?_, ?_, ?_, ?_, ?_, ?_, ?_⟩
      · obtain ⟨cur, hcur⟩ := hm.present
        rw [hget]
        split_ifs
        · exact ⟨_, rfl⟩
        · exact ⟨cur, hcur⟩
      · intro h new hnew
        rw [hget] at hnew
        split_ifs at hnew with hh
        · rw [hh]
          exact hm.bound hgen
        · exact hm.bound hnew
      · intro h new hnew hr
        rw [hget] at hnew
        split_ifs at hnew with hh
        · cases hnew
          rw [hret] at hr
          cases hr
        · exact hm.current hnew hr
      · intro new hc hnew
        rw [hget] at hnew
        split_ifs at hnew with hh
        · have hopen := hm.opened hc (hh ▸ hgen)
          rw [hret] at hopen
          cases hopen
        · exact hm.opened hc hnew
      · intro h
        rw [hget, List.mem_filter, hm.listed, decide_eq_true_eq]
        split_ifs with hh
        · simp [hh]
        · simp [hh]
      · intro h new hnew hcl
        rw [hget] at hnew
        split_ifs at hnew with hh
        · cases hnew
          exact hret
        · exact hm.cleaning hnew hcl
      · intro h new hnew hbusy
        rw [hget] at hnew
        split_ifs at hnew with hh
        · cases hnew
          simp at hbusy
        · exact hm.busy hnew hbusy
    · exact hm.update fun gen hgen => ⟨rfl, rfl, by simp, by simp⟩

theorem grows_endCleanup (m : ProviderRuntimeManager) (g : ℕ) (succeeded : Bool) :
    m.Grows (m.endCleanup g succeeded) := by
  unfold ProviderRuntimeManager.endCleanup
  cases m.generation g with
  | none => exact .of_eq rfl
  | some gen =>
    simp only
    split_ifs
    · exact .of_eq rfl
    · have hclosed : m.Grows (m.update g fun gen =>
          { gen with closed := true, cleanupTask := some .finished }) :=
        grows_update (fun _ => id) fun _ _ => rfl
      exact hclosed.trans (.of_eq rfl)
    · exact grows_update (fun _ => id) fun _ => id

theorem generation_publishCandidate (m : ProviderRuntimeManager) (h : ℕ) :
    m.publishCandidate.generation h = if h = m.nextGenerationId then some {}
      else if h = m.current then
        (m.generation m.current).map fun gen => { gen with retired := true }
      else m.generation h := by
  refine (Dict.get?_set _ _ _ _).trans ?_
  split_ifs with h1 h2
  · rfl
  · exact (generation_update m m.current h _).trans (if_pos h2)
  · exact (generation_update m m.current h _).trans (if_neg h2)

theorem grows_retireCurrent (m : ProviderRuntimeManager) : m.Grows m.retireCurrent := by
  have hret : m.Grows (m.update m.current fun gen => { gen with retired := true }) :=
    grows_update (fun _ _ => rfl) fun _ => id
  exact hret.trans (.of_eq rfl)

theorem grows_publishCandidate (hm : m.Structured) : m.Grows m.publishCandidate := by
  refine ⟨fun {h gen} hg => ?_⟩
  rw [generation_publishCandidate, if_neg (hm.bound hg).ne]
  split_ifs with hh
  · rw [← hh, hg]
    exact ⟨_, rfl, fun _ => rfl, id⟩
  · exact ⟨gen, hg, id, id⟩

theorem activeLeases_publishCandidate (hm : m.Structured) (g : ℕ) :
    m.publishCandidate.activeLeases g = m.activeLeases g := by
  unfold activeLeases
  rw [generation_publishCandidate]
  split_ifs with h1 h2
  · have hnone : m.generation g = none := by
      cases hg : m.generation g with
      | none => rfl
      | some gen => exact absurd h1 (hm.bound hg).ne
    rw [hnone]
    rfl
  · rw [h2]
    cases m.generation m.current <;> rfl
  · rfl

theorem Structured.publishCandidate (hm : m.Structured) (hclosing : m.closing = false) :
    m.publishCandidate.Structured := by
  obtain ⟨cur, hcur⟩ := hm.present
  have hopen : cur.closed = false := by
    have hr := hm.opened hclosing hcur
    rw [← Bool.not_eq_true] at hr ⊢
    exact fun hc => hr (hm.cleaning hcur (Or.inl hc))
  have hne : m.current ≠ m.nextGenerationId := (hm.bound hcur).ne
  have hget := generation_publishCandidate m
  rw [hcur] at hget
  have hback : ∀ {h new}, m.publishCandidate.generation h = some new →
      h = m.nextGenerationId ∧ new = {} ∨
        h = m.current ∧ new = { cur with retired := true } ∨
          h ≠ m.current ∧ m.generation h = some new := by
    intro h new hnew
    rw [hget] at hnew
    split_ifs at hnew with h1 h2
    · exact Or.inl ⟨h1, (Option.some.inj hnew).symm⟩
    · exact Or.inr (Or.inl ⟨h2, (Option.some.inj hnew).symm⟩)
    · exact Or.inr (Or.inr ⟨h2, hnew⟩)
  have hnew : m.publishCandidate.generation m.publishCandidate.current = some {} :=
    (hget _).trans (if_pos rfl)
  refine ⟨⟨{}, hnew⟩, ?_, ?_, ?_, ?_, ?_, ?_⟩
  · intro h new hnew
    change h < m.nextGenerationId + 1
    rcases hback hnew with ⟨rfl, -⟩ | ⟨rfl, -⟩ | ⟨-, hold⟩
    · exact Nat.lt_succ_self _
    · exact (hm.bound hcur).trans (Nat.lt_succ_self _)
    · exact (hm.bound hold).trans (Nat.lt_succ_self _)
  · intro h new hnew hr
    rcases hback hnew with ⟨rfl, -⟩ | ⟨-, rfl⟩ | ⟨hother, hold⟩
    · rfl
    · cases hr
    · exact absurd (hm.current hold hr) hother
  · intro new _ h
    cases hnew.symm.trans h
    rfl
  · intro h
    change h ∈ m.retired ++ [m.current] ↔ _
    rw [List.mem_append, List.mem_singleton, hm.listed]
    constructor
    · rintro (⟨gen, hg, hr, hc⟩ | rfl)
      · rw [hget, if_neg (hm.bound hg).ne]
        split_ifs with hh
        · rw [hh, hcur] at hg
          cases hg
          exact ⟨_, rfl, rfl, hc⟩
        · exact ⟨gen, hg, hr, hc⟩
      · rw [hget, if_neg hne, if_pos rfl]
        exact ⟨_, rfl, rfl, hopen⟩
    · rintro ⟨new, hnew, hr, hc⟩
      rcases hback hnew with ⟨-, rfl⟩ | ⟨rfl, -⟩ | ⟨-, hold⟩
      · cases hr
      · exact Or.inr rfl
      · exact Or.inl ⟨new, hold, hr, hc⟩
  · intro h new hnew hcl
    rcases hback hnew with ⟨-, rfl⟩ | ⟨-, rfl⟩ | ⟨-, hold⟩
    · simp at hcl
    · rfl
    · exact hm.cleaning hold hcl
  · intro h new hnew hbusy
    rcases hback hnew with ⟨-, rfl⟩ | ⟨-, rfl⟩ | ⟨-, hold⟩
    · rfl
    · exact (hm.busy hcur hbusy :)
    · exact hm.busy hold hbusy

theorem Structured.retireCurrent (hm : m.Structured) (hclosing : m.closing = true)
    (hg : m.generation m.current = some gen) (hr : gen.retired = false) :
    m.retireCurrent.Structured := by
  have hopen : gen.closed = false := by
    rw [← Bool.not_eq_true] at hr ⊢
    exact fun hc => hr (hm.cleaning hg (Or.inl hc))
  have hget : ∀ h, m.retireCurrent.generation h =
      if h = m.current then some { gen with retired := true } else m.generation h := by
    intro h
    refine (generation_update m m.current h _).trans ?_
    rw [hg]
    rfl
  have hback : ∀ {h new}, m.retireCurrent.generation h = some new →
      h = m.current ∧ new = { gen with retired := true } ∨
        h ≠ m.current ∧ m.generation h = some new := by
    intro h new hnew
    rw [hget] at hnew
    split_ifs at hnew with hh
    · exact Or.inl ⟨hh, (Option.some.inj hnew).symm⟩
    · exact Or.inr ⟨hh, hnew⟩
  refine ⟨⟨_, (hget _).trans (if_pos rfl)⟩, ?_, ?_, ?_, ?_, ?_, ?_⟩
  · intro h new hnew
    rcases hback hnew with ⟨rfl, -⟩ | ⟨-, hold⟩
    · exact hm.bound hg
    · exact hm.bound hold
  · intro h new hnew hr'
    rcases hback hnew with ⟨rfl, -⟩ | ⟨-, hold⟩
    · rfl
    · exact hm.current hold hr'
  · intro new hc
    rw [show m.retireCurrent.closing = m.closing from rfl, hclosing] at hc
    cases hc
  · intro h
    change h ∈ m.retired ++ [m.current] ↔ _
    rw [List.mem_append, List.mem_singleton, hm.listed, hget]
    split_ifs with hh
    · simp [hh, hopen]
    · simp [hh]
  · intro h new hnew hcl
    rcases hback hnew with ⟨-, rfl⟩ | ⟨-, hold⟩
    · rfl
    · exact hm.cleaning hold hcl
  · intro h new hnew hbusy
    rcases hback hnew with ⟨-, rfl⟩ | ⟨-, hold⟩
    · exact (hm.busy hg hbusy :)
    · exact hm.busy hold hbusy

/-! ## What every step keeps -/

/-- The invariant of a manager: users are counted, and only the current generation is
used under the lock. -/
structure Kept (m : ProviderRuntimeManager) : Prop where
  structured : m.Structured
  counted : ∀ g, m.activeLeases g = m.uses g
  locked : ∀ c, m.lockSection.during = some c → m.closing = c
  holds : ∀ g, m.lockSection.On g → g = m.current
  targets : ∀ g ∈ m.lockSection.targets ++ m.shutdown.targets, m.IsRetired g

theorem uses_congr (m m' : ProviderRuntimeManager) (hleases : m'.leases = m.leases)
    (htasks : m'.tasks = m.tasks)
    (hsection : m'.lockSection = m.lockSection) (g : ℕ) : m'.uses g = m.uses g := by
  unfold uses
  rw [hleases, htasks, hsection]

/-- Writing down a new phase of a task. -/
theorem uses_setTask {task : RefreshTask} (ht : m.tasks[t]? = some task) (task' : RefreshTask)
    (g : ℕ) : (m.setTask t task').uses g + (if runningOn g task then 1 else 0) =
      m.uses g + if runningOn g task' then 1 else 0 := by
  obtain ⟨hlt, hget⟩ := List.getElem?_eq_some_iff.mp ht
  have hcount : (m.tasks.set t task').countP (runningOn g) +
      (if runningOn g task then 1 else 0) =
        m.tasks.countP (runningOn g) + if runningOn g task' then 1 else 0 := by
    rw [List.countP_set hlt, hget]
    have hle : (if runningOn g m.tasks[t] then 1 else 0) ≤ m.tasks.countP (runningOn g) :=
      List.boole_getElem_le_countP hlt
    rw [hget] at hle
    omega
  unfold uses setTask
  simp only
  omega

/-- A step that changes neither generations nor users. -/
theorem Kept.moved (hm : m.Kept) (hgen : m'.generations = m.generations)
    (hcurrent : m'.current = m.current) (hnext : m'.nextGenerationId = m.nextGenerationId)
    (hretired : m'.retired = m.retired) (hclosing : m.closing = true → m'.closing = true)
    (huses : ∀ g, m'.uses g = m.uses g)
    (hlocked : ∀ c, m'.lockSection.during = some c → m'.closing = c)
    (hholds : ∀ g, m'.lockSection.On g → g = m.current)
    (htargets : ∀ g ∈ m'.lockSection.targets ++ m'.shutdown.targets, m.IsRetired g) :
    m'.Kept := by
  have hget : ∀ g, m'.generation g = m.generation g := by
    intro g
    unfold generation
    rw [hgen]
  refine ⟨hm.structured.congr hgen hcurrent hnext hretired hclosing, ?_, hlocked, ?_, ?_⟩
  · intro g
    rw [huses, ← hm.counted]
    unfold activeLeases
    rw [hget]
  · rw [hcurrent]
    exact hholds
  · intro g hg
    unfold IsRetired
    rw [hget]
    exact htargets g hg

theorem kept_cancelRefresh (m : ProviderRuntimeManager) :
    m.cancelRefresh.2.generations = m.generations ∧ m.cancelRefresh.2.current = m.current ∧
      m.cancelRefresh.2.nextGenerationId = m.nextGenerationId ∧
      m.cancelRefresh.2.retired = m.retired ∧ m.cancelRefresh.2.closing = m.closing ∧
      m.cancelRefresh.2.lockSection = m.lockSection ∧ m.cancelRefresh.2.shutdown = m.shutdown ∧
      ∀ g, m.cancelRefresh.2.uses g = m.uses g := by
  unfold cancelRefresh
  split
  · exact ⟨rfl, rfl, rfl, rfl, rfl, rfl, rfl, fun _ => rfl⟩
  · next t _ =>
    split
    · exact ⟨rfl, rfl, rfl, rfl, rfl, rfl, rfl, fun _ => rfl⟩
    · next task ht =>
      split_ifs
      · exact ⟨rfl, rfl, rfl, rfl, rfl, rfl, rfl, fun _ => rfl⟩
      · refine ⟨rfl, rfl, rfl, rfl, rfl, rfl, rfl, ?_⟩
        intro g
        have h := uses_setTask ht { task with cancelled := true } g
        have hsame : runningOn g { task with cancelled := true } = runningOn g task := rfl
        rw [hsame] at h
        exact Nat.add_right_cancel h

/-- A step that changes generations and users alike. -/
theorem Kept.changed (hm : m.Kept) (hs : m'.Structured) (hgrow : m.Grows m')
    (hcount : ∀ g, m'.activeLeases g = m'.uses g)
    (hlocked : ∀ c, m'.lockSection.during = some c → m'.closing = c)
    (hholds : ∀ g, m'.lockSection.On g → g = m'.current)
    (htargets : ∀ g ∈ m'.lockSection.targets ++ m'.shutdown.targets,
      g ∈ m.lockSection.targets ++ m.shutdown.targets ∨ m'.IsRetired g) : m'.Kept :=
  ⟨hs, hcount, hlocked, hholds, fun g hg =>
    (htargets g hg).elim (fun h => hgrow.isRetired (hm.targets g h)) id⟩

theorem uses_acquire (m m' : ProviderRuntimeManager) {c : ℕ}
    (hleases : m'.leases = c :: m.leases) (htasks : m'.tasks = m.tasks)
    (hsection : m'.lockSection = m.lockSection) (g : ℕ) :
    m'.uses g = m.uses g + if g = c then 1 else 0 := by
  unfold uses
  rw [hleases, htasks, hsection, List.count_cons]
  simp only [beq_iff_eq, eq_comm (a := c)]
  omega

theorem uses_release {c : ℕ} (hc : c ∈ m.leases) (hleases : m'.leases = m.leases.erase c)
    (htasks : m'.tasks = m.tasks) (hsection : m'.lockSection = m.lockSection) (g : ℕ) :
    m'.uses g = m.uses g - if g = c then 1 else 0 := by
  have hpos : 0 < m.leases.count c := List.count_pos_iff.mpr hc
  unfold uses
  rw [hleases, htasks, hsection, List.count_erase]
  by_cases hg : g = c
  · rw [hg, if_pos (beq_self_eq_true c), if_pos rfl]
    omega
  · rw [if_neg hg, if_neg (by simpa using Ne.symm hg)]
    omega

theorem Kept.acquire (hm : m.Kept) (h : m.acquire = .ok m') : m'.Kept ∧ m.Grows m' := by
  unfold ProviderRuntimeManager.acquire at h
  split_ifs at h
  cases h
  obtain ⟨cur, hcur⟩ := hm.structured.present
  have hgrow : m.Grows { m.retain m.current with leases := m.current :: m.leases } :=
    (grows_retain m m.current).trans (.of_eq rfl)
  refine ⟨hm.changed ((hm.structured.retain _).congr rfl rfl rfl rfl id) hgrow ?_ hm.locked
    hm.holds fun _ => Or.inl, hgrow⟩
  intro g
  refine (activeLeases_retain hcur g).trans ?_
  rw [hm.counted]
  exact (uses_acquire m { m.retain m.current with leases := m.current :: m.leases } rfl rfl rfl
    g).symm

theorem release_users (m : ProviderRuntimeManager) (g : ℕ) :
    (m.release g).leases = m.leases ∧ (m.release g).tasks = m.tasks ∧
      (m.release g).lockSection = m.lockSection ∧ (m.release g).shutdown = m.shutdown ∧
      (m.release g).current = m.current ∧
      (m.release g).nextGenerationId = m.nextGenerationId ∧
      (m.release g).retired = m.retired ∧ (m.release g).closing = m.closing := by
  rcases release_cases m g with ⟨heq, -⟩ | heq | ⟨-, heq⟩ <;> rw [heq] <;>
    exact ⟨rfl, rfl, rfl, rfl, rfl, rfl, rfl, rfl⟩

/-- A release, whatever else changes: the generations do what `release` does. -/
theorem Kept.released (hm : m.Kept) (hgen : m'.generations = (m.release g).generations)
    (hcurrent : m'.current = m.current) (hnext : m'.nextGenerationId = m.nextGenerationId)
    (hretired : m'.retired = m.retired) (hclosing : m'.closing = m.closing)
    (huses : ∀ h, m'.uses h = m.uses h - if h = g then 1 else 0)
    (hlocked : ∀ c, m'.lockSection.during = some c → m.closing = c)
    (hholds : ∀ h, m'.lockSection.On h → h = m.current)
    (htargets : ∀ h ∈ m'.lockSection.targets ++ m'.shutdown.targets,
      h ∈ m.lockSection.targets ++ m.shutdown.targets) : m'.Kept ∧ m.Grows m' := by
  obtain ⟨-, -, -, -, hc, hn, hr, hcl⟩ := release_users m g
  have hgrow : m.Grows m' := (grows_release m g).trans (.of_eq hgen)
  refine ⟨hm.changed ?_ hgrow ?_ ?_ ?_ fun h hh => Or.inl (htargets h hh), hgrow⟩
  · refine (hm.structured.release g).congr hgen (hcurrent.trans hc.symm) (hnext.trans hn.symm)
      (hretired.trans hr.symm) ?_
    rw [hcl, hclosing]
    exact id
  · intro h
    rw [huses, ← hm.counted, ← activeLeases_release]
    unfold activeLeases generation
    rw [hgen]
  · rw [hclosing]
    exact hlocked
  · rw [hcurrent]
    exact hholds

theorem Kept.leaseReleased (hm : m.Kept) (hg : g ∈ m.leases) :
    Kept { m.release g with leases := m.leases.erase g } ∧
      m.Grows { m.release g with leases := m.leases.erase g } := by
  obtain ⟨-, htasks, hsec, hsh, hc, hn, hr, hcl⟩ := release_users m g
  refine hm.released rfl hc hn hr hcl (uses_release hg rfl htasks hsec) ?_ ?_ ?_
  · intro c h
    exact hm.locked c (hsec ▸ h)
  · intro h hh
    exact hm.holds h (hsec ▸ hh)
  · intro h hh
    change h ∈ (m.release g).lockSection.targets ++ (m.release g).shutdown.targets at hh
    rwa [hsec, hsh] at hh

/-- A step that only writes down phases of tasks and flags. -/
theorem Kept.flagged (hm : m.Kept) (hgen : m'.generations = m.generations)
    (hcurrent : m'.current = m.current) (hnext : m'.nextGenerationId = m.nextGenerationId)
    (hretired : m'.retired = m.retired) (hclosing : m'.closing = m.closing)
    (hsection : m'.lockSection = m.lockSection) (hshutdown : m'.shutdown = m.shutdown)
    (huses : ∀ g, m'.uses g = m.uses g) : m'.Kept ∧ m.Grows m' := by
  refine ⟨hm.moved hgen hcurrent hnext hretired ?_ huses ?_ ?_ ?_, .of_eq hgen⟩
  · rw [hclosing]
    exact id
  · rw [hsection, hclosing]
    exact hm.locked
  · rw [hsection]
    exact hm.holds
  · rw [hsection, hshutdown]
    exact hm.targets

theorem Kept.startModelListRefresh (hm : m.Kept) :
    m.startModelListRefresh.Kept ∧ m.Grows m.startModelListRefresh := by
  unfold ProviderRuntimeManager.startModelListRefresh
  split_ifs
  · exact ⟨hm, .of_eq rfl⟩
  · exact ⟨hm, .of_eq rfl⟩
  · refine hm.flagged rfl rfl rfl rfl rfl rfl rfl ?_
    intro g
    simp [uses, List.countP_append, runningOn]

theorem Kept.setTask (hm : m.Kept) {task task' : RefreshTask} (ht : m.tasks[t]? = some task)
    (hold : task.phase ≠ .running) (hnew : task'.phase ≠ .running) :
    (m.setTask t task').Kept ∧ m.Grows (m.setTask t task') := by
  refine hm.flagged rfl rfl rfl rfl rfl rfl rfl ?_
  intro g
  have h := uses_setTask ht task' g
  simpa [runningOn, hold, hnew] using h

theorem Kept.beginRefresh (hm : m.Kept) (t : ℕ) :
    (m.beginRefresh t).Kept ∧ m.Grows (m.beginRefresh t) := by
  unfold ProviderRuntimeManager.beginRefresh
  cases ht : m.tasks[t]? with
  | none => exact ⟨hm, .of_eq rfl⟩
  | some task =>
    simp only
    split_ifs with hphase hcancel
    · exact ⟨hm, .of_eq rfl⟩
    · exact hm.setTask ht (by simp [not_not.mp hphase]) (by simp)
    · cases hgen : m.generation task.generation with
      | none => exact ⟨hm, .of_eq rfl⟩
      | some gen =>
        simp only
        split_ifs
        · exact hm.setTask ht (by simp [not_not.mp hphase]) (by simp)
        · have hgrow : m.Grows ((m.retain task.generation).setTask t
              { task with phase := .running }) := (grows_retain m _).trans (.of_eq rfl)
          refine ⟨hm.changed ((hm.structured.retain _).congr rfl rfl rfl rfl id) hgrow ?_
            hm.locked hm.holds fun _ => Or.inl, hgrow⟩
          intro g
          refine (activeLeases_retain hgen g).trans ?_
          rw [hm.counted]
          have hset := uses_setTask ht { task with phase := .running } g
          have hsame : ((m.retain task.generation).setTask t
              { task with phase := .running }).uses g =
                (m.setTask t { task with phase := .running }).uses g := uses_congr _ _ rfl rfl rfl g
          rw [hsame]
          simp only [runningOn, not_not.mp hphase, reduceCtorEq, decide_false, Bool.and_false,
            Bool.false_eq_true, if_false, Nat.add_zero, decide_true, Bool.and_true,
            decide_eq_true_eq] at hset
          rw [hset]
          simp only [eq_comm (a := g)]

theorem Kept.taskReleased (hm : m.Kept) {task task' : RefreshTask} (ht : m.tasks[t]? = some task)
    (hphase : task.phase = .running) (hphase' : task'.phase ≠ .running) :
    ((m.release task.generation).setTask t task').Kept ∧
      m.Grows ((m.release task.generation).setTask t task') := by
  obtain ⟨hleases, htasks, hsec, hsh, hc, hn, hr, hcl⟩ := release_users m task.generation
  refine hm.released rfl hc hn hr hcl ?_ ?_ ?_ ?_
  · intro g
    have hset := uses_setTask ht task' g
    have hsame : ((m.release task.generation).setTask t task').uses g =
        (m.setTask t task').uses g := by
      have htasks' : ((m.release task.generation).setTask t task').tasks =
          (m.setTask t task').tasks := by
        simp only [ProviderRuntimeManager.setTask, htasks]
      exact uses_congr (m.setTask t task') ((m.release task.generation).setTask t task') hleases
        htasks' hsec g
    rw [hsame]
    simp only [runningOn, hphase, hphase', decide_true, Bool.and_true, decide_eq_true_eq,
      decide_false, Bool.and_false, Bool.false_eq_true, if_false, Nat.add_zero,
      eq_comm (a := task.generation)] at hset
    rw [← hset, Nat.add_sub_cancel]
  · intro c h
    exact hm.locked c (hsec ▸ h)
  · intro h hh
    exact hm.holds h (hsec ▸ hh)
  · intro h hh
    change h ∈ (m.release _).lockSection.targets ++ (m.release _).shutdown.targets at hh
    rwa [hsec, hsh] at hh

theorem Kept.endRefresh (hm : m.Kept) (t : ℕ) :
    (m.endRefresh t).Kept ∧ m.Grows (m.endRefresh t) := by
  unfold ProviderRuntimeManager.endRefresh
  cases ht : m.tasks[t]? with
  | none => exact ⟨hm, .of_eq rfl⟩
  | some task =>
    simp only
    by_cases hphase : task.phase = .running
    · rw [if_neg (not_not.mpr hphase)]
      refine hm.taskReleased ht hphase ?_
      split_ifs <;> simp
    · rw [if_pos hphase]
      exact ⟨hm, .of_eq rfl⟩

theorem Kept.leaveRefresh (hm : m.Kept) (t : ℕ) :
    (m.leaveRefresh t).Kept ∧ m.Grows (m.leaveRefresh t) := by
  unfold ProviderRuntimeManager.leaveRefresh
  cases ht : m.tasks[t]? with
  | none => exact ⟨hm, .of_eq rfl⟩
  | some task =>
    simp only
    split_ifs with hphase
    · exact hm.setTask ht (by simp [hphase.1]) (by simp)
    · exact ⟨hm, .of_eq rfl⟩

theorem Kept.beginCleanup (hm : m.Kept) (g : ℕ) :
    (m.beginCleanup g).Kept ∧ m.Grows (m.beginCleanup g) := by
  have hgrow := grows_beginCleanup m g
  refine ⟨hm.changed (hm.structured.beginCleanup g) hgrow ?_ hm.locked hm.holds fun _ => Or.inl,
    hgrow⟩
  intro h
  refine (activeLeases_update m g h _ fun gen => ?_).trans (hm.counted h)
  split_ifs <;> rfl

theorem Kept.endCleanup (hm : m.Kept) (g : ℕ) (succeeded : Bool) :
    (m.endCleanup g succeeded).Kept ∧ m.Grows (m.endCleanup g succeeded) := by
  have hgrow := grows_endCleanup m g succeeded
  have hs := hm.structured.endCleanup g succeeded
  refine ⟨hm.changed hs hgrow ?_ ?_ ?_ ?_, hgrow⟩ <;> unfold ProviderRuntimeManager.endCleanup
  · cases m.generation g with
    | none => exact hm.counted
    | some gen =>
      simp only
      split_ifs
      · exact hm.counted
      · exact fun h => (activeLeases_update m g h
          (fun gen => { gen with closed := true, cleanupTask := some .finished })
            fun _ => rfl).trans (hm.counted h)
      · exact fun h => (activeLeases_update m g h (fun gen => { gen with cleanupTask := none })
          fun _ => rfl).trans (hm.counted h)
  · cases m.generation g with
    | none => exact hm.locked
    | some gen =>
      simp only
      split_ifs <;> exact hm.locked
  · cases m.generation g with
    | none => exact hm.holds
    | some gen =>
      simp only
      split_ifs <;> exact hm.holds
  · cases m.generation g with
    | none => exact fun _ => Or.inl
    | some gen =>
      simp only
      split_ifs <;> exact fun _ => Or.inl

theorem uses_atSection (m : ProviderRuntimeManager) {s : LockSection}
    (hm : ∀ g, m.lockSection ≠ .refreshing g) (hs : ∀ g, s ≠ .refreshing g) (g : ℕ) :
    uses { m with lockSection := s } g = m.uses g := by
  simp only [uses, hm g, hs g]

/-- The holder of the lock goes on to a section in which it uses nothing. -/
theorem Kept.goesOn (hm : m.Kept) {s : LockSection} (hold : ∀ g, m.lockSection ≠ .refreshing g)
    (hduring : ∀ c, s.during = some c → m.closing = c) (hon : ∀ g, ¬ s.On g)
    (htargets : ∀ g ∈ s.targets, m.IsRetired g) :
    Kept { m with lockSection := s } ∧ m.Grows { m with lockSection := s } := by
  have hnew : ∀ g, s ≠ .refreshing g := by
    rintro g rfl
    exact hon g rfl
  refine ⟨hm.moved rfl rfl rfl rfl id (uses_atSection m hold hnew) hduring
    (fun g hg => absurd hg (hon g)) ?_, .of_eq rfl⟩
  intro g hg
  rcases List.mem_append.mp hg with hg | hg
  · exact htargets g hg
  · exact hm.targets g (List.mem_append_right _ hg)

theorem Kept.cancelRefresh (hm : m.Kept) : m.cancelRefresh.2.Kept ∧ m.Grows m.cancelRefresh.2 := by
  obtain ⟨hgen, hc, hn, hr, hcl, hsec, hsh, huses⟩ := kept_cancelRefresh m
  exact hm.flagged hgen hc hn hr hcl hsec hsh huses

/-- A call takes the lock and cancels the refresh task. -/
theorem Kept.cancelling (hm : m.Kept) (hfree : m.lockSection = .free) {s : LockSection}
    (hduring : ∀ c, s.during = some c → m.closing = c) (hon : ∀ g, ¬ s.On g)
    (htargets : ∀ g, g ∉ s.targets) :
    Kept { m.cancelRefresh.2 with lockSection := s } ∧
      m.Grows { m.cancelRefresh.2 with lockSection := s } := by
  obtain ⟨-, -, -, -, hcl, hsec, -, -⟩ := kept_cancelRefresh m
  obtain ⟨hk, hgrow⟩ := hm.cancelRefresh
  obtain ⟨h1, h2⟩ := hk.goesOn (s := s) (by simp [hsec, hfree])
    (fun c h => hcl.trans (hduring c h)) hon fun g hg => absurd hg (htargets g)
  exact ⟨h1, hgrow.trans h2⟩

theorem Kept.enter (hm : m.Kept) (call : LockedCall) :
    (m.enter call).Kept ∧ m.Grows (m.enter call) := by
  unfold ProviderRuntimeManager.enter
  split_ifs with hbusy
  · exact ⟨hm, .of_eq rfl⟩
  · rw [not_or, not_or, not_not, Bool.not_eq_true] at hbusy
    obtain ⟨hfree, hopen, -⟩ := hbusy
    cases call with
    | replace =>
      exact hm.cancelling hfree (by rintro c ⟨⟩; exact hopen) (fun _ => id) (by rintro g ⟨⟩)
    | refreshModelListCache =>
      exact hm.cancelling hfree (by rintro c ⟨⟩; exact hopen) (fun _ => id) (by rintro g ⟨⟩)
    | connectedProviderChanged =>
      refine ⟨hm.moved rfl rfl rfl rfl id ?_ ?_ ?_ ?_, .of_eq rfl⟩
      · exact uses_atSection m (by simp [hfree]) (by simp)
      · rintro c ⟨⟩
        exact hopen
      · rintro g rfl
        rfl
      · exact fun g hg => hm.targets g (List.mem_append_right _ hg)

theorem Kept.enterClose (hm : m.Kept) : m.enterClose.Kept ∧ m.Grows m.enterClose := by
  unfold ProviderRuntimeManager.enterClose
  split_ifs with hbusy
  · exact ⟨hm, .of_eq rfl⟩
  · rw [not_or, not_or, not_not] at hbusy
    obtain ⟨hfree, -, -⟩ := hbusy
    have hclosing : Kept { m with closing := true } := by
      refine hm.moved rfl rfl rfl rfl (fun _ => rfl) (fun _ => rfl) ?_ hm.holds hm.targets
      intro c hc
      rw [show m.lockSection = .free from hfree] at hc
      cases hc
    obtain ⟨hk, hgrow⟩ := hclosing.cancelling hfree
      (s := .shutdownCancelling (ProviderRuntimeManager.cancelRefresh { m with closing := true }).1)
      (by rintro c ⟨⟩; rfl) (fun _ => id) (by rintro g ⟨⟩)
    have hstart : m.Grows { m with closing := true } := .of_eq rfl
    exact ⟨hk, hstart.trans hgrow⟩

/-- `_close_generation` of a retired generation, in a section in which nothing is used. -/
theorem Kept.closed (hm : m.Kept) {s : LockSection} {d : Shutdown} (hg : m.IsRetired g)
    (hsection : s = m.lockSection ∨ (∀ h, m.lockSection ≠ .refreshing h) ∧ ∀ h, ¬ s.On h)
    (hduring : ∀ c, s.during = some c → m.closing = c)
    (htargets : ∀ h ∈ s.targets ++ d.targets, h ∈ m.lockSection.targets ++ m.shutdown.targets) :
    Kept { m.closeGeneration g with lockSection := s, shutdown := d } ∧
      m.Grows { m.closeGeneration g with lockSection := s, shutdown := d } := by
  have hgrow : m.Grows { m.closeGeneration g with lockSection := s, shutdown := d } :=
    (grows_closeGeneration m g).trans (.of_eq rfl)
  refine ⟨hm.changed ((hm.structured.closeGeneration hg).congr rfl rfl rfl rfl id) hgrow ?_
    hduring ?_ fun h hh => Or.inl (htargets h hh), hgrow⟩
  · intro h
    refine (activeLeases_closeGeneration m g h).trans ((hm.counted h).trans ?_)
    rcases hsection with rfl | ⟨hold, hnew⟩
    · rfl
    · refine (uses_atSection m hold ?_ h).symm
      rintro k rfl
      exact hnew k rfl
  · intro h hh
    rcases hsection with rfl | ⟨-, hnew⟩
    · exact hm.holds h hh
    · exact absurd hh (hnew h)

theorem Structured.isRetired (hm : m.Structured) (hg : g ∈ m.retired) : m.IsRetired g := by
  obtain ⟨gen, hgen, hr, -⟩ := hm.listed.mp hg
  exact ⟨gen, hgen, hr⟩

theorem Kept.publish (hm : m.Kept) (hsection : m.lockSection = .replacePreparing) :
    m.publish.Kept ∧ m.Grows m.publish := by
  have hclosing : m.closing = false := hm.locked _ (by rw [hsection]; rfl)
  obtain ⟨cur, hcur⟩ := hm.structured.present
  have hne : m.current ≠ m.nextGenerationId := (hm.structured.bound hcur).ne
  have hgrow := grows_publishCandidate hm.structured
  have hpub : m.publishCandidate.Kept := by
    refine hm.changed (hm.structured.publishCandidate hclosing) hgrow ?_ hm.locked ?_
      fun _ => Or.inl
    · intro g
      have htasks : m.publishCandidate.tasks.countP (runningOn g) =
          m.tasks.countP (runningOn g) := by
        simp [publishCandidate, List.countP_append, runningOn]
      rw [activeLeases_publishCandidate hm.structured, hm.counted]
      unfold uses
      rw [htasks]
      rfl
    · intro g hg
      rw [show m.publishCandidate.lockSection = m.lockSection from rfl, hsection] at hg
      exact hg.elim
  have hnot : ∀ h, m.publishCandidate.lockSection ≠ .refreshing h := by
    intro h
    rw [show m.publishCandidate.lockSection = m.lockSection from rfl, hsection]
    simp
  have hret : m.publishCandidate.IsRetired m.current := by
    refine ⟨{ cur with retired := true }, ?_, rfl⟩
    rw [generation_publishCandidate, if_neg hne, if_pos rfl, hcur]
    rfl
  unfold ProviderRuntimeManager.publish
  split_ifs
  · obtain ⟨h1, h2⟩ := hpub.closed (s := .replaceClosing m.current) (d := m.shutdown) hret
      (Or.inr ⟨hnot, fun _ => id⟩) (by rintro c ⟨⟩; exact hclosing)
      (fun h hh => List.mem_append_right _ hh)
    exact ⟨h1, hgrow.trans h2⟩
  · obtain ⟨h1, h2⟩ := hpub.goesOn (s := .free) hnot (by rintro c ⟨⟩) (fun _ => id)
      (by rintro g ⟨⟩)
    exact ⟨h1, hgrow.trans h2⟩

theorem Kept.finishRefreshing (hm : m.Kept) (hsection : m.lockSection = .refreshing g)
    {s : LockSection} (hduring : ∀ c, s.during = some c → c = false) (hon : ∀ h, ¬ s.On h)
    (htargets : s.targets = []) :
    Kept { m.release g with lockSection := s } ∧ m.Grows { m.release g with lockSection := s } := by
  obtain ⟨hleases, htasks, hsec, hsh, hc, hn, hr, hcl⟩ := release_users m g
  have hnot : ∀ h, s ≠ .refreshing h := by
    rintro h rfl
    exact hon h rfl
  refine hm.released rfl hc hn hr hcl ?_ ?_ ?_ ?_
  · intro h
    simp only [uses, hleases, htasks, hnot h, if_false, hsection, LockSection.refreshing.injEq,
      eq_comm (a := g)]
    split_ifs <;> simp
  · intro c h
    rw [hduring c h]
    exact hm.locked _ (by rw [hsection]; rfl)
  · exact fun h hh => absurd hh (hon h)
  · intro h hh
    change h ∈ s.targets ++ (m.release g).shutdown.targets at hh
    rw [htargets, hsh] at hh
    exact List.mem_append_right _ hh

theorem Kept.beginShutdown (hm : m.Kept) {task : Option ℕ}
    (hsection : m.lockSection = .shutdownCancelling task)
    (hretired : ∀ g ∈ m.retired, m.IsRetired g) :
    Kept { m with lockSection := .free, shutdown := .draining m.retired m.retired } ∧
      m.Grows { m with lockSection := .free, shutdown := .draining m.retired m.retired } := by
  refine ⟨hm.moved rfl rfl rfl rfl id ?_ (by rintro c ⟨⟩) (by rintro g ⟨⟩) hretired, .of_eq rfl⟩
  intro g
  simp [uses, hsection]

theorem Kept.advance (hm : m.Kept) (commits : Bool) :
    (m.advance commits).Kept ∧ m.Grows (m.advance commits) := by
  have hsame : m.Kept ∧ m.Grows m := ⟨hm, .of_eq rfl⟩
  unfold ProviderRuntimeManager.advance
  split
  · exact hsame
  · next task hs =>
    have hcl : m.closing = false := hm.locked _ (by rw [hs]; rfl)
    split_ifs
    · exact hm.goesOn (by simp [hs]) (by rintro c ⟨⟩; exact hcl) (by rintro g ⟨⟩)
        fun g hg => hm.structured.isRetired hg
    · exact hsame
  · next hs =>
    have hcl : m.closing = false := hm.locked _ (by rw [hs]; rfl)
    exact hm.goesOn (by simp [hs]) (by rintro c ⟨⟩; exact hcl) (by rintro g ⟨⟩) (by rintro g ⟨⟩)
  · next g rest hs =>
    have hcl : m.closing = false := hm.locked _ (by rw [hs]; rfl)
    have htargets : ∀ h ∈ g :: rest, m.IsRetired h := fun h hh =>
      hm.targets h (List.mem_append_left _ (by rw [hs]; exact hh))
    split_ifs
    · exact hm.goesOn (by simp [hs]) (by rintro c ⟨⟩; exact hcl) (by rintro g ⟨⟩)
        fun h hh => htargets h (List.mem_cons_of_mem _ hh)
    · refine hm.closed (s := .replaceAwaiting g rest) (d := m.shutdown)
        (htargets g List.mem_cons_self) (Or.inr ⟨by simp [hs], fun _ => id⟩)
        (by rintro c ⟨⟩; exact hcl) fun h hh => ?_
      rcases List.mem_append.mp hh with hh | hh
      · exact List.mem_append_left _ (by rw [hs]; exact List.mem_cons_of_mem _ hh)
      · exact List.mem_append_right _ hh
  · next g rest hs =>
    have hcl : m.closing = false := hm.locked _ (by rw [hs]; rfl)
    split_ifs
    · exact hm.goesOn (by simp [hs]) (by rintro c ⟨⟩; exact hcl) (by rintro g ⟨⟩) fun h hh =>
        hm.targets h (List.mem_append_left _ (by rw [hs]; exact hh))
    · exact hsame
  · next hs =>
    split_ifs
    · exact hm.publish hs
    · exact hm.goesOn (by simp [hs]) (by rintro c ⟨⟩) (fun _ => id) (by rintro g ⟨⟩)
  · next g hs =>
    split_ifs
    · exact hm.goesOn (by simp [hs]) (by rintro c ⟨⟩) (fun _ => id) (by rintro g ⟨⟩)
    · exact hsame
  · next task hs =>
    have hcl : m.closing = false := hm.locked _ (by rw [hs]; rfl)
    split_ifs
    · exact hm.goesOn (by simp [hs]) (by rintro c ⟨⟩) (fun _ => id) (by rintro g ⟨⟩)
    · obtain ⟨cur, hcur⟩ := hm.structured.present
      have hgrow : m.Grows { m.retain m.current with lockSection := .refreshing m.current } :=
        (grows_retain m _).trans (.of_eq rfl)
      refine ⟨hm.changed ((hm.structured.retain _).congr rfl rfl rfl rfl id) hgrow ?_
        (by rintro c ⟨⟩; exact hcl) (by rintro g rfl; rfl)
        (fun h hh => Or.inl (List.mem_append_right _ hh)), hgrow⟩
      intro g
      refine (activeLeases_retain hcur g).trans ?_
      rw [hm.counted]
      simp [uses, hs, retain, ProviderRuntimeManager.update, eq_comm]
    · exact hsame
  · next g hs =>
    refine hm.finishRefreshing hs ?_ ?_ ?_
    · split_ifs <;> rintro c ⟨⟩
      rfl
    · split_ifs <;> exact fun _ => id
    · split_ifs <;> rfl
  · next g hs =>
    split_ifs
    · exact hm.goesOn (by simp [hs]) (by rintro c ⟨⟩) (fun _ => id) (by rintro g ⟨⟩)
    · exact hsame
  · next g hs => exact hm.goesOn (by simp [hs]) (by rintro c ⟨⟩) (fun _ => id) (by rintro g ⟨⟩)
  · next task hs =>
    have hcl : m.closing = true := hm.locked _ (by rw [hs]; rfl)
    split_ifs with hdone hret
    · exact hm.beginShutdown hs fun g hg => hm.structured.isRetired hg
    · obtain ⟨cur, hcur⟩ := hm.structured.present
      have hopen : cur.retired = false := by simpa [hcur] using hret
      have hgrow := grows_retireCurrent m
      have hkept : m.retireCurrent.Kept := by
        refine hm.changed (hm.structured.retireCurrent hcl hcur hopen) hgrow ?_ hm.locked hm.holds
          fun _ => Or.inl
        exact fun h => (activeLeases_update m m.current h
          (fun gen => { gen with retired := true }) fun _ => rfl).trans (hm.counted h)
      obtain ⟨h1, h2⟩ := hkept.beginShutdown hs fun g hg => hkept.structured.isRetired hg
      exact ⟨h1, hgrow.trans h2⟩
    · exact hsame

theorem Kept.abandon (hm : m.Kept) : m.abandon.Kept ∧ m.Grows m.abandon := by
  unfold ProviderRuntimeManager.abandon
  split
  · exact hm.advance true
  · next hs => exact hm.goesOn hs (by rintro c ⟨⟩) (fun _ => id) (by rintro g ⟨⟩)

/-- `close` goes on without touching a generation. -/
theorem Kept.closeGoesOn (hm : m.Kept) {d : Shutdown} (closed : Bool)
    (htargets : ∀ g ∈ d.targets, g ∈ m.shutdown.targets) :
    Kept { m with shutdown := d, closed := closed } ∧
      m.Grows { m with shutdown := d, closed := closed } := by
  refine ⟨hm.moved rfl rfl rfl rfl id (fun _ => rfl) hm.locked hm.holds ?_, .of_eq rfl⟩
  intro g hg
  exact hm.targets g ((List.mem_append.mp hg).elim (List.mem_append_left _)
    fun h => List.mem_append_right _ (htargets g h))

theorem Kept.seeDrained (hm : m.Kept) (g : ℕ) :
    (m.seeDrained g).Kept ∧ m.Grows (m.seeDrained g) := by
  unfold ProviderRuntimeManager.seeDrained
  split
  · next waiting generations hs =>
    split_ifs
    · exact hm.closeGoesOn m.closed fun h hh => by rw [hs]; exact hh
    · exact ⟨hm, .of_eq rfl⟩
  · exact ⟨hm, .of_eq rfl⟩

theorem Kept.advanceClose (hm : m.Kept) (unpublishedClosed : Bool) :
    (m.advanceClose unpublishedClosed).Kept ∧ m.Grows (m.advanceClose unpublishedClosed) := by
  unfold ProviderRuntimeManager.advanceClose
  split
  · exact ⟨hm, .of_eq rfl⟩
  · next generations hs =>
    refine hm.closeGoesOn m.closed fun h hh => ?_
    rw [hs]
    simpa [Shutdown.targets] using hh
  · exact ⟨hm, .of_eq rfl⟩
  · next g rest generations hs =>
    have htargets : m.shutdown.targets = g :: rest ++ generations := by
      rw [hs]
      rfl
    have hret : m.IsRetired g := by
      refine hm.targets g (List.mem_append_right _ ?_)
      rw [htargets]
      exact List.mem_cons_self
    refine hm.closed (s := m.lockSection) hret (Or.inl rfl) hm.locked fun h hh => ?_
    rcases List.mem_append.mp hh with hh | hh
    · exact List.mem_append_left _ hh
    · refine List.mem_append_right _ ?_
      rw [htargets]
      exact List.mem_cons_of_mem _ hh
  · next generations hs =>
    split_ifs
    · exact hm.closeGoesOn _ (by rintro g ⟨⟩)
    · exact ⟨hm, .of_eq rfl⟩

end ProviderRuntimeManager

/-- The step lemma of the invariant. -/
theorem ProviderOp.kept_apply {m : ProviderRuntimeManager} (hm : m.Kept) (op : ProviderOp) :
    (op.apply m).Kept ∧ m.Grows (op.apply m) := by
  cases op with
  | acquire =>
    simp only [apply]
    split
    · next h => exact hm.acquire h
    · exact ⟨hm, .of_eq rfl⟩
  | release g =>
    simp only [apply]
    split_ifs with hg
    · exact hm.leaseReleased hg
    · exact ⟨hm, .of_eq rfl⟩
  | startModelListRefresh => exact hm.startModelListRefresh
  | beginRefresh t => exact hm.beginRefresh t
  | endRefresh t => exact hm.endRefresh t
  | leaveRefresh t => exact hm.leaveRefresh t
  | beginCleanup g => exact hm.beginCleanup g
  | endCleanup g succeeded => exact hm.endCleanup g succeeded
  | enter call => exact hm.enter call
  | enterClose => exact hm.enterClose
  | advance commits => exact hm.advance commits
  | abandon => exact hm.abandon
  | seeDrained g => exact hm.seeDrained g
  | advanceClose unpublishedClosed => exact hm.advanceClose unpublishedClosed
  | abandonClose => exact hm.closeGoesOn m.closed (by rintro g ⟨⟩)

end Switchboard.Runtime
