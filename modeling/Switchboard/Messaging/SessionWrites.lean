import Switchboard.Messaging.SessionPersistence

/-!
# Session files are written in mutation order

A snapshot claimed under the current generation shows every mutation the
generation was advanced for. The check under the writer lock admits only such a
snapshot, so the file never goes back to the contents of an earlier mutation.
-/

namespace Switchboard.Messaging

namespace SavePc

/-- The store is changed and the generation is not advanced for it yet. -/
def midMutation : SavePc → Bool
  | .scheduling | .invalidating .. => true
  | _ => false

end SavePc

namespace SessionState

variable {τ : Type} {s t : SessionState τ} {i j : τ} {k k' : ℕ}

/-! ## The history -/

theorem stateAt_append {op : StoreOp} {data : SessionData} {v : ℕ} {d : SessionData}
    (hm : t.mutations = s.mutations ++ [(op, data)]) (hl : t.loaded = s.loaded)
    (h : s.stateAt v = some d) : t.stateAt v = some d := by
  have hv : v < (s.loaded :: s.mutations.map Prod.snd).length :=
    (List.getElem?_eq_some_iff.mp h).1
  simp only [SessionState.stateAt, hm, hl, List.map_append, ← List.cons_append]
  rw [List.getElem?_append_left hv]
  exact h

theorem stateAt_last {op : StoreOp} {data : SessionData}
    (hm : t.mutations = s.mutations ++ [(op, data)]) : t.stateAt (s.version + 1) = some data := by
  simp [SessionState.stateAt, SessionState.version, hm]

/-! ## The invariant -/

/-- A snapshot claimed under the current generation is that of version `k`. -/
structure Fresh (k : ℕ) (s : SessionState τ) (w : PendingWrite) : Prop where
  generation : w.generation ≤ s.saveGeneration
  current : w.generation = s.saveGeneration → w.version = k
  snapshot : s.stateAt w.version = some w.snapshot

/-- A snapshot that passed the check: nothing on file is newer. -/
structure Admitted (k : ℕ) (s : SessionState τ) (w : PendingWrite) : Prop where
  version : w.version ≤ k
  snapshot : s.stateAt w.version = some w.snapshot
  newest : ∀ w' ∈ s.written, w'.version ≤ w.version

/-- What holds of the state while thread `i` is at a point, when the generation
was last advanced at version `k`. -/
def AtPc (k : ℕ) (s : SessionState τ) (i : τ) : SavePc → Prop
  | .idle | .claiming _ => s.storeLock ≠ some i
  | .scheduling | .starting _ => s.storeLock = some i
  | .invalidating snapshot version =>
    s.storeLock = some i ∧ version = s.version ∧ s.stateAt version = some snapshot
  | .snapshotting generation => generation ≤ s.saveGeneration ∧ s.storeLock ≠ some i
  | .pending w => Fresh k s w ∧ (s.storeLock = some i → w.generation = s.saveGeneration)
  | .checking w => Fresh k s w ∧ (s.storeLock = some i → w.generation = s.saveGeneration) ∧
      s.writerLock = some i
  | .writing w => Admitted k s w ∧ s.writerLock = some i
  | _ => True

/-- The invariant: `k` is the version at which the generation was last advanced. -/
structure Ordered (k : ℕ) (s : SessionState τ) : Prop where
  nonEmpty : s.store.managedMessages.NonEmpty
  current : s.stateAt s.version = some s.store.snapshotForPersistence
  bounded : k ≤ s.version
  settled : s.storeLock = none → k = s.version
  settledOwner : ∀ i, s.storeLock = some i → (s.pc i).midMutation = false → k = s.version
  points : ∀ i, AtPc k s i (s.pc i)
  sorted : s.written.Pairwise fun w w' => w.version ≤ w'.version
  snapshots : ∀ w ∈ s.written, w.version ≤ k ∧ s.stateAt w.version = some w.snapshot

/-! ## What the other threads keep -/

/-- A step of another thread as thread `j` sees it. -/
structure Frame (k k' : ℕ) (s t : SessionState τ) (j : τ) : Prop where
  storeLock : t.storeLock = some j ↔ s.storeLock = some j
  writerLock : s.writerLock = some j → t.writerLock = some j
  history : ∀ {v data}, s.stateAt v = some data → t.stateAt v = some data
  version : s.storeLock = some j → t.version = s.version
  generation : s.saveGeneration ≤ t.saveGeneration
  owner : s.storeLock = some j → t.saveGeneration = s.saveGeneration
  stamp : k ≤ k'
  stampEq : t.saveGeneration = s.saveGeneration → k' = k
  written : s.writerLock = some j → t.written = s.written

theorem Fresh.frame {w : PendingWrite} (h : Fresh k s w) (hf : Frame k k' s t j) :
    Fresh k' t w where
  generation := h.generation.trans hf.generation
  current := by
    intro hw
    have hge := h.generation
    have hgen := hf.generation
    have heq : t.saveGeneration = s.saveGeneration := by omega
    rw [hf.stampEq heq]
    exact h.current (hw.trans heq)
  snapshot := hf.history h.snapshot

theorem AtPc.frame {p : SavePc} (h : AtPc k s j p) (hf : Frame k k' s t j) : AtPc k' t j p := by
  cases p with
  | idle => exact fun hl => h (hf.storeLock.mp hl)
  | claiming => exact fun hl => h (hf.storeLock.mp hl)
  | scheduling => exact hf.storeLock.mpr h
  | starting => exact hf.storeLock.mpr h
  | invalidating snapshot version =>
    obtain ⟨hl, hv, hd⟩ := h
    exact ⟨hf.storeLock.mpr hl, hv.trans (hf.version hl).symm, hf.history hd⟩
  | snapshotting => exact ⟨h.1.trans hf.generation, fun hl => h.2 (hf.storeLock.mp hl)⟩
  | pending w =>
    obtain ⟨hw, hown⟩ := h
    refine ⟨hw.frame hf, fun hl => ?_⟩
    have hl := hf.storeLock.mp hl
    exact (hown hl).trans (hf.owner hl).symm
  | checking w =>
    obtain ⟨hw, hown, hlock⟩ := h
    refine ⟨hw.frame hf, fun hl => ?_, hf.writerLock hlock⟩
    have hl := hf.storeLock.mp hl
    exact (hown hl).trans (hf.owner hl).symm
  | writing w =>
    obtain ⟨⟨hv, hd, hnew⟩, hlock⟩ := h
    refine ⟨⟨hv.trans hf.stamp, hf.history hd, ?_⟩, hf.writerLock hlock⟩
    rw [hf.written hlock]
    exact hnew
  | _ => trivial

variable [DecidableEq τ] {p : SavePc}

/-- A thread moves to point `p`; the store, its history, the generation and the
file stay, and only locks of that thread are taken or released. -/
structure Moves (i : τ) (p : SavePc) (s t : SessionState τ) : Prop where
  pc : t.pc = Function.update s.pc i p
  store : t.store = s.store
  loaded : t.loaded = s.loaded
  mutations : t.mutations = s.mutations
  generation : t.saveGeneration = s.saveGeneration
  written : t.written = s.written
  storeLock : t.storeLock = s.storeLock ∨ s.storeLock = some i ∧ t.storeLock = none
  writerLock : ∀ j, j ≠ i → s.writerLock = some j → t.writerLock = some j

theorem Moves.stateAt (h : Moves i p s t) (v : ℕ) : t.stateAt v = s.stateAt v := by
  simp only [SessionState.stateAt, h.loaded, h.mutations]

theorem Moves.version (h : Moves i p s t) : t.version = s.version := by
  simp only [SessionState.version, h.mutations]

theorem Moves.owner (h : Moves i p s t) (hj : t.storeLock = some j) : s.storeLock = some j := by
  rcases h.storeLock with hl | ⟨-, hl⟩
  · rwa [hl] at hj
  · rw [hl] at hj
    cases hj

theorem Moves.frame (h : Moves i p s t) (hj : j ≠ i) : Frame k k s t j where
  storeLock := by
    constructor
    · exact h.owner
    · intro hl
      rcases h.storeLock with heq | ⟨hi, -⟩
      · rwa [heq]
      · rw [hi, Option.some.injEq] at hl
        exact absurd hl.symm hj
  writerLock := h.writerLock j hj
  history := by
    intro v data hv
    rwa [h.stateAt]
  version := fun _ => h.version
  generation := h.generation.ge
  owner := fun _ => h.generation
  stamp := le_rfl
  stampEq := fun _ => rfl
  written := fun _ => h.written

/-- The points after a step: the moved thread's own, and framed ones. -/
theorem Ordered.points_step (h : Ordered k s) (hpc : t.pc = Function.update s.pc i p)
    (hf : ∀ j, j ≠ i → Frame k k' s t j) (hi : AtPc k' t i p) :
    ∀ j, AtPc k' t j (t.pc j) := by
  intro j
  rw [hpc]
  by_cases hj : j = i
  · rw [hj, Function.update_self]
    exact hi
  · rw [Function.update_of_ne hj]
    exact (h.points j).frame (hf j hj)

theorem Ordered.moves (h : Ordered k s) (hm : Moves i p s t)
    (hs : (s.pc i).midMutation = false) (hi : AtPc k t i p) : Ordered k t where
  nonEmpty := hm.store ▸ h.nonEmpty
  current := by
    rw [hm.stateAt, hm.version, hm.store]
    exact h.current
  bounded := hm.version ▸ h.bounded
  settled := by
    intro hl
    rw [hm.version]
    rcases hm.storeLock with heq | ⟨hown, -⟩
    · exact h.settled (heq ▸ hl)
    · exact h.settledOwner i hown hs
  settledOwner := by
    intro j hl hj
    rw [hm.version]
    rw [hm.pc] at hj
    by_cases hji : j = i
    · exact h.settledOwner i (hji ▸ hm.owner hl) hs
    · rw [Function.update_of_ne hji] at hj
      exact h.settledOwner j (hm.owner hl) hj
  points := h.points_step hm.pc (fun j hj => hm.frame hj) hi
  sorted := hm.written ▸ h.sorted
  snapshots := by
    intro w hw
    rw [hm.stateAt]
    exact h.snapshots w (hm.written ▸ hw)

theorem moves_goto : Moves i p s (s.goto i p) :=
  ⟨rfl, rfl, rfl, rfl, rfl, rfl, .inl rfl, fun _ _ h => h⟩

theorem leave_storeLock :
    (s.leave i).storeLock = s.storeLock ∨ s.storeLock = some i ∧ (s.leave i).storeLock = none := by
  by_cases hl : s.storeLock = some i
  · exact .inr ⟨hl, if_pos hl⟩
  · exact .inl (if_neg hl)

theorem leave_released : (s.leave i).storeLock ≠ some i := by
  by_cases hl : s.storeLock = some i
  · simp [leave, hl]
  · simp [leave, goto, hl]

theorem moves_leave : Moves i .idle s (s.leave i) :=
  ⟨rfl, rfl, rfl, rfl, rfl, rfl, leave_storeLock, fun _ _ h => h⟩

/-! ## The steps that change the history, the generation or the file -/

/-- A changed store: the thread takes the store lock in the middle of a mutation. -/
theorem Ordered.changed {op : StoreOp} (h : Ordered k s) (hfree : s.storeLock = none)
    (hpc : t.pc = Function.update s.pc i p) (hp : p.midMutation = true)
    (hne : t.store.managedMessages.NonEmpty) (hloaded : t.loaded = s.loaded)
    (hmut : t.mutations = s.mutations ++ [(op, t.store.snapshotForPersistence)])
    (hgen : t.saveGeneration = s.saveGeneration) (hwritten : t.written = s.written)
    (hlock : t.storeLock = some i) (hwriter : t.writerLock = s.writerLock)
    (hi : AtPc k t i p) : Ordered k t := by
  have hver : t.version = s.version + 1 := by simp [SessionState.version, hmut]
  have hhist : ∀ {v d}, s.stateAt v = some d → t.stateAt v = some d :=
    fun hv => stateAt_append hmut hloaded hv
  have hframe : ∀ j, j ≠ i → Frame k k s t j := by
    intro j hj
    have hno : s.storeLock ≠ some j := by simp [hfree]
    refine ⟨⟨fun hl => ?_, fun hl => absurd hl hno⟩, by rw [hwriter]; exact id, hhist,
      fun hl => absurd hl hno, hgen.ge, fun _ => hgen, le_rfl, fun _ => rfl, fun _ => hwritten⟩
    rw [hlock] at hl
    exact absurd (Option.some.inj hl).symm hj
  exact {
    nonEmpty := hne
    current := by
      rw [hver]
      exact stateAt_last hmut
    bounded := by
      have := h.bounded
      omega
    settled := by
      intro hl
      rw [hlock] at hl
      cases hl
    settledOwner := by
      intro j hl hj
      rw [hlock] at hl
      cases hl
      rw [hpc, Function.update_self, hp] at hj
      cases hj
    points := h.points_step hpc hframe hi
    sorted := hwritten ▸ h.sorted
    snapshots := by
      intro w hw
      rw [hwritten] at hw
      exact ⟨(h.snapshots w hw).1, hhist (h.snapshots w hw).2⟩ }

/-- The generation advances under the store lock: every older snapshot is stale. -/
theorem Ordered.advanced (h : Ordered k s) (hown : s.storeLock = some i)
    (hpc : t.pc = Function.update s.pc i p) (hstore : t.store = s.store)
    (hloaded : t.loaded = s.loaded) (hmut : t.mutations = s.mutations)
    (hgen : t.saveGeneration = s.saveGeneration + 1) (hwritten : t.written = s.written)
    (hlock : t.storeLock = s.storeLock) (hwriter : t.writerLock = s.writerLock)
    (hi : AtPc s.version t i p) : Ordered s.version t := by
  have hver : t.version = s.version := by simp only [SessionState.version, hmut]
  have hhist : ∀ v, t.stateAt v = s.stateAt v := by
    intro v
    simp only [SessionState.stateAt, hmut, hloaded]
  have hframe : ∀ j, j ≠ i → Frame k s.version s t j := by
    intro j hj
    have hno : s.storeLock ≠ some j := by
      rw [hown]
      intro heq
      exact hj (Option.some.inj heq).symm
    refine ⟨by rw [hlock], by rw [hwriter]; exact id, fun hv => (hhist _).trans hv,
      fun _ => hver, by omega, fun hl => absurd hl hno, h.bounded, ?_, fun _ => hwritten⟩
    intro heq
    omega
  exact {
    nonEmpty := hstore ▸ h.nonEmpty
    current := by
      rw [hhist, hver, hstore]
      exact h.current
    bounded := hver.ge
    settled := fun _ => hver.symm
    settledOwner := fun _ _ _ => hver.symm
    points := h.points_step hpc hframe hi
    sorted := hwritten ▸ h.sorted
    snapshots := by
      intro w hw
      rw [hwritten] at hw
      rw [hhist]
      exact ⟨(h.snapshots w hw).1.trans h.bounded, (h.snapshots w hw).2⟩ }

/-- The file is replaced by a snapshot that passed the check. -/
theorem Ordered.replaced {w : PendingWrite} (h : Ordered k s) (hw : s.pc i = .writing w) :
    Ordered k (({ s with
      writerLock := none
      written := s.written ++ [w] } : SessionState τ).goto i (.marking w.generation)) := by
  obtain ⟨⟨hver, hsnap, hnew⟩, hlock⟩ : Admitted k s w ∧ s.writerLock = some i := by
    have := h.points i
    rwa [hw] at this
  have hframe : ∀ j, j ≠ i → Frame k k s (({ s with
      writerLock := none
      written := s.written ++ [w] } : SessionState τ).goto i (.marking w.generation)) j := by
    intro j hj
    have hno : s.writerLock ≠ some j := by
      rw [hlock]
      intro heq
      exact hj (Option.some.inj heq).symm
    exact ⟨Iff.rfl, fun hl => absurd hl hno, id, fun _ => rfl, le_rfl, fun _ => rfl, le_rfl,
      fun _ => rfl, fun hl => absurd hl hno⟩
  exact {
    nonEmpty := h.nonEmpty
    current := h.current
    bounded := h.bounded
    settled := h.settled
    settledOwner := by
      intro j hl hj
      by_cases hji : j = i
      · refine h.settledOwner j hl ?_
        rw [hji, hw]
        rfl
      · refine h.settledOwner j hl ?_
        simpa [goto, Function.update_of_ne hji] using hj
    points := h.points_step rfl hframe trivial
    sorted := by
      refine List.pairwise_append.mpr ⟨h.sorted, List.pairwise_singleton _ _, ?_⟩
      intro w' hw' v hv
      cases List.mem_singleton.mp hv
      exact hnew w' hw'
    snapshots := by
      intro w' hw'
      rcases List.mem_append.mp hw' with hw' | hw'
      · exact h.snapshots w' hw'
      · cases List.mem_singleton.mp hw'
        exact ⟨hver, hsnap⟩ }

/-! ## Every step -/

theorem Ordered.mutate {op : StoreOp} (h : Ordered k s) (hfree : s.storeLock = none) :
    Ordered k (s.mutate i op) := by
  have hne := SessionStore.nonEmpty_apply op h.nonEmpty
  cases hop : (s.store.apply op).2 with
  | nothing =>
    simp only [SessionState.mutate, hop]
    exact {
      nonEmpty := hne
      current := h.current.trans (congrArg some (SessionStore.apply_nothing h.nonEmpty hop).symm)
      bounded := h.bounded
      settled := h.settled
      settledOwner := h.settledOwner
      points := fun j => (h.points j).frame ⟨Iff.rfl, id, id, fun _ => rfl, le_rfl,
        fun _ => rfl, le_rfl, fun _ => rfl, fun _ => rfl⟩
      sorted := h.sorted
      snapshots := h.snapshots }
  | scheduleSave =>
    simp only [SessionState.mutate, hop]
    exact h.changed hfree rfl rfl hne rfl rfl rfl rfl rfl rfl rfl
  | writeCurrentState =>
    simp only [SessionState.mutate, hop]
    refine h.changed hfree rfl rfl hne rfl rfl rfl rfl rfl rfl ⟨rfl, ?_, stateAt_last rfl⟩
    simp [SessionState.version, goto]

/-- The step lemma. -/
theorem Ordered.advance (h : Ordered k s) (ht : s.advance i = some t) : ∃ k, Ordered k t := by
  have hi := h.points i
  unfold SessionState.advance at ht
  split at ht
  · cases ht
  · next hpc =>
    cases ht
    rw [hpc] at hi
    exact ⟨_, h.advanced hi rfl rfl rfl rfl rfl rfl rfl rfl hi⟩
  · next generation hpc =>
    cases ht
    exact ⟨k, h.moves ⟨rfl, rfl, rfl, rfl, rfl, rfl, leave_storeLock, fun _ _ h => h⟩
      (by rw [hpc]; rfl) leave_released⟩
  · next snapshot version hpc =>
    cases ht
    rw [hpc] at hi
    obtain ⟨hown, rfl, hsnap⟩ := hi
    refine ⟨_, h.advanced hown rfl rfl rfl rfl rfl rfl rfl rfl ⟨⟨le_rfl, fun _ => rfl, hsnap⟩, ?_⟩⟩
    exact fun _ => rfl
  · next expected hpc =>
    have hmid : (s.pc i).midMutation = false := by rw [hpc]; rfl
    rw [hpc] at hi
    split at ht
    · cases ht
      exact ⟨k, h.moves moves_leave hmid leave_released⟩
    · next generation s' hclaim =>
      cases ht
      unfold claimTimer at hclaim
      split_ifs at hclaim
      cases hclaim
      exact ⟨k, h.moves ⟨rfl, rfl, rfl, rfl, rfl, rfl, .inl rfl, fun _ _ h => h⟩ hmid
        ⟨Nat.le_refl s.saveGeneration, hi⟩⟩
  · next generation hpc =>
    split_ifs at ht with hfree
    cases ht
    rw [hpc] at hi
    -- the store lock is free, so the snapshot shows every mutation so far
    have hver := h.settled (hfree.resolve_right hi.2)
    exact ⟨k, h.moves moves_goto (by rw [hpc]; rfl)
      ⟨⟨hi.1, fun _ => hver.symm, h.current⟩, fun hl => absurd hl hi.2⟩⟩
  · next w hpc =>
    split_ifs at ht with hfree
    cases ht
    rw [hpc] at hi
    refine ⟨k, h.moves ⟨rfl, rfl, rfl, rfl, rfl, rfl, .inl rfl, ?_⟩ (by rw [hpc]; rfl)
      ⟨⟨hi.1.generation, hi.1.current, hi.1.snapshot⟩, hi.2, rfl⟩⟩
    intro j _ hl
    rw [hfree] at hl
    cases hl
  · next w hpc =>
    rw [hpc] at hi
    obtain ⟨hw, hown, hlock⟩ := hi
    have hmid : (s.pc i).midMutation = false := by rw [hpc]; rfl
    split_ifs at ht with hgen
    · cases ht
      refine ⟨k, h.moves ⟨rfl, rfl, rfl, rfl, rfl, rfl, leave_storeLock, ?_⟩ hmid leave_released⟩
      intro j hj hl
      rw [hlock] at hl
      exact absurd (Option.some.inj hl).symm hj
    · cases ht
      have hver := hw.current (not_not.mp hgen)
      refine ⟨k, h.moves moves_goto hmid ⟨⟨hver.le, hw.snapshot, ?_⟩, hlock⟩⟩
      intro w' hw'
      exact (h.snapshots w' hw').1.trans hver.ge
  · next w hpc =>
    cases ht
    exact ⟨k, h.replaced hpc⟩
  · next hpc =>
    split_ifs at ht with hfree
    cases ht
    exact ⟨k, h.moves ⟨rfl, rfl, rfl, rfl, rfl, rfl, leave_storeLock, fun _ _ h => h⟩
      (by rw [hpc]; rfl) leave_released⟩
  · next generation hpc =>
    have hmid : (s.pc i).midMutation = false := by rw [hpc]; rfl
    split_ifs at ht with hcur
    · cases ht
      exact ⟨k, h.moves moves_goto hmid trivial⟩
    · cases ht
      exact ⟨k, h.moves moves_leave hmid leave_released⟩
  · next hpc =>
    split_ifs at ht with hfree
    cases ht
    exact ⟨k, h.moves ⟨rfl, rfl, rfl, rfl, rfl, rfl, leave_storeLock, fun _ _ h => h⟩
      (by rw [hpc]; rfl) leave_released⟩

theorem Ordered.act {a : Action} (h : Ordered k s) (ht : s.act i a = some t) :
    ∃ k, Ordered k t := by
  have hi := h.points i
  cases a with
  | call op =>
    simp only [SessionState.act] at ht
    split at ht
    · split_ifs at ht with hfree
      cases ht
      exact ⟨k, h.mutate hfree⟩
    · cases ht
  | flush =>
    simp only [SessionState.act] at ht
    split at ht
    · next hpc =>
      split_ifs at ht with hfree
      cases ht
      rw [hpc] at hi
      exact ⟨k, h.moves ⟨rfl, rfl, rfl, rfl, rfl, rfl, .inl rfl, fun _ _ h => h⟩
        (by rw [hpc]; rfl) hi⟩
    · cases ht
  | fire generation =>
    simp only [SessionState.act] at ht
    split at ht
    · next hpc =>
      split_ifs at ht with hfire
      cases ht
      rw [hpc] at hi
      exact ⟨k, h.moves ⟨rfl, rfl, rfl, rfl, rfl, rfl, .inl rfl, fun _ _ h => h⟩
        (by rw [hpc]; rfl) hi⟩
    · cases ht
  | advance => exact h.advance ht
  | fail =>
    simp only [SessionState.act] at ht
    split at ht
    · next hpc =>
      cases ht
      exact ⟨k, h.moves moves_leave (by rw [hpc]; rfl) leave_released⟩
    · next w hpc =>
      cases ht
      rw [hpc] at hi
      refine ⟨k, h.moves ⟨rfl, rfl, rfl, rfl, rfl, rfl, .inl rfl, ?_⟩ (by rw [hpc]; rfl) trivial⟩
      intro j hj hl
      rw [hi.2] at hl
      exact absurd (Option.some.inj hl).symm hj
    · cases ht

omit [DecidableEq τ] in
theorem ordered_fresh {conversation : ConversationSnapshot} {rawMessages : Json}
    {cap : Option ℤ} :
    Ordered 0 (fresh (.load conversation rawMessages cap) : SessionState τ) where
  nonEmpty := ManagedMessageLog.nonEmpty_fromJson rawMessages cap
  current := rfl
  bounded := le_rfl
  settled := fun _ => rfl
  settledOwner := fun _ _ _ => rfl
  points := by
    intro i hl
    cases hl
  sorted := .nil
  snapshots := by
    intro w hw
    cases hw

/-- The run lemma: some version stamps the current generation in every reached state. -/
theorem ordered_of_reachable (hs : (sessionSystem τ).Reachable s) : ∃ k, Ordered k s := by
  refine System.Reachable.invariant (P := fun s => ∃ k, Ordered k s) ?_ ?_ hs
  · rintro s ⟨conversation, rawMessages, cap, rfl⟩
    exact ⟨0, ordered_fresh⟩
  · rintro s ⟨i, a⟩ t - ⟨k, h⟩ hst
    exact h.act hst

theorem mutations_advance (ht : s.advance i = some t) : t.mutations = s.mutations := by
  unfold SessionState.advance at ht
  split at ht <;> (try split at ht) <;> cases ht <;> try rfl
  next hclaim =>
    unfold claimTimer at hclaim
    split_ifs at hclaim
    cases hclaim
    rfl

/-- A step records no mutation, or the one it makes with the contents it leaves. -/
theorem mutations_act {a : Action} (ht : s.act i a = some t) :
    t.mutations = s.mutations ∨ ∃ op,
      t.mutations = s.mutations ++ [(op, (s.store.apply op).1.snapshotForPersistence)] := by
  cases a with
  | call op =>
    simp only [SessionState.act] at ht
    split at ht
    · split_ifs at ht
      cases ht
      unfold SessionState.mutate
      dsimp only
      split
      · exact .inl rfl
      · exact .inr ⟨op, rfl⟩
      · exact .inr ⟨op, rfl⟩
    · cases ht
  | advance => exact .inl (mutations_advance ht)
  | _ =>
    simp only [SessionState.act] at ht
    split at ht <;> (first | split_ifs at ht | skip) <;> cases ht <;> exact .inl rfl

/-- Every recorded mutation was made by its operation. -/
theorem mutation_of_reachable (hs : (sessionSystem τ).Reachable s) :
    ∀ m ∈ s.mutations, ∃ store : SessionStore,
      m.2 = (store.apply m.1).1.snapshotForPersistence := by
  refine System.Reachable.invariant (P := fun s => ∀ m ∈ s.mutations, ∃ store : SessionStore,
    m.2 = (store.apply m.1).1.snapshotForPersistence) ?_ ?_ hs
  · rintro s ⟨conversation, rawMessages, cap, rfl⟩ m hm
    cases hm
  · rintro s ⟨i, a⟩ t - ih hst m hm
    rcases mutations_act hst with hmut | ⟨op, hmut⟩
    · exact ih m (hmut ▸ hm)
    · rw [hmut] at hm
      rcases List.mem_append.mp hm with hm | hm
      · exact ih m hm
      · cases List.mem_singleton.mp hm
        exact ⟨s.store, rfl⟩

/-- A clear holds the store lock until its own write: no snapshot supersedes it. -/
theorem clear_not_superseded {w : PendingWrite} (hs : (sessionSystem τ).Reachable s)
    (hpc : s.pc i = .checking w) (hown : s.storeLock = some i) :
    w.generation = s.saveGeneration := by
  obtain ⟨k, h⟩ := ordered_of_reachable hs
  have hi := h.points i
  rw [hpc] at hi
  exact hi.2.1 hown

end SessionState

open SessionState

/-- In every state of every run the contents written to the file are in mutation
order, each is the state after the mutations it counts, and what is written after
the empty state of a clear counts that clear. -/
theorem session_writes_ordered {τ : Type} [DecidableEq τ] (s : SessionState τ)
    (hs : (sessionSystem τ).Reachable s) :
    s.written.Pairwise (fun w w' => w.version ≤ w'.version) ∧
      (∀ w ∈ s.written, s.stateAt w.version = some w.snapshot) ∧
      ∀ before w after scope, s.written = before ++ w :: after → s.ClearedAt scope w.version →
        (∀ identity tree, w.snapshot.conversation.getTree identity = some tree →
            identity.scope ≠ scope) ∧
          w.snapshot.managedMessages.get? (makeChatKey scope.platform scope.chatId) = none ∧
          ∀ w' ∈ after, w.version ≤ w'.version := by
  obtain ⟨k, h⟩ := ordered_of_reachable hs
  refine ⟨h.sorted, fun w hw => (h.snapshots w hw).2, ?_⟩
  rintro before w after scope hsplit ⟨n, data, hv, hn⟩
  have hsnap : s.stateAt w.version = some w.snapshot := by
    refine (h.snapshots w ?_).2
    rw [hsplit]
    simp
  have hdata : w.snapshot = data := by
    simpa [stateAt, hv, hn, eq_comm] using hsnap
  obtain ⟨store, hstore⟩ := mutation_of_reachable hs _ (List.mem_of_getElem? hn)
  obtain ⟨htrees, hmessages⟩ := SessionStore.clearScope_empty (s := store) scope
  rw [hdata, show data = _ from hstore]
  refine ⟨htrees, hmessages, ?_⟩
  intro w' hw'
  have hsorted := h.sorted
  rw [hsplit] at hsorted
  exact (List.pairwise_cons.mp (List.pairwise_append.mp hsorted).2.1).1 w' hw'

/-! ## A clear overtakes a flush -/

section Example

/-- Thread `false` saves and clears a chat; thread `true` takes its snapshot in
between and finds it superseded. -/
def clearOvertakesFlush : List (Bool × Action) :=
  [(false, .call (.removeTreeSnapshot ⟨⟨"telegram", "7"⟩, "10"⟩)), (false, .advance),
    (false, .advance), (true, .flush), (true, .advance), (true, .advance),
    (false, .call (.clearScope ⟨"telegram", "7"⟩)), (false, .advance), (true, .advance),
    (true, .advance), (false, .advance), (false, .advance), (false, .advance)]

def sampleSession : Option (SessionState Bool) :=
  System.replay (fun s a => s.act a.1 a.2) (.fresh (.load ⟨.empty⟩ .null none))
    clearOvertakesFlush

theorem session_writes_ordered_sample :
    ∃ s : SessionState Bool, sampleSession = some s ∧ s.written.map (·.version) = [2] ∧
      s.written.Pairwise fun w w' => w.version ≤ w'.version := by
  have hsome : sampleSession.isSome = true := by decide
  obtain ⟨s, hs⟩ := Option.isSome_iff_exists.mp hsome
  have hreach : (sessionSystem Bool).Reachable s :=
    System.Reachable.replay (fun _ a _ h => ⟨a, h⟩) (.start ⟨⟨.empty⟩, .null, none, rfl⟩) hs
  have hwritten : sampleSession.map (fun s => s.written.map (·.version)) = some [2] := by decide
  rw [hs] at hwritten
  exact ⟨s, hs, Option.some.inj hwritten, (session_writes_ordered s hreach).1⟩

end Example

end Switchboard.Messaging
