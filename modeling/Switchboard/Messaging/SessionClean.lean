import Switchboard.Messaging.SessionWrites

/-!
# A clean session store is saved

The flag is cleared in one section and the decision to clear it is made in an earlier
one. While no mutation advances the generation in between, the file of a clean store
holds its contents.
-/

namespace Switchboard.Messaging

namespace SessionState

variable {τ : Type} {s t : SessionState τ} {i j : τ} {k : ℕ} {w w' : PendingWrite}

/-- What the session file encodes, when a run began with the given file. -/
def sessionFile (initialFile : Option SessionData) (s : SessionState τ) : Option SessionData :=
  match s.written.getLast? with
  | some w => some w.snapshot
  | none => initialFile

/-- When a thread clears the flag, the file is still that of the current generation. -/
def FlagCurrent (s : SessionState τ) (l : τ × Action) : Prop :=
  l.2 = .advance → s.pc l.1 = .cleaning →
    s.written.getLast?.map (·.generation) = some s.saveGeneration

/-- No thread has changed the store without advancing the generation yet. -/
def Settled (s : SessionState τ) : Prop :=
  ∀ i, s.storeLock = some i → (s.pc i).midMutation = false

/-- A write of the current generation shows the current contents. -/
structure Stamp (s : SessionState τ) (w : PendingWrite) : Prop where
  generation : w.generation ≤ s.saveGeneration
  current : w.generation = s.saveGeneration → s.Settled →
    w.snapshot = s.store.snapshotForPersistence

/-- What a clean store, its file and the writes on their way have in common. -/
structure Saved (s : SessionState τ) : Prop where
  settled : s.Settled
  file : s.sessionFile (some s.loaded) = some s.store.snapshotForPersistence
  writing : ∀ i w, s.pc i = .writing w → w.snapshot = s.store.snapshotForPersistence

structure Stamped (s : SessionState τ) : Prop where
  written : ∀ w ∈ s.written, Stamp s w
  writing : ∀ i w, s.pc i = .writing w →
    Stamp s w ∧ ∀ w' ∈ s.written, w'.generation ≤ w.generation
  clean : s.dirty = false → s.Saved

theorem Ordered.version_of_settled (h : Ordered k s) (hs : s.Settled) : k = s.version := by
  cases hlock : s.storeLock with
  | none => exact h.settled hlock
  | some i => exact h.settledOwner i hlock (hs i hlock)

/-- What passes the check shows the current contents, unless a mutation is under way. -/
theorem Fresh.stamp (h : Fresh k s w) (hk : Ordered k s) : Stamp s w := by
  refine ⟨h.generation, fun hgen hsettled => ?_⟩
  have hsnapshot := h.snapshot
  rw [h.current hgen, hk.version_of_settled hsettled, hk.current] at hsnapshot
  exact (Option.some.inj hsnapshot).symm

variable [DecidableEq τ] {p : SavePc}

theorem Moves.settled (hm : Moves i p s t) (hs : (s.pc i).midMutation = false)
    (ht : t.Settled) : s.Settled := by
  intro j hj
  by_cases hji : j = i
  · rw [hji]
    exact hs
  · have hlock := (hm.frame (k := 0) hji).storeLock.mpr hj
    have hpoint := ht j hlock
    rwa [hm.pc, Function.update_of_ne hji] at hpoint

theorem Moves.settled' (hm : Moves i p s t) (hp : p.midMutation = false) (hs : s.Settled) :
    t.Settled := by
  intro j hj
  have hpoint := hs j (hm.owner hj)
  rw [hm.pc]
  by_cases hji : j = i
  · rwa [hji, Function.update_self]
  · rwa [Function.update_of_ne hji]

theorem Stamp.moves (h : Stamp s w) (hm : Moves i p s t) (hs : (s.pc i).midMutation = false) :
    Stamp t w := by
  refine ⟨hm.generation.symm ▸ h.generation, fun hgen ht => ?_⟩
  rw [hm.store]
  exact h.current (hgen.trans hm.generation) (hm.settled hs ht)

theorem writing_of_update (hpc : t.pc = Function.update s.pc i p) (hp : ∀ w, p ≠ .writing w)
    (h : t.pc j = .writing w) : j ≠ i ∧ s.pc j = .writing w := by
  rw [hpc] at h
  by_cases hji : j = i
  · rw [hji, Function.update_self] at h
    exact absurd h (hp w)
  · rw [Function.update_of_ne hji] at h
    exact ⟨hji, h⟩

theorem Saved.moves (h : s.Saved) (hm : Moves i p s t) (hmid : p.midMutation = false)
    (hp : ∀ w, p ≠ .writing w) : t.Saved where
  settled := hm.settled' hmid h.settled
  file := by
    unfold sessionFile
    rw [hm.written, hm.loaded, hm.store]
    exact h.file
  writing := by
    intro j w hj
    rw [hm.store]
    exact h.writing j w (writing_of_update hm.pc hp hj).2

/-- A step that only leads a thread from one point to another. -/
theorem Stamped.moves (h : s.Stamped) (hm : Moves i p s t) (hs : (s.pc i).midMutation = false)
    (hmid : p.midMutation = false) (hp : ∀ w, p ≠ .writing w)
    (hdirty : t.dirty = false → s.dirty = false) : t.Stamped where
  written := by
    intro w hw
    rw [hm.written] at hw
    exact (h.written w hw).moves hm hs
  writing := by
    intro j w hj
    obtain ⟨hstamp, hnewest⟩ := h.writing j w (writing_of_update hm.pc hp hj).2
    rw [hm.written]
    exact ⟨hstamp.moves hm hs, hnewest⟩
  clean := fun ht => (h.clean (hdirty ht)).moves hm hmid hp

end SessionState

namespace SessionState

variable {τ : Type} {s t : SessionState τ} {i j : τ} {k : ℕ} {w : PendingWrite} [DecidableEq τ]
  {p : SavePc}

/-! ## The steps that change the store, the generation or the file -/

/-- A changed store is dirty, and in the middle of a mutation. -/
theorem Stamped.changed (h : s.Stamped) (hpc : t.pc = Function.update s.pc i p)
    (hp : p.midMutation = true) (hgen : t.saveGeneration = s.saveGeneration)
    (hwritten : t.written = s.written) (hlock : t.storeLock = some i) (hdirty : t.dirty = true) :
    t.Stamped := by
  have hunsettled : ¬ t.Settled := by
    intro ht
    have hi := ht i hlock
    rw [hpc, Function.update_self, hp] at hi
    cases hi
  have hstamp : ∀ {w}, Stamp s w → Stamp t w := fun hw =>
    ⟨hgen.symm ▸ hw.generation, fun _ ht => absurd ht hunsettled⟩
  have hnot : ∀ w, p ≠ .writing w := by
    rintro w rfl
    cases hp
  refine ⟨fun w hw => hstamp (h.written w (hwritten ▸ hw)), fun j w hj => ?_, fun ht => ?_⟩
  · obtain ⟨hw, hnewest⟩ := h.writing j w (writing_of_update hpc hnot hj).2
    exact ⟨hstamp hw, fun w' hw' => hnewest w' (hwritten ▸ hw')⟩
  · rw [hdirty] at ht
    cases ht

/-- An advanced generation makes what is written or on its way an older one's. -/
theorem Stamped.advanced (h : s.Stamped) (hpc : t.pc = Function.update s.pc i p)
    (hs : (s.pc i).midMutation = true) (hown : s.storeLock = some i)
    (hp : ∀ w, p ≠ .writing w) (hgen : t.saveGeneration = s.saveGeneration + 1)
    (hwritten : t.written = s.written) (hdirty : t.dirty = s.dirty) : t.Stamped := by
  have hstamp : ∀ {w}, Stamp s w → Stamp t w := by
    intro w hw
    have hle := hw.generation
    refine ⟨by omega, fun heq => ?_⟩
    omega
  refine ⟨fun w hw => hstamp (h.written w (hwritten ▸ hw)), fun j w hj => ?_, fun ht => ?_⟩
  · obtain ⟨hw, hnewest⟩ := h.writing j w (writing_of_update hpc hp hj).2
    exact ⟨hstamp hw, fun w' hw' => hnewest w' (hwritten ▸ hw')⟩
  · -- a clean store is not in the middle of a mutation
    have hsettled := (h.clean (hdirty ▸ ht)).settled i hown
    rw [hs] at hsettled
    cases hsettled

omit [DecidableEq τ] in
theorem Stamped.nothing {store : SessionStore} (h : s.Stamped)
    (hstore : store.snapshotForPersistence = s.store.snapshotForPersistence) :
    Stamped ({ s with store := store } : SessionState τ) := by
  have hstamp : ∀ {w}, Stamp s w → Stamp ({ s with store := store } : SessionState τ) w :=
    fun hw => ⟨hw.generation, fun hgen ht => (hw.current hgen ht).trans hstore.symm⟩
  refine ⟨fun w hw => hstamp (h.written w hw), fun j w hj => ?_, fun ht => ?_⟩
  · exact ⟨hstamp (h.writing j w hj).1, (h.writing j w hj).2⟩
  · obtain ⟨hsettled, hfile, hwriting⟩ := h.clean ht
    exact ⟨hsettled, hfile.trans (congrArg some hstore.symm),
      fun j w hj => (hwriting j w hj).trans hstore.symm⟩

/-- A snapshot passes the check. -/
theorem Stamped.checked (h : s.Stamped) (hk : Ordered k s) (hpc : s.pc i = .checking w)
    (hgen : w.generation = s.saveGeneration) : (s.goto i (.writing w)).Stamped := by
  have hfresh : Fresh k s w := by
    have hi := hk.points i
    rw [hpc] at hi
    exact hi.1
  have hmid : (s.pc i).midMutation = false := by rw [hpc]; rfl
  have hm : Moves i (.writing w) s (s.goto i (.writing w)) := moves_goto
  have hcases : ∀ {j w'}, (s.goto i (.writing w)).pc j = .writing w' →
      w' = w ∨ s.pc j = .writing w' := by
    intro j w' hj
    rw [hm.pc] at hj
    by_cases hji : j = i
    · rw [hji, Function.update_self] at hj
      cases hj
      exact .inl rfl
    · rw [Function.update_of_ne hji] at hj
      exact .inr hj
  refine ⟨fun w' hw' => (h.written w' hw').moves hm hmid, fun j w' hj => ?_, fun ht => ?_⟩
  · obtain rfl | hj := hcases hj
    · exact ⟨(hfresh.stamp hk).moves hm hmid, fun w' hw' => hgen ▸ (h.written w' hw').generation⟩
    · exact ⟨(h.writing j w' hj).1.moves hm hmid, (h.writing j w' hj).2⟩
  · obtain ⟨hsettled, hfile, hwriting⟩ := h.clean ht
    refine ⟨hm.settled' rfl hsettled, hfile, fun j w' hj => ?_⟩
    obtain rfl | hj := hcases hj
    · exact (hfresh.stamp hk).current hgen hsettled
    · exact hwriting j w' hj

/-- The file is replaced; no other thread is about to do so. -/
theorem Stamped.replaced (h : s.Stamped) (hk : Ordered k s) (hpc : s.pc i = .writing w) :
    Stamped (({ s with
      writerLock := none
      written := s.written ++ [w] } : SessionState τ).goto i (.marking w.generation)) := by
  have honly : ∀ {j w'}, (({ s with
      writerLock := none
      written := s.written ++ [w] } : SessionState τ).goto i (.marking w.generation)).pc j ≠
      .writing w' := by
    intro j w' hj
    obtain ⟨hji, hj⟩ := writing_of_update rfl (by simp) hj
    have hlocks : s.writerLock = some i ∧ s.writerLock = some j := by
      have hi := hk.points i
      have hj' := hk.points j
      rw [hpc] at hi
      rw [hj] at hj'
      exact ⟨hi.2, hj'.2⟩
    exact hji (Option.some.inj (hlocks.2.symm.trans hlocks.1))
  have hmid : (s.pc i).midMutation = false := by rw [hpc]; rfl
  have hsettled : Settled (({ s with
      writerLock := none
      written := s.written ++ [w] } : SessionState τ).goto i (.marking w.generation)) →
      s.Settled := by
    intro ht j hj
    by_cases hji : j = i
    · rw [hji]
      exact hmid
    · have hpoint := ht j hj
      simpa [goto, Function.update_of_ne hji] using hpoint
  have hstamp : ∀ {w'}, Stamp s w' → Stamp (({ s with
      writerLock := none
      written := s.written ++ [w] } : SessionState τ).goto i (.marking w.generation)) w' :=
    fun hw => ⟨hw.generation, fun hgen ht => hw.current hgen (hsettled ht)⟩
  refine ⟨fun w' hw' => ?_, fun j w' hj => absurd hj honly, fun ht => ?_⟩
  · rcases List.mem_append.mp hw' with hw' | hw'
    · exact hstamp (h.written w' hw')
    · rw [List.mem_singleton.mp hw']
      exact hstamp (h.writing i w hpc).1
  · obtain ⟨hclean, -, hwriting⟩ := h.clean ht
    refine ⟨fun j hj => ?_, ?_, fun j w' hj => absurd hj honly⟩
    · have hpoint := hclean j hj
      by_cases hji : j = i
      · simp [goto, hji, SavePc.midMutation]
      · simpa [goto, Function.update_of_ne hji] using hpoint
    · simp only [sessionFile, goto, List.getLast?_append, List.getLast?_singleton, Option.or]
      exact congrArg some (hwriting i w hpc)

/-- The flag is cleared while the file is that of the current generation. -/
theorem Stamped.cleaned (h : s.Stamped) (hpc : s.pc i = .cleaning) (hfree : s.storeFree i)
    (hcurrent : s.written.getLast?.map (·.generation) = some s.saveGeneration) :
    Stamped ({ s with dirty := false }.leave i) := by
  have hmid : (s.pc i).midMutation = false := by rw [hpc]; rfl
  have hm : Moves i .idle s ({ s with dirty := false }.leave i) :=
    ⟨rfl, rfl, rfl, rfl, rfl, rfl, leave_storeLock, fun _ _ h => h⟩
  have hsettled : s.Settled := by
    intro j hj
    rcases hfree with hnone | hown
    · rw [hnone] at hj
      cases hj
    · rw [hown] at hj
      cases hj
      exact hmid
  obtain ⟨last, hlast, hgen⟩ := Option.map_eq_some_iff.mp hcurrent
  have hwritten := List.mem_of_getLast? hlast
  have hsaved : s.Saved := by
    refine ⟨hsettled, ?_, fun j w hj => ?_⟩
    · unfold sessionFile
      rw [hlast]
      exact congrArg some ((h.written last hwritten).current hgen hsettled)
    · obtain ⟨hstamp, hnewest⟩ := h.writing j w hj
      have hge := hnewest last hwritten
      have hle := hstamp.generation
      exact hstamp.current (by omega) hsettled
  refine ⟨fun w hw => (h.written w hw).moves hm hmid, fun j w hj => ?_,
    fun _ => hsaved.moves hm rfl (by simp)⟩
  obtain ⟨hstamp, hnewest⟩ := h.writing j w (writing_of_update hm.pc (by simp) hj).2
  exact ⟨hstamp.moves hm hmid, hnewest⟩

end SessionState

/-! ## Every step -/

namespace SessionState

variable {τ : Type} {s t : SessionState τ} {i : τ} {k : ℕ} [DecidableEq τ]

theorem Stamped.mutate {op : StoreOp} (h : s.Stamped) (hk : Ordered k s) :
    (s.mutate i op).Stamped := by
  cases hop : (s.store.apply op).2 with
  | nothing =>
    simp only [SessionState.mutate, hop]
    exact h.nothing (SessionStore.apply_nothing hk.nonEmpty hop)
  | scheduleSave =>
    simp only [SessionState.mutate, hop]
    exact h.changed rfl rfl rfl rfl rfl rfl
  | writeCurrentState =>
    simp only [SessionState.mutate, hop]
    exact h.changed rfl rfl rfl rfl rfl rfl

theorem Stamped.advance (h : s.Stamped) (hk : Ordered k s) (hc : FlagCurrent s (i, .advance))
    (ht : s.advance i = some t) : t.Stamped := by
  have hi := hk.points i
  unfold SessionState.advance at ht
  split at ht
  · cases ht
  · next hpc =>
    cases ht
    rw [hpc] at hi
    exact h.advanced rfl (by rw [hpc]; rfl) hi (by simp) rfl rfl rfl
  · next generation hpc =>
    cases ht
    exact h.moves ⟨rfl, rfl, rfl, rfl, rfl, rfl, leave_storeLock, fun _ _ h => h⟩
      (by rw [hpc]; rfl) rfl (by simp) id
  · next snapshot version hpc =>
    cases ht
    rw [hpc] at hi
    exact h.advanced rfl (by rw [hpc]; rfl) hi.1 (by simp) rfl rfl rfl
  · next expected hpc =>
    have hmid : (s.pc i).midMutation = false := by rw [hpc]; rfl
    split at ht
    · cases ht
      exact h.moves moves_leave hmid rfl (by simp) id
    · next generation s' hclaim =>
      cases ht
      unfold claimTimer at hclaim
      split_ifs at hclaim
      cases hclaim
      exact h.moves ⟨rfl, rfl, rfl, rfl, rfl, rfl, .inl rfl, fun _ _ h => h⟩ hmid rfl (by simp) id
  · next generation hpc =>
    split_ifs at ht
    cases ht
    exact h.moves moves_goto (by rw [hpc]; rfl) rfl (by simp) id
  · next w hpc =>
    split_ifs at ht with hfree
    cases ht
    refine h.moves ⟨rfl, rfl, rfl, rfl, rfl, rfl, .inl rfl, ?_⟩ (by rw [hpc]; rfl) rfl (by simp) id
    intro j _ hl
    rw [hfree] at hl
    cases hl
  · next w hpc =>
    rw [hpc] at hi
    split_ifs at ht with hgen
    · cases ht
      refine h.moves ⟨rfl, rfl, rfl, rfl, rfl, rfl, leave_storeLock, ?_⟩ (by rw [hpc]; rfl) rfl
        (by simp) id
      intro j hj hl
      rw [hi.2.2] at hl
      exact absurd (Option.some.inj hl).symm hj
    · cases ht
      exact h.checked hk hpc (not_not.mp hgen)
  · next w hpc =>
    cases ht
    exact h.replaced hk hpc
  · next hpc =>
    split_ifs at ht
    cases ht
    refine h.moves ⟨rfl, rfl, rfl, rfl, rfl, rfl, leave_storeLock, fun _ _ h => h⟩
      (by rw [hpc]; rfl) rfl (by simp) fun hdirty => ?_
    cases hdirty
  · next generation hpc =>
    have hmid : (s.pc i).midMutation = false := by rw [hpc]; rfl
    split_ifs at ht
    · cases ht
      exact h.moves moves_goto hmid rfl (by simp) id
    · cases ht
      exact h.moves moves_leave hmid rfl (by simp) id
  · next hpc =>
    split_ifs at ht with hfree
    cases ht
    exact h.cleaned hpc hfree (hc rfl hpc)

theorem Stamped.act {a : Action} (h : s.Stamped) (hk : Ordered k s) (hc : FlagCurrent s (i, a))
    (ht : s.act i a = some t) : t.Stamped := by
  have hi := hk.points i
  cases a with
  | call op =>
    simp only [SessionState.act] at ht
    split at ht
    · split_ifs at ht
      cases ht
      exact h.mutate hk
    · cases ht
  | flush =>
    simp only [SessionState.act] at ht
    split at ht
    · next hpc =>
      split_ifs at ht
      cases ht
      refine h.moves ⟨rfl, rfl, rfl, rfl, rfl, rfl, .inl rfl, fun _ _ h => h⟩ (by rw [hpc]; rfl)
        rfl (by simp) fun hdirty => ?_
      cases hdirty
    · cases ht
  | fire generation =>
    simp only [SessionState.act] at ht
    split at ht
    · next hpc =>
      split_ifs at ht
      cases ht
      exact h.moves ⟨rfl, rfl, rfl, rfl, rfl, rfl, .inl rfl, fun _ _ h => h⟩ (by rw [hpc]; rfl)
        rfl (by simp) id
    · cases ht
  | advance => exact h.advance hk hc ht
  | fail =>
    simp only [SessionState.act] at ht
    split at ht
    · next hpc =>
      cases ht
      exact h.moves moves_leave (by rw [hpc]; rfl) rfl (by simp) id
    · next w hpc =>
      cases ht
      rw [hpc] at hi
      refine h.moves ⟨rfl, rfl, rfl, rfl, rfl, rfl, .inl rfl, ?_⟩ (by rw [hpc]; rfl) rfl (by simp)
        id
      intro j hj hl
      rw [hi.2] at hl
      exact absurd (Option.some.inj hl).symm hj
    · cases ht

omit [DecidableEq τ] in
theorem stamped_fresh (store : SessionStore) : (fresh store : SessionState τ).Stamped where
  written := by
    intro w hw
    cases hw
  writing := by
    intro i w hi
    cases hi
  clean := by
    refine fun _ => ⟨?_, rfl, ?_⟩
    · intro i hi
      cases hi
    · intro i w hi
      cases hi

/-- The run lemma. -/
theorem stamped_of_reach (hs : (sessionSystem τ).Reach FlagCurrent s) : s.Stamped := by
  refine System.Reach.invariant (P := fun s => s.Stamped) ?_ ?_ hs
  · rintro s ⟨conversation, rawMessages, cap, rfl⟩
    exact stamped_fresh _
  · rintro s ⟨i, a⟩ t hr h hc hst
    obtain ⟨k, hk⟩ := ordered_of_reachable hr.reachable
    exact h.act hk hc hst

end SessionState

open SessionState

/-- In every run that began with a file of the loaded contents, and in which the flag is
only cleared while the file is that of the current generation, the file of a clean store
holds its contents. -/
theorem clean_session_saved {τ : Type} [DecidableEq τ] {s : SessionState τ}
    {initialFile : Option SessionData} (hs : (sessionSystem τ).Reach FlagCurrent s)
    (hfile : initialFile = some s.loaded) (hclean : s.dirty = false) :
    s.sessionFile initialFile = some s.store.snapshotForPersistence := by
  rw [hfile]
  exact ((stamped_of_reach hs).clean hclean).file

/-! ## A mutation between the decision and the flag -/

section Example

def isCleaning : SavePc → Bool
  | .cleaning => true
  | _ => false

/-- A step that `FlagCurrent` allows. -/
def guardedAct (s : SessionState Bool) (l : Bool × Action) : Option (SessionState Bool) :=
  if isCleaning (s.pc l.1) ∧ s.written.getLast?.map (·.generation) ≠ some s.saveGeneration then none
  else s.act l.1 l.2

theorem guardedAct_step {s t : SessionState Bool} {l : Bool × Action}
    (h : guardedAct s l = some t) : FlagCurrent s l ∧ s.act l.1 l.2 = some t := by
  unfold guardedAct at h
  split_ifs at h with hguard
  refine ⟨fun _ hpc => ?_, h⟩
  by_contra hne
  exact hguard ⟨by rw [hpc]; rfl, hne⟩

/-- Thread `false` changes the store; the timer of the change fires on thread `true`,
which writes the file and decides to clear the flag. -/
def savedByTimer : List (Bool × Action) :=
  [(false, .call (.removeTreeSnapshot ⟨⟨"telegram", "7"⟩, "10"⟩)), (false, .advance),
    (false, .advance), (true, .fire 1), (true, .advance), (true, .advance), (true, .advance),
    (true, .advance), (true, .advance), (true, .advance)]

def emptySession : SessionState Bool := .fresh (.load ⟨.empty⟩ .null none)

def savedSession : Option (SessionState Bool) :=
  System.replay guardedAct emptySession (savedByTimer ++ [(true, .advance)])

theorem clean_session_saved_sample :
    ∃ s : SessionState Bool, savedSession = some s ∧ s.dirty = false ∧ s.written.length = 1 ∧
      s.sessionFile (some s.loaded) = some s.store.snapshotForPersistence := by
  have hsome : savedSession.isSome = true := by decide
  obtain ⟨s, hs⟩ := Option.isSome_iff_exists.mp hsome
  have hreach : (sessionSystem Bool).Reach FlagCurrent s :=
    System.Reach.replay (fun _ a _ h => ⟨a, guardedAct_step h⟩)
      (.start ⟨⟨.empty⟩, .null, none, rfl⟩) hs
  have hclean : savedSession.map (fun s => (s.dirty, s.written.length)) = some (false, 1) := by
    decide
  rw [hs] at hclean
  obtain ⟨hdirty, hlength⟩ := Prod.ext_iff.mp (Option.some.inj hclean)
  exact ⟨s, hs, hdirty, hlength, clean_session_saved hreach rfl hdirty⟩

/-- Thread `false` records a message before thread `true` clears the flag. -/
def mutationInBetween : List (Bool × Action) :=
  savedByTimer ++ [(false, .call (.recordMessageId "telegram" "7" ⟨"1", "0", "in", "user"⟩)),
    (false, .advance), (false, .advance), (true, .advance)]

def lostSession : Option (SessionState Bool) :=
  System.replay (fun s a => s.act a.1 a.2) emptySession mutationInBetween

def isIdle : SavePc → Bool
  | .idle => true
  | _ => false

theorem eq_idle {p : SavePc} (h : isIdle p = true) : p = .idle := by
  cases p <;> first | rfl | cases h

/-- What tells the file of the lost session and its store apart. -/
def observed (s : SessionState Bool) : (Bool × Bool) × Option ℕ × ℕ :=
  ((s.dirty, isIdle (s.pc false) && isIdle (s.pc true)),
    (s.sessionFile (some s.loaded)).map (·.managedMessages.keys.length),
    s.store.snapshotForPersistence.managedMessages.keys.length)

/-- The store is clean and every thread is idle, but the file does not have the message. -/
theorem clean_session_not_saved :
    ¬ ∀ s : SessionState Bool, (sessionSystem Bool).Reachable s → s.dirty = false →
      (∀ i, s.pc i = .idle) →
      s.sessionFile (some s.loaded) = some s.store.snapshotForPersistence := by
  intro h
  have hobserved : lostSession.map observed = some ((false, true), some 0, 1) := by decide
  obtain ⟨s, hs, hobserved⟩ := Option.map_eq_some_iff.mp hobserved
  have hreach : (sessionSystem Bool).Reachable s :=
    System.Reachable.replay (fun _ a _ h => ⟨a, h⟩) (.start ⟨⟨.empty⟩, .null, none, rfl⟩) hs
  simp only [observed, Prod.mk.injEq] at hobserved
  obtain ⟨⟨hdirty, hboth⟩, hfile, hstore⟩ := hobserved
  obtain ⟨hfalse, htrue⟩ := Bool.and_eq_true_iff.mp hboth
  have hidle : ∀ i, s.pc i = .idle := by
    intro i
    cases i with
    | false => exact eq_idle hfalse
    | true => exact eq_idle htrue
  rw [h s hreach hdirty hidle, Option.map_some, hstore] at hfile
  cases hfile

end Example

end Switchboard.Messaging
