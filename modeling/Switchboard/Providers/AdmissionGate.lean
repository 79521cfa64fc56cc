import Switchboard.Providers.Admission

/-!
# The half-open gate

An unresolved probe permit is current as long as it is held: every section that
touches the leader or the probe flag of an open episode is run either by the frame
that holds the permit or when nobody holds one. So there is at most one.
-/

namespace Switchboard.Providers

/-- The permit a frame holds and has not resolved. -/
def AdmissionPc.permit? {ε : Type} : AdmissionPc ε → Option GatePermit
  | .limiting p | .slotting p | .abandoningPermit p _ | .attempt p false | .reporting p _
  | .closing p | .detached p | .leaked p => some p
  | _ => none

/-- The frame is inside `open_attempt`. -/
def AdmissionPc.opening {ε : Type} : AdmissionPc ε → Bool
  | .gate | .coalesced _ | .parked | .leading .. | .leavingWait _ | .leavingLead _ | .limiting _
  | .slotting _ | .abandoningPermit .. => true
  | _ => false

/-- The permit about which the owner of a frame reports, or that it gives up. -/
def AdmissionPc.reported? {ε : Type} : AdmissionPc ε → Option GatePermit
  | .abandoningPermit p _ | .attempt p _ | .reporting p _ | .closing p | .detached p => some p
  | _ => none

/-- A permit that is no probe of the episode. -/
def GatePermit.Stale {σ ε : Type} (p : GatePermit) (e : RecoveryEpisode σ ε) : Prop :=
  p.probe = false ∨ p.generation ≠ some e.generation

/-- The episode is still open, with the same gate. -/
structure RecoveryEpisode.SameGate {σ ε : Type} (e e' : RecoveryEpisode σ ε) : Prop where
  generation : e'.generation = e.generation
  readyAt : e'.readyAt = e.readyAt
  leader : e'.leader = e.leader
  probeActive : e'.probeActive = e.probeActive
  terminalUntil : e'.terminalUntil = e.terminalUntil

namespace AdmissionState

variable {σ φ ε : Type} [DecidableEq σ] {cfg : AdmissionConfig} {owner : φ → σ}
  {s t : AdmissionState σ φ ε} {f g : φ} {x : σ} {p : GatePermit} {c : AdmissionPc ε}
  {e e' : RecoveryEpisode σ ε}

/-- The frame holds an unresolved half-open probe permit. -/
def HoldsProbe (s : AdmissionState σ φ ε) (f : φ) : Prop :=
  ∃ p, (s.pc f).permit? = some p ∧ p.probe = true

/-! ## Permits and the open episode -/

theorem matchingProbe_eq_some :
    s.matchingProbe x p = some e ↔ s.episode = some e ∧ p.probe = true ∧
      p.generation = some e.generation ∧ e.leader = some x ∧ e.probeActive = true := by
  simp [matchingProbe, Option.filter_eq_some_iff, and_assoc]

theorem permitIsCurrent_probe (hp : p.probe = true) :
    s.permitIsCurrent x p = true ↔ ∃ e, s.episode = some e ∧ p.generation = some e.generation ∧
      e.terminalUntil = none ∧ e.leader = some x ∧ e.probeActive = true := by
  cases he : s.episode <;> simp [permitIsCurrent, hp, he, and_assoc]

theorem permitIsCurrent_plain (hp : p.probe = false) :
    s.permitIsCurrent x p = true ↔ s.episode = none := by
  simp [permitIsCurrent, hp]

theorem matchingProbe_stale (he : s.episode = some e) (hp : p.Stale e) :
    s.matchingProbe x p = none := by
  rw [Option.eq_none_iff_forall_ne_some]
  intro e' h
  obtain ⟨he', hprobe, hgen, -⟩ := matchingProbe_eq_some.mp h
  rw [he] at he'
  cases he'
  rcases hp with hp | hp
  · rw [hp] at hprobe
    cases hprobe
  · exact hp hgen

/-! ## The invariant -/

/-- Every unresolved probe permit is current, and one frame at most holds one. -/
structure Gated (owner : φ → σ) (s : AdmissionState σ φ ε) : Prop where
  current : ∀ f p, (s.pc f).permit? = some p → p.probe = true →
    s.permitIsCurrent (owner f) p = true
  unique : ∀ f g, s.HoldsProbe f → s.HoldsProbe g → f = g

/-- Probe permits that are current stay current. -/
def KeepsProbes (s t : AdmissionState σ φ ε) : Prop :=
  ∀ x p, p.probe = true → s.permitIsCurrent x p = true → t.permitIsCurrent x p = true

theorem keepsProbes_of_episode (h : t.episode = s.episode) : KeepsProbes s t := by
  intro x p _ hc
  simpa only [permitIsCurrent, h] using hc

theorem keepsProbes_of_sameGate (hs : s.episode = some e) (ht : t.episode = some e')
    (h : e.SameGate e') : KeepsProbes s t := by
  intro x p hp hc
  obtain ⟨e₀, he, hgen, hterm, hlead, hact⟩ := (permitIsCurrent_probe hp).mp hc
  rw [hs] at he
  cases he
  exact (permitIsCurrent_probe hp).mpr ⟨e', ht, h.generation ▸ hgen, h.terminalUntil.trans hterm,
    h.leader.trans hlead, h.probeActive.trans hact⟩

theorem Gated.holder (h : Gated owner s) (hf : s.HoldsProbe f) :
    ∃ e, s.episode = some e ∧ e.terminalUntil = none ∧ e.leader = some (owner f) ∧
      e.probeActive = true := by
  obtain ⟨p, hperm, hp⟩ := hf
  obtain ⟨e, he, -, hterm, hlead, hact⟩ := (permitIsCurrent_probe hp).mp (h.current f p hperm hp)
  exact ⟨e, he, hterm, hlead, hact⟩

theorem Gated.no_holder (h : Gated owner s)
    (he : ∀ e, s.episode = some e →
      e.terminalUntil ≠ none ∨ e.leader = none ∨ e.probeActive = false) (f : φ) :
    ¬ s.HoldsProbe f := by
  intro hf
  obtain ⟨e, hep, hterm, hlead, hact⟩ := h.holder hf
  rcases he e hep with hc | hc | hc
  · exact hc hterm
  · rw [hc] at hlead
    cases hlead
  · rw [hc] at hact
    cases hact

/-! ## Outcomes -/

omit [DecidableEq σ] in
theorem sameGate_refl : e.SameGate e := ⟨rfl, rfl, rfl, rfl, rfl⟩

theorem giveUpProbe_pc : (s.giveUpProbe x p).pc = s.pc := by
  unfold giveUpProbe
  split <;> rfl

theorem giveUpProbe_of_none (hm : s.matchingProbe x p = none) : s.giveUpProbe x p = s := by
  simp [giveUpProbe, hm]

theorem keepsProbes_giveUpProbe (hm : s.matchingProbe x p = none) :
    KeepsProbes s (s.giveUpProbe x p) := by
  rw [giveUpProbe_of_none hm]
  exact fun _ _ _ hc => hc

theorem attemptFailed_pc {error : ε} {canRetry : Bool} {delay terminalDelay : ℚ} :
    (s.attemptFailed x p error canRetry delay terminalDelay).pc = s.pc := by
  unfold attemptFailed
  repeat' split
  all_goals rfl

theorem outcomeSection_pc {o : AttemptOutcome ε} : (s.outcomeSection x p o).pc = s.pc := by
  cases o with
  | failed => exact attemptFailed_pc
  | _ =>
    simp only [outcomeSection, attemptSucceeded, attemptCorrected, attemptRejected]
    split <;> rfl

/-- A section whose permit matches no probe leaves the gate of an open episode alone. -/
theorem outcomeSection_sameGate {o : AttemptOutcome ε} (hm : s.matchingProbe x p = none)
    (he : s.episode = some e) :
    ∃ e', (s.outcomeSection x p o).episode = some e' ∧ e.SameGate e' := by
  cases o with
  | failed error canRetry delay terminalDelay =>
    simp only [outcomeSection, attemptFailed, hm, he]
    split
    · split
      · exact ⟨e, he, rfl, rfl, rfl, rfl, rfl⟩
      · exact ⟨_, rfl, rfl, rfl, rfl, rfl, rfl⟩
    · exact ⟨e, he, rfl, rfl, rfl, rfl, rfl⟩
  | _ =>
    simp only [outcomeSection, attemptSucceeded, attemptCorrected, attemptRejected, hm]
    exact ⟨e, he, rfl, rfl, rfl, rfl, rfl⟩

theorem keepsProbes_outcomeSection {o : AttemptOutcome ε} (hm : s.matchingProbe x p = none) :
    KeepsProbes s (s.outcomeSection x p o) := by
  cases he : s.episode with
  | none =>
    intro y q hq hcur
    obtain ⟨e, he', -⟩ := (permitIsCurrent_probe hq).mp hcur
    rw [he] at he'
    cases he'
  | some e =>
    obtain ⟨e', he', hg⟩ := outcomeSection_sameGate (o := o) hm he
    exact keepsProbes_of_sameGate he he' hg

/-! ## How the invariant survives a step -/

variable [DecidableEq φ]

omit [DecidableEq σ] in
theorem holdsProbe_of_ne (hpc : t.pc = Function.update s.pc f c) (hg : g ≠ f) :
    t.HoldsProbe g ↔ s.HoldsProbe g := by
  simp only [HoldsProbe, hpc, Function.update_of_ne hg]

/-- A step that keeps the probes, after which the frame holds at most what it held. -/
theorem Gated.keep (h : Gated owner s) (hpc : t.pc = Function.update s.pc f c)
    (hk : KeepsProbes s t)
    (hc : ∀ p, c.permit? = some p → p.probe = true → (s.pc f).permit? = some p) :
    Gated owner t := by
  have hback : ∀ g p, (t.pc g).permit? = some p → p.probe = true →
      (s.pc g).permit? = some p := by
    intro g p hg hp
    by_cases hgf : g = f
    · rw [hgf] at hg ⊢
      rw [hpc, Function.update_self] at hg
      exact hc p hg hp
    · rwa [hpc, Function.update_of_ne hgf] at hg
  constructor
  · intro g p hg hp
    exact hk _ _ hp (h.current g p (hback g p hg hp) hp)
  · rintro g g' ⟨p, hg, hp⟩ ⟨p', hg', hp'⟩
    exact h.unique g g' ⟨p, hback g p hg hp, hp⟩ ⟨p', hback g' p' hg' hp', hp'⟩

/-- A step taken while nobody holds a probe: the frame may be issued one. -/
theorem Gated.issue (hno : ∀ g, ¬ s.HoldsProbe g) (hpc : t.pc = Function.update s.pc f c)
    (hc : ∀ p, c.permit? = some p → p.probe = true → t.permitIsCurrent (owner f) p = true) :
    Gated owner t := by
  have honly : ∀ g, t.HoldsProbe g → g = f := by
    intro g hg
    by_contra hgf
    exact hno g ((holdsProbe_of_ne hpc hgf).mp hg)
  constructor
  · intro g p hg hp
    cases honly g ⟨p, hg, hp⟩
    rw [hpc, Function.update_self] at hg
    exact hc p hg hp
  · intro g g' hg hg'
    rw [honly g hg, honly g' hg']

/-- The holder of the probe resolves it: nobody holds one afterwards. -/
theorem Gated.resolve (h : Gated owner s) (hf : s.HoldsProbe f)
    (hpc : t.pc = Function.update s.pc f c) (hc : c.permit? = none) : Gated owner t := by
  have hno : ∀ g, ¬ t.HoldsProbe g := by
    intro g hg
    by_cases hgf : g = f
    · obtain ⟨p, hp, -⟩ := hg
      rw [hgf, hpc, Function.update_self, hc] at hp
      cases hp
    · exact hgf (h.unique g f ((holdsProbe_of_ne hpc hgf).mp hg) hf)
  exact ⟨fun g p hg hp => absurd ⟨p, hg, hp⟩ (hno g), fun g g' hg => absurd hg (hno g)⟩

/-! ## The sections -/

theorem gated_goto (h : Gated owner s) (hpc : t.pc = s.pc) (hk : KeepsProbes s t)
    (hc : ∀ p, c.permit? = some p → p.probe = true → (s.pc f).permit? = some p) :
    Gated owner (t.goto f c) := by
  refine h.keep (f := f) (c := c) ?_ ?_ hc
  · simp only [goto, hpc]
  · intro x p hp hcur
    exact hk x p hp hcur

theorem Gated.dropPermit {again : Bool} (h : Gated owner s) (hf : (s.pc f).permit? = some p) :
    Gated owner (s.dropPermit f p again) := by
  have hk : KeepsProbes s s := fun _ _ _ hc => hc
  unfold AdmissionState.dropPermit
  split
  · refine gated_goto h rfl hk ?_
    intro q hq _
    cases hq
    exact hf
  · exact gated_goto h rfl hk (by cases again <;> simp [AdmissionPc.permit?])

/-- A matching probe is held by the frame that reports on it: either the section
leaves the state alone, or it resolves the probe. -/
theorem Gated.outcome (h : Gated owner s) (hf : (s.pc f).permit? = some p)
    (hpc : t.pc = s.pc) (hc : c.permit? = none)
    (hk : s.matchingProbe (owner f) p = none → KeepsProbes s t) : Gated owner (t.goto f c) := by
  cases hm : s.matchingProbe (owner f) p with
  | none => exact gated_goto h hpc (hk hm) (by simp [hc])
  | some e =>
    have hp := (matchingProbe_eq_some.mp hm).2.1
    refine h.resolve (f := f) (c := c) ⟨p, hf, hp⟩ ?_ hc
    simp only [goto, hpc]

/-- A section that joins an open episode; the leader may be issued its probe. -/
theorem Gated.joinEpisode (h : Gated owner s) (he : s.episode = some e)
    (hterm : e.terminalUntil = none) : Gated owner (s.joinEpisode owner f e) := by
  have hfree : e.leader = none ∨ e.probeActive = false → ∀ g, ¬ s.HoldsProbe g := by
    intro hfree
    refine h.no_holder fun e₀ he₀ => ?_
    rw [he] at he₀
    cases he₀
    exact .inr hfree
  have hsame : ∀ {e'} {c : AdmissionPc ε}, e.SameGate e' → c.permit? = none →
      Gated owner ((s.setEpisode e').goto f c) := fun hsame hc =>
    gated_goto h rfl (keepsProbes_of_sameGate he rfl hsame) (by simp [hc])
  unfold AdmissionState.joinEpisode
  by_cases hlead : e.leader = none
  · have hno := hfree (.inl hlead)
    simp only [if_pos hlead, if_true]
    split_ifs
    · exact Gated.issue hno rfl (by simp [AdmissionPc.permit?])
    · refine Gated.issue hno rfl ?_
      intro q hq hprobe
      cases hq
      exact (permitIsCurrent_probe hprobe).mpr ⟨_, rfl, rfl, hterm, rfl, rfl⟩
    · exact Gated.issue hno rfl (by simp [AdmissionPc.permit?])
  · simp only [if_neg hlead]
    split_ifs with hown hact hready
    · exact hsame sameGate_refl rfl
    · refine Gated.issue (hfree (.inr (by simpa using hact))) rfl ?_
      intro q hq hprobe
      cases hq
      exact (permitIsCurrent_probe hprobe).mpr ⟨_, rfl, rfl, hterm, hown, rfl⟩
    · exact hsame sameGate_refl rfl
    · exact hsame ⟨rfl, rfl, rfl, rfl, rfl⟩ rfl

theorem Gated.gateSection (h : Gated owner s) : Gated owner (s.gateSection owner f) := by
  have hk : KeepsProbes s s := fun _ _ _ hc => hc
  unfold AdmissionState.gateSection
  split
  · refine gated_goto h rfl hk ?_
    intro q hq hprobe
    cases hq
    cases hprobe
  · next e he =>
    split
    · next hterm => exact h.joinEpisode he hterm
    · next terminalUntil hterm =>
      split_ifs
      · exact gated_goto h rfl hk (by simp [AdmissionPc.permit?])
      · -- nobody holds a probe of a terminal episode
        have hno : ∀ g, ¬ s.HoldsProbe g := by
          refine h.no_holder fun e₀ he₀ => ?_
          rw [he] at he₀
          cases he₀
          simp [hterm]
        have hstart : Gated owner
            (s.startRecoveryEpisode (some (owner f)) s.now e.lastError) :=
          ⟨fun g p hg hp => absurd ⟨p, hg, hp⟩ (hno g), fun g g' hg => absurd hg (hno g)⟩
        exact hstart.joinEpisode rfl rfl

theorem Gated.gateRound (h : Gated owner s) : Gated owner (s.gateRound owner f) := by
  unfold AdmissionState.gateRound
  split
  · exact gated_goto h rfl (fun _ _ _ hc => hc) (by simp [AdmissionPc.permit?])
  · exact h.gateSection

theorem Gated.claimProbe {generation : ℕ} (h : Gated owner s) :
    Gated owner (s.claimProbe owner f generation) := by
  have hk : KeepsProbes s s := fun _ _ _ hc => hc
  unfold AdmissionState.claimProbe
  split
  · exact gated_goto h rfl hk (by simp [AdmissionPc.permit?])
  · next e he =>
    split_ifs with hclaim
    · obtain ⟨hgen, hterm, hlead, hact⟩ := hclaim
      refine Gated.issue (h.no_holder fun e₀ he₀ => ?_) rfl ?_
      · rw [he] at he₀
        cases he₀
        exact .inr (.inr hact)
      · intro q hq hprobe
        cases hq
        exact (permitIsCurrent_probe hprobe).mpr
          ⟨_, rfl, congrArg some hgen.symm, hterm, hlead, rfl⟩
    · exact gated_goto h rfl hk (by simp [AdmissionPc.permit?])

theorem Gated.slotSection (h : Gated owner s) (hf : (s.pc f).permit? = some p) :
    Gated owner (s.slotSection cfg owner f p) := by
  unfold AdmissionState.slotSection
  split_ifs
  · exact h.dropPermit hf
  · exact h.dropPermit hf
  · refine h.keep (f := f) (c := .attempt p false) rfl (keepsProbes_of_episode rfl) ?_
    intro q hq _
    cases hq
    exact hf

theorem Gated.limiterSection {elapsed : ℚ} (h : Gated owner s)
    (hf : (s.pc f).permit? = some p) : Gated owner (s.limiterSection cfg owner f p elapsed) := by
  have hpruned : ∀ times, Gated owner { s with times := times } := fun times =>
    ⟨fun g q hg hq => h.current g q hg hq, h.unique⟩
  unfold AdmissionState.limiterSection
  dsimp only
  split_ifs
  · refine h.keep (f := f) (c := .slotting p) rfl (keepsProbes_of_episode rfl) ?_
    intro q hq _
    cases hq
    exact hf
  · exact (hpruned _).dropPermit hf
  · exact hpruned _

theorem Gated.leaveLead {generation : ℕ} (h : Gated owner s) :
    Gated owner ((s.abandonWaitingLeader (owner f) generation).goto f .ended) := by
  have hk : KeepsProbes s s := fun _ _ _ hc => hc
  have hkeep : Gated owner (s.goto f .ended) := gated_goto h rfl hk (by simp [AdmissionPc.permit?])
  unfold abandonWaitingLeader
  split
  · exact hkeep
  · next e he =>
    split_ifs with hother
    · exact hkeep
    · push Not at hother
      refine Gated.issue (h.no_holder fun e₀ he₀ => ?_) rfl (by simp [AdmissionPc.permit?])
      rw [he] at he₀
      cases he₀
      exact .inr (.inr (by simpa using hother.2.2))

theorem Gated.leaveWait {generation : ℕ} (h : Gated owner s) :
    Gated owner ((s.discardWaiter (owner f) generation).goto f .ended) := by
  unfold discardWaiter
  split
  · exact gated_goto h rfl (fun _ _ _ hc => hc) (by simp [AdmissionPc.permit?])
  · next e he =>
    split_ifs
    · exact gated_goto h rfl
        (keepsProbes_of_sameGate he rfl ⟨rfl, rfl, rfl, rfl, rfl⟩) (by simp [AdmissionPc.permit?])
    · exact gated_goto h rfl (fun _ _ _ hc => hc) (by simp [AdmissionPc.permit?])

/-! ## Every step -/

theorem Gated.advance (h : Gated owner s) (ht : s.advance cfg owner f = some t) :
    Gated owner t := by
  unfold AdmissionState.advance at ht
  split at ht
  · cases ht
    exact h.gateRound
  · split_ifs at ht
    cases ht
    exact h.claimProbe
  · cases ht
    exact h.leaveWait
  · cases ht
    exact h.leaveLead
  · next p hpc =>
    split_ifs at ht
    cases ht
    exact h.slotSection (by rw [hpc]; rfl)
  · next p again hpc =>
    cases ht
    exact h.outcome (by rw [hpc]; rfl) giveUpProbe_pc (by cases again <;> rfl)
      keepsProbes_giveUpProbe
  · next p o hpc =>
    cases ht
    exact h.outcome (by rw [hpc]; rfl) outcomeSection_pc rfl keepsProbes_outcomeSection
  · next p hpc =>
    cases ht
    exact h.outcome (by rw [hpc]; rfl) giveUpProbe_pc rfl keepsProbes_giveUpProbe
  · next hpc =>
    cases ht
    exact gated_goto h rfl (keepsProbes_of_episode rfl) (by simp [AdmissionPc.permit?])
  · next p hpc =>
    cases ht
    exact h.outcome (by rw [hpc]; rfl) giveUpProbe_pc rfl keepsProbes_giveUpProbe
  · cases ht

theorem Gated.cancel (h : Gated owner s) (ht : s.cancel f = some t) : Gated owner t := by
  have hk : KeepsProbes s s := fun _ _ _ hc => hc
  have hnone : ∀ c : AdmissionPc ε, c.permit? = none → Gated owner (s.goto f c) := fun c hc =>
    gated_goto h rfl hk (by simp [hc])
  unfold AdmissionState.cancel at ht
  split at ht
  · cases ht
    exact hnone _ rfl
  · cases ht
    exact hnone _ rfl
  · cases ht
    exact hnone _ rfl
  · cases ht
    exact hnone _ rfl
  · cases ht
    exact hnone _ rfl
  · next p hpc =>
    cases ht
    exact h.dropPermit (by rw [hpc]; rfl)
  · next p hpc =>
    cases ht
    exact h.dropPermit (by rw [hpc]; rfl)
  · next p again hpc =>
    cases ht
    refine gated_goto h rfl hk ?_
    intro q hq _
    rw [hpc]
    cases again
    · exact hq
    · exact hq
  · next p o hpc =>
    cases ht
    exact gated_goto h rfl hk (by simp [hpc, AdmissionPc.permit?])
  · next p hpc =>
    cases ht
    exact gated_goto h rfl (keepsProbes_of_episode rfl) (by simp [hpc, AdmissionPc.permit?])
  · cases ht
    exact gated_goto h rfl (keepsProbes_of_episode rfl) (by simp [AdmissionPc.permit?])
  · cases ht

theorem Gated.report {r : Report ε} (h : Gated owner s) (hf : (s.pc f).permit? = some p) :
    Gated owner (s.reportOutcome cfg owner f p r) := by
  have hk : KeepsProbes s s := fun _ _ _ hc => hc
  have hreporting : ∀ o, Gated owner (s.goto f (.reporting p o)) := by
    intro o
    refine gated_goto h rfl hk ?_
    intro q hq _
    cases hq
    exact hf
  have hresolved : Gated owner (s.goto f (.attempt p true)) :=
    gated_goto h rfl hk (by simp [AdmissionPc.permit?])
  unfold reportOutcome
  split
  · exact hreporting _
  · split_ifs
    · exact hreporting _
    · exact hresolved

/-- The step lemma. -/
theorem Gated.act {a : Action ε} (h : Gated owner s) (ht : s.act cfg owner f a = some t) :
    Gated owner t := by
  have hk : KeepsProbes s s := fun _ _ _ hc => hc
  cases a with
  | begin =>
    simp only [AdmissionState.act] at ht
    split at ht
    · cases ht
      split_ifs
      · exact gated_goto h rfl hk (by simp [AdmissionPc.permit?])
      · exact gated_goto h rfl hk (by simp [AdmissionPc.permit?])
    · cases ht
  | advance => exact h.advance ht
  | pace elapsed =>
    simp only [AdmissionState.act] at ht
    split at ht
    · next p hpc =>
      split_ifs at ht
      cases ht
      exact h.limiterSection (by rw [hpc]; rfl)
    · cases ht
  | wake =>
    simp only [AdmissionState.act] at ht
    split at ht
    · cases ht
      exact gated_goto h rfl hk (by simp [AdmissionPc.permit?])
    · cases ht
      exact gated_goto h rfl hk (by simp [AdmissionPc.permit?])
    · cases ht
  | report r =>
    simp only [AdmissionState.act] at ht
    split at ht
    · next p hpc =>
      cases ht
      exact h.report (by rw [hpc]; rfl)
    · cases ht
  | close =>
    simp only [AdmissionState.act] at ht
    split at ht
    · cases ht
      exact gated_goto h rfl (keepsProbes_of_episode rfl) (by simp [AdmissionPc.permit?])
    · next p hpc =>
      cases ht
      exact gated_goto h rfl hk (by simp [hpc, AdmissionPc.permit?])
    · cases ht
  | cancel => exact h.cancel ht

/-- The run lemma. -/
theorem gated_of_reachable (hs : (admissionSystem ε cfg owner).Reachable s) : Gated owner s := by
  refine System.Reachable.invariant (P := Gated owner) ?_ ?_ hs
  · rintro s ⟨now, rfl⟩
    have hno : ∀ f, ¬ HoldsProbe (fresh cfg now : AdmissionState σ φ ε) f := by
      rintro f ⟨p, hp, -⟩
      cases hp
    exact ⟨fun f p hf hp => absurd ⟨p, hf, hp⟩ (hno f), fun f g hf => absurd hf (hno f)⟩
  · intro s l t _ h hst
    cases l with
    | frame f a => exact h.act hst
    | tick elapsed =>
      obtain ⟨-, rfl⟩ := hst
      exact ⟨fun f p hf hp => h.current f p hf hp, h.unique⟩

/-! ## Which attempts are opened -/

/-- The point of a frame is not that of an attempt. -/
def Unopened (s : AdmissionState σ φ ε) (f : φ) : Prop := ∀ p r, s.pc f ≠ .attempt p r

omit [DecidableEq σ] in
theorem unopened_goto (hc : ∀ p r, c ≠ .attempt p r) : (s.goto f c).Unopened f := by
  intro p r
  simp only [goto, Function.update_self]
  exact hc p r

omit [DecidableEq σ] in
theorem unopened_dropPermit {again : Bool} : (s.dropPermit f p again).Unopened f := by
  unfold AdmissionState.dropPermit
  split
  · exact unopened_goto (by simp)
  · exact unopened_goto (by cases again <;> simp)

theorem unopened_joinEpisode : (s.joinEpisode owner f e).Unopened f := by
  unfold AdmissionState.joinEpisode
  dsimp only
  split_ifs <;> exact unopened_goto (by simp)

theorem unopened_gateSection : (s.gateSection owner f).Unopened f := by
  unfold AdmissionState.gateSection
  split
  · exact unopened_goto (by simp)
  · split
    · exact unopened_joinEpisode
    · split_ifs
      · exact unopened_goto (by simp)
      · exact unopened_joinEpisode

theorem unopened_gateRound : (s.gateRound owner f).Unopened f := by
  unfold AdmissionState.gateRound
  split
  · exact unopened_goto (by simp)
  · exact unopened_gateSection

theorem unopened_claimProbe {generation : ℕ} :
    (s.claimProbe owner f generation).Unopened f := by
  unfold AdmissionState.claimProbe
  split
  · exact unopened_goto (by simp)
  · split_ifs
    · exact unopened_goto (by simp)
    · exact unopened_goto (by simp)

theorem unopened_limiterSection {elapsed : ℚ} (hs : s.pc f = .limiting p) :
    (s.limiterSection cfg owner f p elapsed).Unopened f := by
  unfold AdmissionState.limiterSection
  dsimp only
  split_ifs
  · exact unopened_goto (by simp)
  · exact unopened_dropPermit
  · intro q r
    simp [hs]

theorem unopened_advance (ht : s.advance cfg owner f = some t)
    (hopening : (s.pc f).opening = true) (hslot : ∀ q, s.pc f ≠ .slotting q) : t.Unopened f := by
  unfold AdmissionState.advance at ht
  split at ht
  · cases ht
    exact unopened_gateRound
  · split_ifs at ht
    cases ht
    exact unopened_claimProbe
  · cases ht
    exact unopened_goto (by simp)
  · cases ht
    exact unopened_goto (by simp)
  · next q hpc => exact absurd hpc (hslot q)
  · next q again hpc =>
    cases ht
    exact unopened_goto (by cases again <;> simp)
  · next hpc =>
    rw [hpc] at hopening
    cases hopening
  · cases ht
    exact unopened_goto (by simp)
  · cases ht
    exact unopened_goto (by simp)
  · cases ht
    exact unopened_goto (by simp)
  · cases ht

omit [DecidableEq σ] in
theorem unopened_cancel (ht : s.cancel f = some t) (hopening : (s.pc f).opening = true) :
    t.Unopened f := by
  unfold AdmissionState.cancel at ht
  split at ht
  case h_8 =>
    cases ht
    refine unopened_goto ?_
    intro p r
    split_ifs <;> simp
  case h_9 hpc =>
    rw [hpc] at hopening
    cases hopening
  case h_6 =>
    cases ht
    exact unopened_dropPermit
  case h_7 =>
    cases ht
    exact unopened_dropPermit
  all_goals
    cases ht
    try exact unopened_goto (by simp)

/-- `open_attempt` returns an attempt only from the slot section, for a permit that
is current there. -/
theorem act_opened {a : Action ε} {r : Bool} (ht : s.act cfg owner f a = some t)
    (hopening : (s.pc f).opening = true) (hpc : t.pc f = .attempt p r) :
    s.permitIsCurrent (owner f) p = true := by
  have hnot : t.Unopened f → False := fun h => h p r hpc
  cases a with
  | advance =>
    by_cases hslot : ∃ q, s.pc f = .slotting q
    · obtain ⟨q, hs⟩ := hslot
      simp only [AdmissionState.act, AdmissionState.advance, hs] at ht
      split_ifs at ht
      cases ht
      unfold AdmissionState.slotSection at hpc hnot
      split_ifs at hpc hnot with hcur hcan
      · exact (hnot unopened_dropPermit).elim
      · exact (hnot unopened_dropPermit).elim
      · simp only [goto, Function.update_self, AdmissionPc.attempt.injEq] at hpc
        rw [← hpc.1]
        simpa using hcur
    · exact (hnot (unopened_advance ht hopening fun q hq => hslot ⟨q, hq⟩)).elim
  | pace elapsed =>
    simp only [AdmissionState.act] at ht
    split at ht
    · next q hs =>
      split_ifs at ht
      cases ht
      exact (hnot (unopened_limiterSection hs)).elim
    · cases ht
  | cancel => exact (hnot (unopened_cancel ht hopening)).elim
  | wake =>
    simp only [AdmissionState.act] at ht
    split at ht
    · cases ht
      exact (hnot (unopened_goto (by simp))).elim
    · cases ht
      exact (hnot (unopened_goto (by simp))).elim
    · cases ht
  | begin =>
    simp only [AdmissionState.act] at ht
    split at ht
    · next hs =>
      rw [hs] at hopening
      cases hopening
    · cases ht
  | report r' =>
    simp only [AdmissionState.act] at ht
    split at ht
    · next q hs =>
      rw [hs] at hopening
      cases hopening
    · cases ht
  | close =>
    simp only [AdmissionState.act] at ht
    split at ht
    · next q hs =>
      rw [hs] at hopening
      cases hopening
    · next q hs =>
      rw [hs] at hopening
      cases hopening
    · cases ht

/-! ## Stale outcomes -/

omit [DecidableEq σ] [DecidableEq φ] in
theorem sameGate_of_episode (he : s.episode = some e) (ht : t.episode = s.episode) :
    ∃ e', t.episode = some e' ∧ e.SameGate e' :=
  ⟨e, ht.trans he, sameGate_refl⟩

theorem stale_advance (ht : s.advance cfg owner f = some t)
    (hf : (s.pc f).reported? = some p) (he : s.episode = some e) (hp : p.Stale e) :
    ∃ e', t.episode = some e' ∧ e.SameGate e' := by
  have hm : s.matchingProbe (owner f) p = none := matchingProbe_stale he hp
  unfold AdmissionState.advance at ht
  have hcall : ∀ q : AdmissionPc ε, q.reported? = none → s.pc f ≠ q := by
    intro q hq hpc
    rw [hpc, hq] at hf
    cases hf
  split at ht
  case h_6 hpc =>
    rw [hpc] at hf
    cases hf
    cases ht
    rw [abandonProbePermit, giveUpProbe_of_none hm]
    exact sameGate_of_episode he rfl
  case h_7 hpc =>
    rw [hpc] at hf
    cases hf
    cases ht
    exact outcomeSection_sameGate hm he
  case h_8 hpc =>
    rw [hpc] at hf
    cases hf
    cases ht
    rw [attemptAbandoned, giveUpProbe_of_none hm]
    exact sameGate_of_episode he rfl
  case h_10 hpc =>
    rw [hpc] at hf
    cases hf
    cases ht
    rw [attemptAbandoned, giveUpProbe_of_none hm]
    exact sameGate_of_episode he rfl
  case h_11 => cases ht
  all_goals next hpc => exact absurd hpc (hcall _ rfl)

/-- A report on a stale permit, or giving one up, leaves the gate as it is. -/
theorem act_stale {a : Action ε} (ht : s.act cfg owner f a = some t)
    (hf : (s.pc f).reported? = some p) (he : s.episode = some e) (hp : p.Stale e) :
    ∃ e', t.episode = some e' ∧ e.SameGate e' := by
  have hcall : ∀ q : AdmissionPc ε, q.reported? = none → s.pc f ≠ q := by
    intro q hq hpc
    rw [hpc, hq] at hf
    cases hf
  cases a with
  | advance => exact stale_advance ht hf he hp
  | begin =>
    simp only [AdmissionState.act] at ht
    split at ht
    · next hpc => exact absurd hpc (hcall _ rfl)
    · cases ht
  | pace elapsed =>
    simp only [AdmissionState.act] at ht
    split at ht
    · next hpc => exact absurd hpc (hcall _ rfl)
    · cases ht
  | wake =>
    simp only [AdmissionState.act] at ht
    split at ht
    · next hpc => exact absurd hpc (hcall _ rfl)
    · next hpc => exact absurd hpc (hcall _ rfl)
    · cases ht
  | report r =>
    simp only [AdmissionState.act] at ht
    split at ht
    · cases ht
      unfold reportOutcome
      split
      · exact sameGate_of_episode he rfl
      · split_ifs
        · exact sameGate_of_episode he rfl
        · exact sameGate_of_episode he rfl
    · cases ht
  | close =>
    simp only [AdmissionState.act] at ht
    split at ht
    · cases ht
      exact sameGate_of_episode he rfl
    · cases ht
      exact sameGate_of_episode he rfl
    · cases ht
  | cancel =>
    refine sameGate_of_episode he ?_
    simp only [AdmissionState.act, AdmissionState.cancel] at ht
    split at ht
    case h_6 => next hpc => exact absurd hpc (hcall _ rfl)
    case h_7 => next hpc => exact absurd hpc (hcall _ rfl)
    all_goals
      cases ht
      try rfl

end AdmissionState

open AdmissionState

/-- In every reachable state at most one frame holds an unresolved half-open probe
permit. While an episode is open, `open_attempt` returns no attempt with another
permit, and an outcome of a stale permit leaves the episode open with its gate. -/
theorem half_open_gate {σ φ ε : Type} [DecidableEq σ] [DecidableEq φ] (cfg : AdmissionConfig)
    (owner : φ → σ) (s : AdmissionState σ φ ε) (hs : (admissionSystem ε cfg owner).Reachable s) :
    (∀ f g, s.HoldsProbe f → s.HoldsProbe g → f = g) ∧
      ∀ f a t, s.act cfg owner f a = some t →
        (∀ p r, (s.pc f).opening = true → t.pc f = .attempt p r → p.probe = false →
          s.episode = none) ∧
        ∀ p e, (s.pc f).reported? = some p → s.episode = some e → p.Stale e →
          ∃ e', t.episode = some e' ∧ e.SameGate e' := by
  refine ⟨(gated_of_reachable hs).unique, ?_⟩
  intro f a t ht
  constructor
  · intro p r hopening hpc hp
    exact (permitIsCurrent_plain hp).mp (act_opened ht hopening hpc)
  · intro p e hf he hp
    exact act_stale ht hf he hp

/-! ## A coalesced failure -/

section Example

def sampleConfig : AdmissionConfig where
  rateLimit := 2
  rateWindow := 1
  maxConcurrency := 2
  maxAttempts := 2
  baseDelay := 1
  maxDelay := 1
  jitter := 0
  rateLimit_pos := by decide
  rateWindow_pos := by decide
  maxConcurrency_pos := by decide
  maxAttempts_pos := by decide
  baseDelay_nonneg := by decide
  baseDelay_le := by decide
  jitter_nonneg := by decide

/-- One frame for each of two sessions. -/
def sampleAct (s : AdmissionState Bool Bool Unit) :
    Bool × Action Unit → Option (AdmissionState Bool Bool Unit) :=
  fun l => s.act sampleConfig id l.1 l.2

/-- Both sessions open an attempt; the first fails and leads, the second is about
to report its failure on a permit that is no probe. -/
def coalescedFailure : List (Bool × Action Unit) :=
  [(false, .begin), (false, .advance), (false, .pace 0), (false, .advance),
    (true, .begin), (true, .advance), (true, .pace 0), (true, .advance),
    (false, .report (.failed () none 0 0)), (false, .advance),
    (true, .report (.failed () none 0 0))]

theorem half_open_gate_sample :
    ∃ s t : AdmissionState Bool Bool Unit, ∃ e e',
      System.replay sampleAct (fresh sampleConfig 0) coalescedFailure = some s ∧
        s.act sampleConfig id true .advance = some t ∧ s.episode = some e ∧
        e.leader = some false ∧ t.episode = some e' ∧ e.SameGate e' := by
  have hlead : ((System.replay sampleAct (fresh sampleConfig 0) coalescedFailure).bind
      (·.episode)).map (·.leader) = some (some false) := by decide +kernel
  have hpc : (System.replay sampleAct (fresh sampleConfig 0) coalescedFailure).bind
      (fun s => (s.pc true).reported?) = some ⟨none, false⟩ := by decide +kernel
  have hact : ((System.replay sampleAct (fresh sampleConfig 0) coalescedFailure).bind
      (fun s => s.act sampleConfig id true .advance)).isSome = true := by decide +kernel
  obtain ⟨e, he, hlead⟩ := Option.map_eq_some_iff.mp hlead
  obtain ⟨s, hs, he⟩ := Option.bind_eq_some_iff.mp he
  simp only [hs, Option.bind_some] at hpc hact
  obtain ⟨t, ht⟩ := Option.isSome_iff_exists.mp hact
  have hreach : (admissionSystem Unit sampleConfig id).Reachable s :=
    System.Reachable.replay (fun s a t (h : sampleAct s a = some t) => ⟨.frame a.1 a.2, h⟩)
      (System.Reachable.start (S := admissionSystem Unit sampleConfig (id : Bool → Bool))
        ⟨0, rfl⟩) hs
  obtain ⟨e', he', hg⟩ :=
    ((half_open_gate sampleConfig id s hreach).2 true .advance t ht).2 _ e hpc he (.inl rfl)
  exact ⟨s, t, e, e', hs, ht, he, hlead, he', hg⟩

end Example

end Switchboard.Providers
